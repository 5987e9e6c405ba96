import RubyLex.Proofs.Utf8
import RubyLex.Source

/-!
# Loading inputs in order

Inputs are loaded one after the other, up to the first that fails, and standard input is taken by
the first that names it.  So what an input is loaded as can be said without a run: it depends on the
files, on standard input, and on whether an input before it named that (`outcomes`).  A run gives
these outcomes in order, or the first failure among them (`loadAll_cases`).
-/

namespace RubyLex.Source

variable {files : FileSystem} {input : List UInt8} {path : Path} {paths : List Path}

/-- What an input is loaded as, for given bytes of standard input. -/
def fetch (files : FileSystem) (input : List UInt8) (path : Path) : Except Failure Source :=
  if path.isStandardInput then decode standardInputName input else readFile files path

/-- What some inputs leave of standard input: nothing, once one of them named it. -/
def leftBy (earlier : List Path) (input : List UInt8) : List UInt8 :=
  if earlier.any Path.isStandardInput then [] else input

/-- What each of some inputs is loaded as. -/
def outcomes (files : FileSystem) (input : List UInt8) (paths : List Path) :
    List (Except Failure Source) :=
  paths.mapIdx fun i path ↦ fetch files (leftBy (paths.take i) input) path

theorem leftBy_singleton_of_standardInput (h : path.isStandardInput = true) :
    leftBy [path] input = [] := by
  simp [leftBy, h]

theorem leftBy_singleton_of_file (h : path.isStandardInput = false) :
    leftBy [path] input = input := by
  simp [leftBy, h]

theorem leftBy_cons (path : Path) (earlier : List Path) (input : List UInt8) :
    leftBy (path :: earlier) input = leftBy earlier (leftBy [path] input) := by
  cases h : path.isStandardInput with
  | true => simp [leftBy, h]
  | false => simp [leftBy, h]

@[simp] theorem outcomes_nil : outcomes files input [] = [] := rfl

theorem outcomes_cons (path : Path) (paths : List Path) :
    outcomes files input (path :: paths) =
      fetch files input path :: outcomes files (leftBy [path] input) paths := by
  have hleft (i : Nat) : leftBy ((path :: paths).take (i + 1)) input =
      leftBy (paths.take i) (leftBy [path] input) :=
    leftBy_cons path (paths.take i) input
  rw [outcomes, List.mapIdx_cons]
  simp only [hleft]
  rfl

/-! ## Runs -/

/-- One input: the run gives what it is loaded as, and takes standard input if that is named. -/
theorem run_load (path : Path) (w : World) :
    ∃ log, (load path).run w =
      match fetch w.files w.input path with
      | .ok source => .ok source { w with input := leftBy [path] w.input, log }
      | .error failure => .error failure { w with input := leftBy [path] w.input, log } := by
  unfold load fetch
  cases hpath : path.isStandardInput with
  | true =>
    have htake : Session.takeInput.run w = .ok w.input { w with input := [] } := rfl
    refine ⟨w.log, ?_⟩
    rw [leftBy_singleton_of_standardInput hpath, if_pos rfl, if_pos rfl, EStateM.run_bind, htake]
    cases hdecode : decode standardInputName w.input with
    | ok source =>
      simp only [hdecode]
      rfl
    | error failure =>
      simp only [hdecode]
      rfl
  | false =>
    rw [leftBy_singleton_of_file hpath, if_neg (by simp), if_neg (by simp)]
    cases hread : readFile w.files path with
    | ok source =>
      refine ⟨w.log ++ [.loaded path source.content.utf8ByteSize], ?_⟩
      rw [EStateM.run_bind, EStateM.run_get]
      simp only [hread]
      rfl
    | error failure =>
      refine ⟨w.log, ?_⟩
      rw [EStateM.run_bind, EStateM.run_get]
      simp only [hread]
      rfl

/-- The sources of all inputs, or the failure of the first that is not loaded. -/
theorem loadAll_cases (paths : List Path) (w : World) :
    (∃ sources after, outcomes w.files w.input paths = sources.map .ok ∧
      (loadAll paths).run w = .ok sources after) ∨
    ∃ (sources : List Source) (failure : Failure) (rest : List (Except Failure Source))
        (after : World),
      outcomes w.files w.input paths = sources.map .ok ++ .error failure :: rest ∧
        (loadAll paths).run w = .error failure after := by
  induction paths generalizing w with
  | nil => exact .inl ⟨[], w, rfl, rfl⟩
  | cons path paths ih =>
    obtain ⟨log, hload⟩ := run_load path w
    rw [outcomes_cons]
    cases hfetch : fetch w.files w.input path with
    | error failure =>
      rw [hfetch] at hload
      refine .inr ⟨[], failure, outcomes w.files (leftBy [path] w.input) paths,
        { w with input := leftBy [path] w.input, log }, rfl, ?_⟩
      rw [loadAll, EStateM.run_bind, hload]
    | ok source =>
      rw [hfetch] at hload
      obtain ⟨sources, after, hall, hrun⟩ | ⟨sources, failure, rest, after, hall, hrun⟩ :=
        ih { w with input := leftBy [path] w.input, log }
      · refine .inl ⟨source :: sources, after, congrArg (.ok source :: ·) hall, ?_⟩
        rw [loadAll, EStateM.run_bind, hload]
        simp only [EStateM.run_bind, hrun]
        rfl
      · refine .inr ⟨source :: sources, failure, rest, after, congrArg (.ok source :: ·) hall, ?_⟩
        rw [loadAll, EStateM.run_bind, hload]
        simp only [EStateM.run_bind, hrun]

/-- The failure of an input that is not loaded. -/
def failure? : Except Failure Source → Option Failure
  | .ok _ => none
  | .error failure => some failure

theorem findSome?_failure?_ok (sources : List Source) :
    (sources.map Except.ok).findSome? failure? = none := by
  simp [failure?]

theorem findSome?_failure?_error (sources : List Source) (failure : Failure)
    (rest : List (Except Failure Source)) :
    (sources.map Except.ok ++ Except.error failure :: rest).findSome? failure? = some failure := by
  rw [List.findSome?_append, findSome?_failure?_ok]
  rfl

theorem loadAll_ok_iff {w : World} {sources : List Source} :
    (∃ after, (loadAll paths).run w = .ok sources after) ↔
      outcomes w.files w.input paths = sources.map .ok := by
  obtain ⟨sources', after, hall, hrun⟩ | ⟨sources', failure, rest, after, hall, hrun⟩ :=
    loadAll_cases paths w
  · rw [hall, hrun]
    constructor
    · rintro ⟨_, h⟩
      rw [(EStateM.Result.ok.inj h).1]
    · intro h
      rw [List.map_inj_right fun _ _ ↦ Except.ok.inj] at h
      exact ⟨after, congrArg (EStateM.Result.ok · after) h⟩
  · rw [hall, hrun]
    constructor
    · rintro ⟨_, h⟩
      cases h
    · intro h
      have hfailure := findSome?_failure?_error sources' failure rest
      rw [h, findSome?_failure?_ok] at hfailure
      cases hfailure

/-- The name under which an input is listed. -/
def listedName (path : Path) : String :=
  if path.isStandardInput then standardInputName else path.text

theorem name_of_decode {name : String} {bytes : List UInt8} {source : Source}
    (h : decode name bytes = .ok source) : source.name = name := by
  unfold decode at h
  split at h
  · obtain rfl := Except.ok.inj h
    rfl
  · cases h

theorem name_of_fetch {source : Source} (h : fetch files input path = .ok source) :
    source.name = listedName path := by
  unfold fetch at h
  unfold listedName
  split at h
  · next hpath => rw [if_pos hpath, name_of_decode h]
  · next hpath =>
    rw [if_neg hpath]
    unfold readFile at h
    split at h
    · cases h
    · cases h
    · exact name_of_decode h

theorem map_name_of_outcomes {sources : List Source}
    (h : outcomes files input paths = sources.map .ok) :
    sources.map name = paths.map listedName := by
  induction paths generalizing input sources with
  | nil =>
    obtain rfl : sources = [] := by simpa using h.symm
    rfl
  | cons path paths ih =>
    rw [outcomes_cons] at h
    obtain ⟨source, rest, rfl, hsource, hrest⟩ := List.map_eq_cons_iff.mp h.symm
    rw [List.map_cons, List.map_cons, name_of_fetch hsource.symm, ih hrest.symm]

end RubyLex.Source
