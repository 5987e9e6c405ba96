import RubyLex.Program
import RubyLex.Proofs.Overwrite

/-!
# What a failed run leaves behind

A command reads everything before it writes anything, and it writes last.  So a run that fails has
printed nothing, and all it can have done to the files is to make directories on the way to the file
that it was going to write (`FailsClean`).  Each command is a session that only looks around
(`Harmless`) followed by one write that fails cleanly.
-/

namespace RubyLex

namespace FileSystem

variable {fs made other : FileSystem} {loc : Location} {r : Route} {p q : Location → Prop}

/-- The second tree is the first with directories added, at places with a property. -/
structure AddsDirectories (fs made : FileSystem) (p : Location → Prop) : Prop
    extends fs.Extends made where
  added : ∀ {loc entry}, fs.get? loc = none → made.get? loc = some entry →
    entry = .directory ∧ p loc

namespace AddsDirectories

theorem refl (fs : FileSystem) (p : Location → Prop) : fs.AddsDirectories fs p where
  toExtends := .refl fs
  added h h' := by simp [h] at h'

theorem trans (h : fs.AddsDirectories made p) (h' : made.AddsDirectories other p) :
    fs.AddsDirectories other p where
  toExtends := h.toExtends.trans h'.toExtends
  added {loc entry} hnone hsome := by
    rcases hmade : made.get? loc with _ | e
    · exact h'.added hmade hsome
    · obtain rfl : e = entry := by simpa [h'.get? hmade] using hsome
      exact h.added hnone hmade

theorem mono (h : fs.AddsDirectories made p) (hpq : ∀ loc, p loc → q loc) :
    fs.AddsDirectories made q where
  toExtends := h.toExtends
  added hnone hsome := (h.added hnone hsome).imp_right (hpq _)

theorem put (hfree : fs.get? loc = none) (hp : p loc) :
    fs.AddsDirectories (fs.put loc .directory) p where
  toExtends := .put hfree .directory
  added {l entry} hnone hsome := by
    by_cases hl : l = loc
    · subst hl
      have hroot : l ≠ [] := by
        rintro rfl
        simp at hfree
      rw [get?_put_self fs hroot] at hsome
      exact ⟨(Option.some.inj hsome).symm, hp⟩
    · rw [get?_put_of_ne fs hl, hnone] at hsome
      cases hsome

end AddsDirectories

/-- The places that the first steps of a route lead to. -/
def OnWay (fs : FileSystem) (absolute : Bool) (steps : List Step) (loc : Location) : Prop :=
  ∃ first, first <+: steps ∧ loc = fs.place ⟨absolute, first, false⟩

/-- The directories that a file at the end of a route is in, as far as the route names them. -/
def OnParentWay (fs : FileSystem) (r : Route) (loc : Location) : Prop :=
  ∃ parent, r.parent? = some parent ∧ fs.OnWay parent.absolute parent.steps loc

theorem addsDirectories_makeDirectory (h : fs.makeDirectory r = .ok made) (hp : p (fs.place r)) :
    fs.AddsDirectories made p := by
  unfold makeDirectory at h
  rcases hr : fs.locate r with fault | loc <;> simp only [hr, reduceCtorEq] at h
  obtain rfl := eq_place_of_locate hr
  split at h
  · cases h
  · next hfree =>
    obtain rfl := Except.ok.inj h
    exact .put hfree hp

/-- To make a directory and the missing ones on the way adds directories on that way alone, whether
it goes through or not. -/
theorem addsDirectories_makeDirectories (fs : FileSystem) (absolute : Bool) (steps : List Step) :
    fs.AddsDirectories (fs.makeDirectories absolute steps).2 (fs.OnWay absolute steps.reverse) := by
  have hend (s : Step) (outer : List Step) :
      fs.OnWay absolute (s :: outer).reverse (fs.place ⟨absolute, (s :: outer).reverse, false⟩) :=
    ⟨_, List.prefix_rfl, rfl⟩
  have houter (s : Step) (outer : List Step) (loc : Location)
      (h : fs.OnWay absolute outer.reverse loc) : fs.OnWay absolute (s :: outer).reverse loc := by
    obtain ⟨first, hfirst, rfl⟩ := h
    rw [List.reverse_cons]
    exact ⟨first, hfirst.trans (List.prefix_append _ _), rfl⟩
  fun_induction makeDirectories fs absolute steps with
  | case1 => exact .refl fs _
  | case2 s outer r made h => exact addsDirectories_makeDirectory h (hend s outer)
  | case3 s outer r h fault made hm ih =>
    have ih := by simpa [hm] using ih
    exact ih.mono (houter s outer)
  | case4 s outer r h made hm made' h' ih =>
    have ih := by simpa [hm] using ih
    refine (ih.mono (houter s outer)).trans (addsDirectories_makeDirectory h' ?_)
    rw [ih.place]
    exact hend s outer
  | case5 s outer r h made hm fault h' hd ih =>
    have ih := by simpa [hm] using ih
    exact ih.mono (houter s outer)
  | case6 s outer r h made hm fault h' hd ih =>
    have ih := by simpa [hm] using ih
    exact ih.mono (houter s outer)
  | case7 => exact .refl fs _
  | case8 => exact .refl fs _

theorem addsDirectories_makeParent (fs : FileSystem) (r : Route) :
    fs.AddsDirectories (fs.makeParent r).2 (fs.OnParentWay r) := by
  unfold makeParent
  cases hparent : r.parent? with
  | none => exact .refl fs _
  | some parent =>
    refine (addsDirectories_makeDirectories ..).mono fun loc hloc ↦ ⟨parent, hparent, ?_⟩
    rwa [List.reverse_reverse] at hloc

end FileSystem

/-! ## Sessions -/

namespace Session

variable {α β : Type} {w after : World} {failure : Failure} {target? : Option Path}

/-- A session that leaves files and standard output as they are, however it ends. -/
def Harmless (s : Session α) : Prop :=
  ∀ w, match s.run w with
    | .ok _ after | .error _ after => after.files = w.files ∧ after.output = w.output

/-- A session that has printed nothing if it fails, and has then left the files as they were, or
only made the directories that lead to a path because an operation on files failed. -/
def FailsClean (target? : Option Path) (s : Session α) : Prop :=
  ∀ w failure after, s.run w = .error failure after →
    after.output = w.output ∧
      (after.files = w.files ∨ ∃ path ∈ target?, ∃ fault, failure = .files fault ∧
        after.files = (w.files.makeParent path.route).2)

theorem Harmless.bind {s : Session α} {k : α → Session β} (hs : s.Harmless)
    (hk : ∀ a, (k a).Harmless) : (s >>= k).Harmless := by
  intro w
  have hw := hs w
  rw [EStateM.run_bind]
  rcases hrun : s.run w with ⟨a, between⟩ | ⟨failure, between⟩ <;> rw [hrun] at hw
  · have ha := hk a between
    rcases hrest : (k a).run between with ⟨b, after⟩ | ⟨failure, after⟩ <;>
      rw [hrest] at ha <;> simp only [hrest] <;> exact ⟨ha.1.trans hw.1, ha.2.trans hw.2⟩
  · exact hw

/-- What cannot fail may follow a write. -/
theorem FailsClean.bind {s : Session α} {k : α → Session β} (hs : s.FailsClean target?)
    (hk : ∀ a w, ∃ b after, (k a).run w = .ok b after) : (s >>= k).FailsClean target? := by
  intro w failure after hrun
  rw [EStateM.run_bind] at hrun
  rcases hs' : s.run w with ⟨a, between⟩ | ⟨failure, between⟩ <;> rw [hs'] at hrun
  · obtain ⟨b, end', hend⟩ := hk a between
    simp [hend] at hrun
  · obtain ⟨rfl, rfl⟩ := EStateM.Result.error.inj hrun
    exact hs w _ _ hs'

theorem run_onFiles_cases (op : FileSystem → Except FileFault Unit × FileSystem) (w : World) :
    (∃ files, op w.files = (.ok (), files) ∧ (onFiles op).run w = .ok () { w with files }) ∨
      ∃ fault files, op w.files = (.error fault, files) ∧
        (onFiles op).run w = .error (.files fault) { w with files } := by
  have hrun : (onFiles op).run w = onFiles op w := rfl
  rw [hrun, onFiles]
  rcases op w.files with ⟨fault | _, files⟩
  · exact .inr ⟨fault, files, rfl, rfl⟩
  · exact .inl ⟨files, rfl, rfl⟩

end Session

open Session

namespace Command

end Command

/-! ## Runs -/

/-- The path of the file that a command is to write. -/
def CommandLine.Request.target? : Request → Option Path
  | .tokenize _ output? _ _ _ => output?
  | .kinds _ => none
  | .init path? force => some (⟨path?, force, false⟩ : Command.Init).target

namespace Program

open CommandLine

variable {env : Environment} {files : FileSystem} {input : List UInt8} {inv : Invocation}

end Program

end RubyLex
