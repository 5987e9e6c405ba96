import RubyLex.Command.Init
import RubyLex.Proofs.Files

/-!
# Files that are there when a file is written

A listing or a first configuration file is written without force only if nothing is found at the end
of its path.  The path is followed a second time after the missing directories on it were made, and
this time it may lead elsewhere: with no directory `a`, nothing is found at `a/../b`, but after `a`
was made it leads to `b`.  So a file can be lost, and `get?_writeDeep_iff` says exactly which and
when.  It takes a step up from a place where nothing stands (`writeDeep_keeps`).
-/

namespace RubyLex

namespace FileSystem

variable {fs made : FileSystem} {loc dest : Location} {r : Route} {content old : List UInt8}

/-- Every file of the first tree is in the second with the same content. -/
def Keeps (fs after : FileSystem) : Prop :=
  ∀ loc content, fs.get? loc = some (.file content) → after.get? loc = some (.file content)

/-- Where nothing is found at the end of a route, a write to it changes a file exactly if it goes
through, the route could not be followed before, and its steps lead to that file. -/
theorem get?_writeDeep_iff (h : fs.hasEntry r = false) (hloc : fs.get? loc = some (.file old)) :
    (fs.writeDeep r content).2.get? loc = some (.file old) ↔
      ¬ ((fs.writeDeep r content).1.isOk = true ∧ (fs.locate r).isOk = false ∧
        fs.place r = loc ∧ old ≠ content) := by
  obtain ⟨made, -, hext, ⟨fault, hw⟩ | ⟨-, hs, -, hw⟩⟩ := fs.writeDeep_cases r content
  · simp [hw, Except.toBool, hext.get? hloc]
  · rw [hw]
    by_cases hplace : fs.place r = loc
    · subst hplace
      have hroot : fs.place r ≠ [] := by
        intro hroot
        simp [hroot] at hloc
      -- were the route followed before, its end would have been found
      have hlost : (fs.locate r).isOk = false := by
        rcases hr' : fs.locate r with fault | loc
        · rfl
        · have hfree := get?_of_hasEntry h hr' hs
          rw [eq_place_of_locate hr', hloc] at hfree
          cases hfree
      rw [get?_put_self made hroot, hlost]
      simpa [Except.toBool] using eq_comm
    · simp [get?_put_of_ne made (Ne.symm hplace), hext.get? hloc, hplace]

/-! ## Steps up -/

/-- What is listed stands in a directory. -/
def Tree (fs : FileSystem) : Prop :=
  ∀ listed ∈ fs.entries, fs.get? listed.1.tail = some .directory

instance (fs : FileSystem) : Decidable fs.Tree :=
  inferInstanceAs (Decidable (∀ listed ∈ fs.entries, _))

/-- Nothing stands below a place where nothing stands. -/
theorem Tree.get?_cons (tree : fs.Tree) (name : String) (h : fs.get? loc = none) :
    fs.get? (name :: loc) = none := by
  refine List.lookup_eq_none_iff.2 fun listed hlisted ↦ ?_
  have hparent := tree listed hlisted
  rw [bne_iff_ne]
  intro hname
  rw [← hname, List.tail_cons, h] at hparent
  cases hparent

/-- Whether every step up starts where something stands. -/
def groundedFrom (fs : FileSystem) (loc : Location) : List Step → Bool
  | [] => true
  | s :: rest => (s ≠ .up || (fs.get? loc).isSome) && fs.groundedFrom (s.apply loc) rest

/-- Whether every step up of a route starts where something stands. -/
def grounded (fs : FileSystem) (r : Route) : Bool :=
  fs.groundedFrom (if r.absolute then [] else fs.working) r.steps

theorem get?_foldl_of_none (tree : fs.Tree) {steps : List Step} (h : fs.get? loc = none)
    (hg : fs.groundedFrom loc steps = true) : fs.get? (steps.foldl Step.apply loc) = none := by
  induction steps generalizing loc with
  | nil => exact h
  | cons s rest ih =>
    simp only [groundedFrom, h, Option.isSome_none, Bool.or_false, Bool.and_eq_true,
      decide_eq_true_eq] at hg
    refine ih ?_ hg.2
    cases s with
    | here => exact h
    | up => exact absurd rfl hg.1
    | down name => exact tree.get?_cons name h

/-- Steps that can be taken after directories were made could be taken before, or lead to a place
where nothing stood. -/
theorem walk_or_get?_of_extends (tree : fs.Tree) (hext : fs.Extends made) {steps : List Step}
    (hw : made.walk loc steps = .ok dest) (hg : fs.groundedFrom loc steps = true) :
    fs.walk loc steps = .ok dest ∨ fs.get? dest = none := by
  induction steps generalizing loc with
  | nil => exact .inl hw
  | cons s rest ih =>
    rcases hloc : fs.get? loc with _ | ⟨_ | _⟩
    · rw [eq_foldl_of_walk hw]
      exact .inr (get?_foldl_of_none tree hloc hg)
    · simp [walk, enter, hext.get? hloc] at hw
    · simp only [groundedFrom, Bool.and_eq_true] at hg
      simp only [walk, enter, hloc, hext.get? hloc] at hw ⊢
      exact ih hw hg.2

/-- A route that can be followed after directories were made, to a place where something stood,
could be followed before. -/
theorem locate_of_extends (tree : fs.Tree) (hext : fs.Extends made) (hg : fs.grounded r = true)
    (hr : made.locate r = .ok dest) (hdest : fs.get? dest ≠ none) : fs.locate r = .ok dest := by
  unfold locate at hr ⊢
  by_cases he : r.isEmpty
  · simp [he] at hr
  · rw [if_neg he] at hr ⊢
    rw [hext.working] at hr
    exact (walk_or_get?_of_extends tree hext hr hg).resolve_right hdest

/-- A write changes no file if nothing is found at the end of the route and every step up of it
starts where something stands. -/
theorem writeDeep_keeps (tree : fs.Tree) (h : fs.hasEntry r = false) (hg : fs.grounded r = true) :
    fs.Keeps (fs.writeDeep r content).2 := by
  intro loc old hloc
  rw [get?_writeDeep_iff h hloc]
  rintro ⟨hok, hlost, rfl, -⟩
  obtain ⟨made, -, hext, ⟨fault, hw⟩ | ⟨hr, -⟩⟩ := fs.writeDeep_cases r content
  · simp [hw, Except.toBool] at hok
  · have hfollowed := locate_of_extends tree hext hg hr (by simp [hloc])
    simp [hfollowed, Except.toBool] at hlost

end FileSystem

/-! ## The two writers -/

namespace Session

variable {α : Type} {w : World} {r : Route} {content : List UInt8}

/-- Whether a session goes through, and the files that it leaves in either case. -/
def outcome (s : Session α) (w : World) : Bool × FileSystem :=
  match s.run w with
  | .ok _ after => (true, after.files)
  | .error _ after => (false, after.files)

theorem outcome_report (events : List Log.Event) :
    (report events).outcome w = (true, w.files) := rfl

@[simp] theorem outcome_throw_bind {β : Type} (failure : Failure) (k : β → Session α) :
    (throw failure >>= k).outcome w = (false, w.files) := rfl

theorem outcome_get_bind (k : World → Session α) : (get >>= k).outcome w = (k w).outcome w := rfl

/-- What follows an operation on files and goes through with them does not show in the outcome. -/
theorem outcome_onFiles_bind {op : FileSystem → Except FileFault Unit × FileSystem}
    {k : Unit → Session α} (h : ∀ w, (k ()).outcome w = (true, w.files)) :
    (onFiles op >>= k).outcome w = ((op w.files).1.isOk, (op w.files).2) := by
  have hrun : (onFiles op).run w = onFiles op w := rfl
  rw [outcome, EStateM.run_bind, hrun, onFiles]
  rcases op w.files with ⟨fault | _, files⟩
  · rfl
  · exact h { w with files }

/-- A session that refuses without a change, or else finds nothing at the end of a route and writes
a file there. -/
def WritesNew (s : Session α) (w : World) (r : Route) (content : List UInt8) : Prop :=
  s.outcome w = (false, w.files) ∨
    w.files.hasEntry r = false ∧
      s.outcome w = ((w.files.writeDeep r content).1.isOk, (w.files.writeDeep r content).2)

/-- A session changes a file exactly if it goes through, the route could not be followed before, and
its steps lead to that file; and it changes none if every step up of the route starts where
something stands. -/
def Spares (s : Session α) (w : World) (r : Route) (content : List UInt8) : Prop :=
  (∀ loc old, w.files.get? loc = some (.file old) →
    ((s.outcome w).2.get? loc = some (.file old) ↔
      ¬ ((s.outcome w).1 = true ∧ (w.files.locate r).isOk = false ∧
        w.files.place r = loc ∧ old ≠ content))) ∧
  (w.files.grounded r = true → w.files.Keeps (s.outcome w).2)

theorem WritesNew.spares {s : Session α} (tree : w.files.Tree) (h : s.WritesNew w r content) :
    s.Spares w r content := by
  obtain h | ⟨hnew, h⟩ := h
  · rw [Spares, h]
    exact ⟨fun loc old hloc ↦ by simp [hloc], fun _ loc old hloc ↦ hloc⟩
  · rw [Spares, h]
    exact ⟨fun loc old hloc ↦ FileSystem.get?_writeDeep_iff hnew hloc,
      FileSystem.writeDeep_keeps tree hnew⟩

end Session

theorem Output.writesNew_writeFile (path : Path) (text : String) (w : World) :
    (writeFile path text false).WritesNew w path.route (Utf8.encode text.toList) := by
  unfold writeFile
  cases hfound : w.files.hasEntry path.route with
  | true => exact .inl (by simp [Session.outcome_get_bind, hfound])
  | false =>
    refine .inr ⟨hfound, ?_⟩
    simp only [Session.outcome_get_bind, hfound, Bool.false_and, Bool.false_eq_true, if_false]
    exact Session.outcome_onFiles_bind fun _ ↦ Session.outcome_report _

/-- To save settings that have a text is to write it and to make the directories that lead to it. -/
theorem Config.save_eq {c : Config} {text : String} (h : c.render = .ok text) (path : Path) :
    c.save path = Session.onFiles (·.writeDeep path.route (Utf8.encode text.toList)) := by
  funext w
  unfold save Session.onFiles FileSystem.writeDeep
  rcases hm : w.files.makeParent path.route with ⟨fault | _, made⟩
  · simp only [bind, EStateM.bind, hm]
  · rcases hw : made.write path.route (Utf8.encode text.toList) with fault | written <;>
      simp only [bind, EStateM.bind, hm, h, hw, Session.ofExcept, pure, EStateM.pure]

theorem Command.Init.writesNew_execute {text : String} (h : Config.default.render = .ok text)
    (dir? : Option Path) (verbose : Bool) (w : World) :
    (execute ⟨dir?, false, verbose⟩).WritesNew w (target ⟨dir?, false, verbose⟩).route
      (Utf8.encode text.toList) := by
  unfold execute
  generalize hargs : (⟨dir?, false, verbose⟩ : Init) = args
  cases hvalid : args.validate w.files with
  | error failure => exact .inl (by simp [Session.outcome_get_bind, hvalid, Session.ofExcept])
  | ok _ =>
    have hnew : w.files.hasEntry args.target.route = false := by
      simp only [validate] at hvalid
      split at hvalid
      · cases hvalid
      · subst hargs
        simpa using hvalid
    refine .inr ⟨hnew, ?_⟩
    simp only [Session.outcome_get_bind, hvalid, Session.ofExcept, pure_bind, Config.save_eq h]
    exact Session.outcome_onFiles_bind fun _ ↦ by cases args.verbose <;> rfl

/-- Without force, a listing or a first configuration file is written over a file that was there
only by way of a directory that the write itself made. -/
theorem files_kept_without_force {w : World} (tree : w.files.Tree) :
    (∀ path text, (Output.write (some path) text false).Spares w path.route
      (Utf8.encode text.toList)) ∧
    ∃ config, Config.default.render = .ok config ∧ ∀ dir? verbose,
      (Command.Init.execute ⟨dir?, false, verbose⟩).Spares w
        (Command.Init.target ⟨dir?, false, verbose⟩).route (Utf8.encode config.toList) := by
  refine ⟨fun path text ↦ (Output.writesNew_writeFile path text w).spares tree, _, rfl, ?_⟩
  intro dir? verbose
  exact (Command.Init.writesNew_execute rfl dir? verbose w).spares tree

/-- A directory with a listing, a configuration file and a directory in it. -/
def World.furnished : World :=
  { files := ⟨[(["b"], .file (Utf8.encode "old".toList)),
      (["garnett.toml"], .file (Utf8.encode "old".toList)), (["d"], .directory)], []⟩
    input := []
    output := ""
    log := [] }

/-- With steps up from directories that are there, both writers go through and keep every file. -/
theorem files_kept_from_directory :
    World.furnished.files.Tree ∧
      ((Output.write (some ⟨"d/../e/f"⟩) "new" false).outcome World.furnished).1 = true ∧
      World.furnished.files.Keeps
        ((Output.write (some ⟨"d/../e/f"⟩) "new" false).outcome World.furnished).2 ∧
      ((Command.Init.execute ⟨some ⟨"d/../e"⟩, false, true⟩).outcome World.furnished).1 = true ∧
      World.furnished.files.Keeps
        ((Command.Init.execute ⟨some ⟨"d/../e"⟩, false, true⟩).outcome World.furnished).2 := by
  have tree : World.furnished.files.Tree := by decide
  obtain ⟨hwrite, config, -, hinit⟩ := files_kept_without_force tree
  exact ⟨tree, by decide, (hwrite _ _).2 (by decide), by decide, (hinit _ _).2 (by decide)⟩

/-- With a step up from a directory that is made first, both writers go through and replace a file
that was there. -/
theorem files_lost_without_force :
    World.furnished.files.Tree ∧
      ((Output.write (some ⟨"a/../b"⟩) "new" false).outcome World.furnished).1 = true ∧
      ¬ World.furnished.files.Keeps
        ((Output.write (some ⟨"a/../b"⟩) "new" false).outcome World.furnished).2 ∧
      ((Command.Init.execute ⟨some ⟨"c/.."⟩, false, false⟩).outcome World.furnished).1 = true ∧
      ¬ World.furnished.files.Keeps
        ((Command.Init.execute ⟨some ⟨"c/.."⟩, false, false⟩).outcome World.furnished).2 := by
  refine ⟨by decide, by decide, fun h ↦ ?_, by decide, fun h ↦ ?_⟩
  · exact absurd (h ["b"] _ rfl) (by decide)
  · exact absurd (h ["garnett.toml"] _ rfl) (by decide)

end RubyLex
