import RubyLex.FileSystem

/-!
# What operations on files leave alone

To make directories only adds to a tree: what stood anywhere still stands there (`Extends`), and a
route that could be followed leads where it led.  To write a file changes one place, and that place
can be told from the steps of the route alone (`place`), since a step up goes to the parent of the
place it starts from.  `writeDeep_cases` puts the two together.
-/

namespace RubyLex.FileSystem

variable {fs made other : FileSystem} {loc dest : Location} {r : Route} {content : List UInt8}

/-- Steps that can be taken in a tree can be taken in every tree with its directories. -/
theorem walk_of_directories
    (hdir : ∀ {loc}, fs.get? loc = some .directory → made.get? loc = some .directory)
    {steps : List Step} (hw : fs.walk loc steps = .ok dest) : made.walk loc steps = .ok dest := by
  induction steps generalizing loc with
  | nil => exact hw
  | cons s rest ih =>
    simp only [walk, enter] at hw ⊢
    -- only a directory can be left, and it is one in both trees
    rcases hloc : fs.get? loc with _ | ⟨_ | _⟩ <;> simp only [hloc, reduceCtorEq] at hw
    simpa only [hdir hloc] using ih hw

theorem locate_of_directories (hworking : made.working = fs.working)
    (hdir : ∀ {loc}, fs.get? loc = some .directory → made.get? loc = some .directory)
    (hr : fs.locate r = .ok loc) : made.locate r = .ok loc := by
  unfold locate at hr ⊢
  by_cases he : r.isEmpty
  · simp [he] at hr
  · rw [if_neg he] at hr ⊢
    rw [hworking]
    exact walk_of_directories hdir hr

/-- What stands in the first tree stands in the second, and relative routes start at one place. -/
structure Extends (fs made : FileSystem) : Prop where
  working : made.working = fs.working
  get? : ∀ {loc entry}, fs.get? loc = some entry → made.get? loc = some entry

namespace Extends

theorem refl (fs : FileSystem) : fs.Extends fs :=
  ⟨rfl, id⟩

theorem trans (h : fs.Extends made) (h' : made.Extends other) : fs.Extends other :=
  ⟨h'.working.trans h.working, fun hloc ↦ h'.get? (h.get? hloc)⟩

theorem put (h : fs.get? loc = none) (entry : Entry) : fs.Extends (fs.put loc entry) where
  working := rfl
  get? := by
    intro l e hl
    have hne : l ≠ loc := by rintro rfl; simp [h] at hl
    rwa [get?_put_of_ne fs hne]

theorem locate (h : fs.Extends made) (hr : fs.locate r = .ok loc) : made.locate r = .ok loc :=
  locate_of_directories h.working h.get? hr

end Extends

/-! ## Where a route leads -/

/-- The place that a route leads to once every step of it can be taken. -/
def place (fs : FileSystem) (r : Route) : Location :=
  r.steps.foldl Step.apply (if r.absolute then [] else fs.working)

theorem eq_foldl_of_walk {steps : List Step} (h : fs.walk loc steps = .ok dest) :
    dest = steps.foldl Step.apply loc := by
  induction steps generalizing loc with
  | nil => simpa [walk, eq_comm] using h
  | cons s rest ih =>
    simp only [walk, enter] at h
    rcases hloc : fs.get? loc with _ | ⟨_ | _⟩ <;> simp only [hloc, reduceCtorEq] at h
    exact ih h

theorem eq_place_of_locate (h : fs.locate r = .ok loc) : loc = fs.place r := by
  unfold locate at h
  split at h
  · cases h
  · exact eq_foldl_of_walk h

theorem Extends.place (h : fs.Extends made) (r : Route) : made.place r = fs.place r := by
  rw [FileSystem.place, FileSystem.place, h.working]

/-- A route on which nothing is found leads, if it can be followed, to a place that is free, unless
it ends in a slash. -/
theorem get?_of_hasEntry (h : fs.hasEntry r = false) (hr : fs.locate r = .ok loc)
    (hs : r.slashed = false) : fs.get? loc = none := by
  unfold hasEntry stat at h
  rw [hr] at h
  rcases hloc : fs.get? loc with _ | ⟨_ | _⟩ <;> simp_all

/-! ## Operations -/

theorem extends_makeDirectory (h : fs.makeDirectory r = .ok made) : fs.Extends made := by
  unfold makeDirectory at h
  split at h
  · cases h
  · split at h
    · cases h
    · next hloc =>
      obtain rfl := Except.ok.inj h
      exact .put hloc .directory

theorem extends_makeDirectories (fs : FileSystem) (absolute : Bool) (steps : List Step) :
    fs.Extends (fs.makeDirectories absolute steps).2 := by
  -- a call ends after the first attempt, after the outer directories, or after the second attempt
  fun_induction makeDirectories fs absolute steps with
  | case1 => exact .refl fs
  | case2 s outer r made h => exact extends_makeDirectory h
  | case3 s outer r h fault made hm ih => simpa [hm] using ih
  | case4 s outer r h made hm made' h' ih =>
    exact .trans (by simpa [hm] using ih) (extends_makeDirectory h')
  | case5 => simp_all
  | case6 => simp_all
  | case7 => exact .refl fs
  | case8 => exact .refl fs

theorem extends_makeParent (fs : FileSystem) (r : Route) : fs.Extends (fs.makeParent r).2 := by
  unfold makeParent
  split
  · exact .refl fs
  · exact extends_makeDirectories ..

/-- A write that goes through changes one place, where no directory stands. -/
theorem eq_put_of_write (h : fs.write r content = .ok other) :
    fs.locate r = .ok (fs.place r) ∧ r.slashed = false ∧
      fs.get? (fs.place r) ≠ some .directory ∧ other = fs.put (fs.place r) (.file content) := by
  unfold write at h
  rcases hr : fs.locate r with fault | loc <;> simp only [hr, reduceCtorEq] at h
  obtain rfl := eq_place_of_locate hr
  split at h
  · cases h
  · next hs =>
    split at h
    · cases h
    · next hd => exact ⟨rfl, by simpa using hs, hd, (Except.ok.inj h).symm⟩

/-- A file is written after directories were made, or else only directories were made. -/
theorem writeDeep_cases (fs : FileSystem) (r : Route) (content : List UInt8) :
    ∃ made : FileSystem, made = (fs.makeParent r).2 ∧ fs.Extends made ∧
      ((∃ fault, fs.writeDeep r content = (.error fault, made)) ∨
        made.locate r = .ok (fs.place r) ∧ r.slashed = false ∧
          made.get? (fs.place r) ≠ some .directory ∧
          fs.writeDeep r content = (.ok (), made.put (fs.place r) (.file content))) := by
  rcases hm : fs.makeParent r with ⟨result, made⟩
  have hext : fs.Extends made := by simpa [hm] using extends_makeParent fs r
  refine ⟨made, rfl, hext, ?_⟩
  rcases result with fault | _
  · exact .inl ⟨fault, by simp [writeDeep, hm]⟩
  · rcases hw : made.write r content with fault | written
    · exact .inl ⟨fault, by simp [writeDeep, hm, hw]⟩
    · obtain ⟨hr, hs, hd, rfl⟩ := eq_put_of_write hw
      rw [hext.place] at hr hd hw
      exact .inr ⟨hr, hs, hd, by simp [writeDeep, hm, hw]⟩

end RubyLex.FileSystem
