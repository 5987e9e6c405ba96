import RubyLex.Proofs.FailedRun
import RubyLex.Proofs.TomlLines
import RubyLex.Proofs.Utf8

/-!
# Settings that are saved and read back

A file is found where it was written, since the write changed a place through which no route leads
(`stat_of_writeDeep`).  The text of settings is read back as these settings (`parse?_render`): it is
a document of four lines, and each is read as the statement it was written for.  Settings without a
text are not saved, and then only directories are made.
-/

namespace RubyLex

namespace FileSystem

variable {fs after : FileSystem} {loc changed : Location} {r : Route} {content : List UInt8}

/-- A change to a place that is no directory leaves all routes as they are. -/
theorem locate_put (hchanged : fs.get? changed ≠ some .directory) (entry : Entry)
    (hr : fs.locate r = .ok loc) : (fs.put changed entry).locate r = .ok loc := by
  have hworking : (fs.put changed entry).working = fs.working := rfl
  refine locate_of_directories hworking (fun {dir} hdir ↦ ?_) hr
  have hne : dir ≠ changed := by
    rintro rfl
    exact hchanged hdir
  rwa [get?_put_of_ne fs hne]

/-- What was written is what then stands at the end of the route. -/
theorem stat_of_writeDeep (h : fs.writeDeep r content = (.ok (), after)) :
    after.stat r = .ok (.file content) := by
  obtain ⟨made, -, -, ⟨fault, hw⟩ | ⟨hr, hs, hd, hw⟩⟩ := fs.writeDeep_cases r content
  · rw [hw] at h
    cases h
  · obtain rfl : made.put (fs.place r) (.file content) = after :=
      congrArg Prod.snd (hw.symm.trans h)
    have hroot : fs.place r ≠ [] := by
      intro hroot
      simp [hroot] at hd
    simp [stat, locate_put hd _ hr, get?_put_self made hroot, hs]

end FileSystem

namespace Config

variable {c : Config} {text : String} {path : Path} {failure : Failure}

open Toml

theorem render_cases (c : Config) :
    2 ^ 63 ≤ c.jobs ∧ c.render = .error .jobsOutOfRange ∨
      c.jobs < 2 ^ 63 ∧ ∃ text, c.render = .ok text := by
  unfold render
  by_cases hjobs : c.jobs < integerBound
  · exact .inr ⟨hjobs, _, if_pos hjobs⟩
  · exact .inl ⟨Nat.le_of_not_lt hjobs, if_neg hjobs⟩

/-- The text of settings is four lines, with an empty one before the table. -/
theorem toList_render (h : c.render = .ok text) :
    c.jobs < integerBound ∧
    text.toList =
      "verbose".toList ++ ' ' :: '=' :: ' ' :: ((if c.verbose then "true" else "false").toList ++
        '\n' :: '\n' :: '[' :: ("tokenize".toList ++ ']' :: '\n' ::
        ("format".toList ++ ' ' :: '=' :: ' ' :: ((writeString c.format).toList ++ '\n' ::
        ("jobs".toList ++ ' ' :: '=' :: ' ' :: (Nat.toDigits 10 c.jobs ++ ['\n'])))))) := by
  unfold render at h
  split at h
  · next hjobs =>
    obtain rfl := Except.ok.inj h
    refine ⟨hjobs, ?_⟩
    simp only [String.toList_append, List.append_assoc, Nat.toString_eq_repr, Nat.toList_repr]
    rfl
  · cases h

/-- The text of settings is read as these settings. -/
theorem parse?_render (h : c.render = .ok text) : parse? text = some c := by
  obtain ⟨hjobs, htext⟩ := toList_render h
  have hmark : skipMark text.toList = text.toList := by
    rw [htext]
    rfl
  obtain ⟨bound, hbound⟩ : ∃ bound, text.toList.length = bound + 5 := by
    refine ⟨text.toList.length - 5, ?_⟩
    simp [htext]
  have hread : statements? text.toList.length text.toList =
      some [.assign [] "verbose" (.boolean c.verbose), .openTable [] "tokenize",
        .assign [] "format" (.string c.format), .assign [] "jobs" (.integer c.jobs)] := by
    have hverbose : Bare "verbose".toList := ⟨by simp, rfl⟩
    have htokenize : Bare "tokenize".toList := ⟨by simp, rfl⟩
    have hformat : Bare "format".toList := ⟨by simp, rfl⟩
    have hname : Bare "jobs".toList := ⟨by simp, rfl⟩
    rw [hbound, htext, statements?_assign hverbose (readsAs_boolean c.verbose), statements?_blank,
      statements?_openTable htokenize, statements?_assign hformat (readsAs_string c.format),
      statements?_assign hname (readsAs_integer hjobs)]
    cases bound <;> simp [statements?]
  have hfields : Toml.parse? text =
      some [("verbose", .boolean c.verbose), ("tokenize", .table .header
        [("format", .string c.format), ("jobs", .integer c.jobs)])] := by
    rw [Toml.parse?, hmark, hread]
    rfl
  have hsettings : parse? text =
      ofNodes? c.verbose (some (.string c.format)) (some (.integer c.jobs)) := by
    rw [parse?, hfields]
    rfl
  simp [hsettings, ofNodes?, setting?, string?, natural?]

/-- A file with the text of settings is loaded as these settings. -/
theorem loadFile_of_stat {files : FileSystem} (h : c.render = .ok text)
    (hstat : files.stat path.route = .ok (.file (Utf8.encode text.toList))) :
    loadFile files path = .ok c := by
  simp [loadFile, FileSystem.hasEntry, FileSystem.read, hstat, Utf8.decode_encode, parse?_render h]

/-- Settings without a text are not saved, whether the directories for them can be made or not. -/
theorem run_save_of_error (h : c.render = .error failure) (path : Path) (w : World) :
    ∃ failure, (c.save path).run w =
      .error failure { w with files := (w.files.makeParent path.route).2 } := by
  rcases hm : w.files.makeParent path.route with ⟨fault | _, made⟩
  · refine ⟨.files fault, ?_⟩
    simp only [save, EStateM.run, bind, EStateM.bind, Session.onFiles, hm]
  · refine ⟨failure, ?_⟩
    simp only [save, EStateM.run, bind, EStateM.bind, Session.onFiles, hm, h, Session.ofExcept]
    rfl

/-- Settings that are saved are the settings that are then loaded.  Above 63 bits for the number of
sources nothing is saved, and no file is changed; below, only the files can keep settings from being
saved. -/
theorem load_of_save (c : Config) (path : Path) (w : World) :
    (∀ after, (c.save path).run w = .ok () after → loadFile after.files path = .ok c) ∧
    (2 ^ 63 ≤ c.jobs → ∃ failure after, (c.save path).run w = .error failure after ∧
      w.files.AddsDirectories after.files (w.files.OnParentWay path.route)) ∧
    (c.jobs < 2 ^ 63 → ∀ failure after, (c.save path).run w = .error failure after →
      ∃ fault, failure = .files fault) := by
  obtain ⟨hjobs, hrender⟩ | ⟨hjobs, text, hrender⟩ := c.render_cases
  · obtain ⟨failure, hrun⟩ := run_save_of_error hrender path w
    refine ⟨fun after hafter ↦ ?_, fun _ ↦ ⟨failure, _, hrun, ?_⟩, fun h ↦ ?_⟩
    · rw [hrun] at hafter
      cases hafter
    · exact w.files.addsDirectories_makeParent path.route
    · omega
  · rw [save_eq hrender path]
    obtain ⟨files, hwrite, hok⟩ | ⟨fault, files, -, herror⟩ := Session.run_onFiles_cases
      (·.writeDeep path.route (Utf8.encode text.toList)) w
    · rw [hok]
      refine ⟨fun after hafter ↦ ?_, fun h ↦ absurd hjobs (by omega), fun _ _ _ h ↦ nomatch h⟩
      obtain ⟨-, rfl⟩ := EStateM.Result.ok.inj hafter
      exact loadFile_of_stat hrender (FileSystem.stat_of_writeDeep hwrite)
    · rw [herror]
      refine ⟨fun _ h ↦ (nomatch h), fun h ↦ absurd hjobs (by omega), fun _ failure after h ↦ ?_⟩
      obtain ⟨rfl, -⟩ := EStateM.Result.error.inj h
      exact ⟨fault, rfl⟩

/-- A name with runs of quotes, a line break and a backslash is read back from a directory that was
made for it, and a number of sources of 64 bits is refused. -/
theorem load_of_save_awkward :
    let w : World := ⟨⟨[], []⟩, [], "", []⟩
    let path : Path := ⟨"conf/garnett.toml"⟩
    let awkward : Config := ⟨true, "a\"\"\"b'''\r\n\\", 7⟩
    (∃ after, (awkward.save path).run w = .ok () after ∧
      loadFile after.files path = .ok awkward) ∧
    ∃ failure after, (save ⟨true, "a", 2 ^ 63⟩ path).run w = .error failure after ∧
      w.files.AddsDirectories after.files (w.files.OnParentWay path.route) := by
  intro w path awkward
  have hok : ((awkward.save path).outcome w).1 = true := by decide +kernel
  refine ⟨?_, (load_of_save ⟨true, "a", 2 ^ 63⟩ path w).2.1 (Nat.le_refl _)⟩
  rcases hrun : (awkward.save path).run w with ⟨_, after⟩ | ⟨failure, after⟩
  · exact ⟨after, rfl, (load_of_save awkward path w).1 after hrun⟩
  · simp [Session.outcome, hrun] at hok

end Config

end RubyLex
