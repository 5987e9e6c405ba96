import RubyLex.Path

/-!
# File systems

A finite tree of files and directories under a root that is always there. A route is followed step
by step, and every step demands that the place it starts from is a directory.
-/

namespace RubyLex

/-- A place in the tree: the names that lead to it, the innermost first. -/
abbrev Location := List String

/-- What stands at a place. -/
inductive Entry where
  | file (content : List UInt8)
  | directory
deriving DecidableEq, Repr

/-- Why an operation on files fails. -/
inductive FileFault where
  | notFound
  | alreadyExists
  | notDirectory
  | isDirectory
deriving DecidableEq, Repr

def FileFault.message : FileFault → String
  | .notFound => "No such file or directory (os error 2)"
  | .alreadyExists => "File exists (os error 17)"
  | .notDirectory => "Not a directory (os error 20)"
  | .isDirectory => "Is a directory (os error 21)"

/-- The place that a step leads to. The root is its own parent. -/
def Step.apply (loc : Location) : Step → Location
  | .here => loc
  | .up => loc.tail
  | .down name => name :: loc

/-- A tree of entries and the directory from which relative routes start. -/
structure FileSystem where
  entries : List (Location × Entry)
  working : Location

namespace FileSystem

variable (fs : FileSystem)

/-- What stands at a place. -/
def get? (loc : Location) : Option Entry :=
  if loc = [] then some .directory else fs.entries.lookup loc

/-- Puts an entry at a place, over what stood there. -/
def put (loc : Location) (entry : Entry) : FileSystem :=
  { fs with entries := (loc, entry) :: fs.entries.filter (·.1 ≠ loc) }

@[simp] theorem get?_root : fs.get? [] = some .directory := rfl

theorem get?_put_self {loc : Location} (h : loc ≠ []) (entry : Entry) :
    (fs.put loc entry).get? loc = some entry := by
  simp [get?, put, h]

theorem lookup_filter_ne {loc other : Location} (h : other ≠ loc) :
    ∀ entries : List (Location × Entry),
      (entries.filter (·.1 ≠ loc)).lookup other = entries.lookup other
  | [] => rfl
  | (l, e) :: rest => by
    have ih := lookup_filter_ne h rest
    by_cases hl : l = loc
    · rw [List.filter_cons_of_neg (by simp [hl]), ih, List.lookup_cons, hl, beq_false_of_ne h]
    · rw [List.filter_cons_of_pos (by simp [hl]), List.lookup_cons, List.lookup_cons, ih]

theorem get?_put_of_ne {loc other : Location} (h : other ≠ loc) (entry : Entry) :
    (fs.put loc entry).get? other = fs.get? other := by
  unfold get? put
  split
  · rfl
  · rw [List.lookup_cons, beq_false_of_ne h]
    exact lookup_filter_ne h fs.entries

/-- Follows one step from a directory. -/
def enter (loc : Location) (s : Step) : Except FileFault Location :=
  match fs.get? loc with
  | some .directory => .ok (s.apply loc)
  | some (.file _) => .error .notDirectory
  | none => .error .notFound

/-- Follows steps from a place. The place they lead to need not exist. -/
def walk (loc : Location) : List Step → Except FileFault Location
  | [] => .ok loc
  | s :: rest =>
    match fs.enter loc s with
    | .ok next => walk next rest
    | .error fault => .error fault

/-- The place that a route leads to. -/
def locate (r : Route) : Except FileFault Location :=
  if r.isEmpty then .error .notFound
  else fs.walk (if r.absolute then [] else fs.working) r.steps

/-- What stands at the end of a route. -/
def stat (r : Route) : Except FileFault Entry :=
  match fs.locate r with
  | .error fault => .error fault
  | .ok loc =>
    match fs.get? loc with
    | none => .error .notFound
    | some .directory => .ok .directory
    | some (.file content) => if r.slashed then .error .notDirectory else .ok (.file content)

/-- Whether anything stands at the end of a route. -/
def hasEntry (r : Route) : Bool :=
  match fs.stat r with
  | .ok _ => true
  | .error _ => false

/-- Whether a directory stands at the end of a route. -/
def hasDirectory (r : Route) : Bool :=
  match fs.stat r with
  | .ok .directory => true
  | _ => false

/-- The content of the file at the end of a route. -/
def read (r : Route) : Except FileFault (List UInt8) :=
  match fs.stat r with
  | .ok (.file content) => .ok content
  | .ok .directory => .error .isDirectory
  | .error fault => .error fault

/-- Writes a file, new or over an old one, into a directory that exists. -/
def write (r : Route) (content : List UInt8) : Except FileFault FileSystem :=
  match fs.locate r with
  | .error fault => .error fault
  | .ok loc =>
    if r.slashed then .error .isDirectory
    else
      match fs.get? loc with
      | some .directory => .error .isDirectory
      | _ => .ok (fs.put loc (.file content))

/-- Makes a directory where nothing stands, in a directory that exists. -/
def makeDirectory (r : Route) : Except FileFault FileSystem :=
  match fs.locate r with
  | .error fault => .error fault
  | .ok loc =>
    match fs.get? loc with
    | some _ => .error .alreadyExists
    | none => .ok (fs.put loc .directory)

/-- Makes the directory at the end of a route and the missing ones on the way to it. The steps are
listed from the last to the first. What was made stays made if a later step fails. -/
def makeDirectories (absolute : Bool) : List Step → Except FileFault Unit × FileSystem
  | [] => (.ok (), fs)
  | s :: outer =>
    let r : Route := ⟨absolute, (s :: outer).reverse, false⟩
    match fs.makeDirectory r with
    | .ok made => (.ok (), made)
    | .error .notFound =>
      match makeDirectories absolute outer with
      | (.error fault, made) => (.error fault, made)
      | (.ok (), made) =>
        match made.makeDirectory r with
        | .ok made => (.ok (), made)
        | .error fault => if made.hasDirectory r then (.ok (), made) else (.error fault, made)
    | .error fault => if fs.hasDirectory r then (.ok (), fs) else (.error fault, fs)

/-- Makes the directory that is to hold the end of a route. -/
def makeParent (r : Route) : Except FileFault Unit × FileSystem :=
  match r.parent? with
  | none => (.ok (), fs)
  | some parent => fs.makeDirectories parent.absolute parent.steps.reverse

/-- Writes a file and makes the missing directories on the way to it. -/
def writeDeep (r : Route) (content : List UInt8) : Except FileFault Unit × FileSystem :=
  match fs.makeParent r with
  | (.error fault, made) => (.error fault, made)
  | (.ok (), made) =>
    match made.write r content with
    | .ok written => (.ok (), written)
    | .error fault => (.error fault, made)

end FileSystem

end RubyLex
