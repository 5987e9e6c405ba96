import RubyLex.Lexeme
import RubyLex.Listing
import RubyLex.Output
import RubyLex.Source

/-!
# Listing tokens as a command

The arguments are checked before anything is read, and everything is read before anything is
listed.
-/

namespace RubyLex.Command

/-- What a listing of tokens is asked for. -/
structure Tokenize where
  inputs : List Path
  /-- The file to write to instead of standard output. -/
  output? : Option Path
  /-- The format that was asked for. -/
  format? : Option String
  /-- The number of jobs that was asked for. -/
  jobs? : Option Nat
  /-- Whether an existing file may be replaced. -/
  force : Bool
  /-- The format that is configured. -/
  configuredFormat : String
  /-- The number of jobs that is configured. -/
  configuredJobs : Nat
deriving DecidableEq, Repr

namespace Tokenize

/-- What a listing of tokens comes to. -/
structure Result where
  text : String
  /-- The number of sources. -/
  sources : Nat
  /-- The number of tokens of all sources. -/
  tokens : Nat
  /-- The names of the sources that have no tokens. -/
  empty : List String
deriving DecidableEq, Repr

/-- The warnings of a result. -/
def Result.warnings (r : Result) : List String :=
  r.empty.map Log.Event.noTokensText

/-- The format and the number of jobs, or the first thing that is wrong with the arguments. -/
def validate (args : Tokenize) : Except Failure (Format × Nat) :=
  if args.inputs = [] then .error .noInputs
  else
    match Format.resolve args.format? args.configuredFormat with
    | .error failure => .error failure
    | .ok format =>
      let jobs := args.jobs?.getD args.configuredJobs
      if jobs = 0 then .error .zeroJobs else .ok (format, jobs)

/-- The tokens of a source under its name. -/
def listing (source : Source) : Listing :=
  ⟨source.name, tokenize source.content⟩

/-- What is reported while a source is cut into tokens. -/
def events (source : Source) : List Log.Event :=
  let lexemes := Lexeme.ofSource source.content
  (lexemes.filterMap Lexeme.unmatched?).map (fun (c, offset) => .unmatched c offset) ++
    [.cut source.content.utf8ByteSize lexemes.length]

/-- The result of some listings. -/
def result (format : Format) (listings : List Listing) : Result where
  text := Listing.render format listings
  sources := listings.length
  tokens := (listings.flatMap Listing.tokens).length
  empty := (listings.filter fun l => l.tokens.isEmpty).map Listing.name

/-- Reads and lists all sources, and writes nothing. -/
def execute (args : Tokenize) : Session Result := do
  let (format, jobs) ← Session.ofExcept args.validate
  Session.report [.startTokenize args.inputs.length format jobs]
  let sources ← Source.loadAll args.inputs
  Session.report (sources.flatMap events)
  return result format (sources.map listing)

/-- Reads and lists all sources, and writes the listing. -/
def run (args : Tokenize) : Session Unit := do
  let r ← args.execute
  Session.report (r.empty.map .noTokens)
  Output.write args.output? r.text args.force
  Session.report [.tokenized r.sources r.tokens]

end Tokenize

end RubyLex.Command
