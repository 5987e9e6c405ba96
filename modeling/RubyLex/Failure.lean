import RubyLex.FileSystem
import RubyLex.Text.Utf8

/-!
# Failures

Everything that can end a command early, by cause. The wording is in one place, and every message
starts with the heading of its cause's category.
-/

namespace RubyLex

/-- The broad kinds of failure. -/
inductive Failure.Category where
  | config
  | file
  | validation
  | execution
  | io
  | json
deriving DecidableEq, Repr

def Failure.Category.heading : Failure.Category → String
  | .config => "Configuration error"
  | .file => "File operation failed"
  | .validation => "Validation error"
  | .execution => "Command execution failed"
  | .io => "IO error"
  | .json => "JSON error"

/-- A category's heading before some detail. -/
def Failure.Category.describe (category : Failure.Category) (detail : String) : String :=
  category.heading ++ ": " ++ detail

/-- Why a command failed. -/
inductive Failure where
  | noInputs
  | unknownFormat (name : String)
  | invalidConfiguredFormat (name : String)
  | zeroJobs
  | inputMissing (path : Path)
  | inputNotFile (path : Path)
  | inputNotUtf8 (name : String) (fault : Utf8.Fault)
  | outputExists (path : Path)
  | targetNotDirectory (path : Path)
  | configExists (path : Path)
  | configMissing (path : Path)
  | configNotUtf8
  | configMalformed
  | jobsOutOfRange
  | files (fault : FileFault)
deriving DecidableEq, Repr

namespace Failure

def category : Failure → Category
  | .noInputs | .unknownFormat _ | .zeroJobs | .inputMissing _ | .inputNotFile _ | .outputExists _
  | .targetNotDirectory _ | .configExists _ => .validation
  | .invalidConfiguredFormat _ | .configMissing _ | .configMalformed | .jobsOutOfRange => .config
  | .inputNotUtf8 _ _ => .file
  | .configNotUtf8 | .files _ => .io

def detail : Failure → String
  | .noInputs => "No input files specified"
  | .unknownFormat name => "Unknown format: " ++ name
  | .invalidConfiguredFormat name => "Invalid format in configuration: " ++ name
  | .zeroJobs => "Job count must be at least 1"
  | .inputMissing path => "Input path does not exist: " ++ path.text
  | .inputNotFile path => "Input path is not a file: " ++ path.text
  | .inputNotUtf8 name fault => "Input is not valid UTF-8: " ++ name ++ " (" ++ fault.message ++ ")"
  | .outputExists path => "Output file already exists (use --force): " ++ path.text
  | .targetNotDirectory path => "Target path is not a directory: " ++ path.text
  | .configExists path => "Configuration file already exists (use --force): " ++ path.text
  | .configMissing path => "Configuration file not found: " ++ path.text
  | .configNotUtf8 => "stream did not contain valid UTF-8"
  | .configMalformed => "Failed to parse configuration"
  | .jobsOutOfRange => "Failed to serialize configuration: out-of-range value for u64 type"
  | .files fault => fault.message

def message (f : Failure) : String :=
  f.category.describe f.detail

end Failure

end RubyLex
