import Monkey.Json.Printer
import Monkey.Repl
import Monkey.Token.Json

/-! # The command line

A command is chosen by the arguments alone: an interactive run, or the value,
the outline or the tokens of a file. Its report is what it writes and the code
it ends with: 0 for success, 1 for a failure and 2 for wrong arguments.
-/

namespace Monkey

/-- The version of the program. -/
def version : String := "0.1.0"

/-- Why an input could not be read as text. -/
inductive ReadFault
  | notFound
  | isDirectory
  | notDirectory
  | notText
  deriving DecidableEq, Repr

/-- The text of a failure to read. -/
def ReadFault.message : ReadFault → String
  | notFound => "No such file or directory (os error 2)"
  | isDirectory => "Is a directory (os error 21)"
  | notDirectory => "Not a directory (os error 20)"
  | notText => "stream did not contain valid UTF-8"

/-- What the arguments ask for. -/
inductive Command
  /-- A run of the interactive loop. -/
  | interactive
  | evaluate (file : String)
  | outline (file : String)
  | tokens (file : String)
  /-- How to use the command line. -/
  | usage
  deriving DecidableEq, Repr

namespace Command

/-- The command of a list of arguments. A file to evaluate does not begin with a dash. -/
def ofArguments : List String → Command
  | [] => interactive
  | ["--ast", file] => outline file
  | ["--tokens", file] => tokens file
  | [file] => if file.toList.head? = some '-' then usage else evaluate file
  | _ => usage

/-- The file that a command reads. -/
def file? : Command → Option String
  | evaluate file | outline file | tokens file => some file
  | interactive | usage => none

/-- How to use the command line. -/
def usageText : String :=
  "Usage: monkey [--ast | --tokens] [FILE]\n" ++
  "\n" ++
  "With no arguments, starts an interactive session.\n" ++
  "\n" ++
  "Options:\n" ++
  "  --ast <FILE>     Print the syntax tree of FILE\n" ++
  "  --tokens <FILE>  Print the tokens of FILE as JSON\n"

/-- What an interactive run begins with. -/
def banner : String :=
  "Monkey " ++ version ++ " (type :help for commands)\n"

/-- What a command writes, and the code it ends with. -/
structure Report where
  code : Nat
  out : String
  err : String
  deriving DecidableEq, Repr

namespace Report

/-- A success with an output. -/
def success (out : String) : Report := ⟨0, out, ""⟩

/-- A failure because of a fault in the program. -/
def failure (e : Fault) : Report := ⟨1, "", Repl.faultLine e⟩

/-- The text of a failure to read, with what failed because of it. -/
def unreadable (context : String) (cause : ReadFault) : String :=
  "Error: " ++ context ++ "\n\nCaused by:\n    " ++ cause.message ++ "\n"

end Report

/-- The report on a file, from its text or from the failure to read it. -/
def onSource (file : String) (bytes : Except ReadFault (List UInt8))
    (report : String → Option Report) : Option Report :=
  let source := bytes.bind fun bs =>
    match Text.decodeUtf8? bs with
    | some s => .ok s
    | none => .error .notText
  match source with
  | .ok s => report s
  | .error e => some ⟨1, "", Report.unreadable ("failed to read source file " ++ file) e⟩

/-- The value of a source. -/
def evaluation (depth : Nat) (source : String) : Option Report :=
  (interpret depth source).map fun
    | .ok v => .success (v.render ++ "\n")
    | .error e => .failure e

/-- The outline of a source. -/
def outlined (source : String) : Report :=
  match Program.ofSource source with
  | .ok p => .success (p.outline.render ++ "\n")
  | .error e => .failure e

/-- The tokens of a source as a JSON text. -/
def tokenText (source : String) : String :=
  (Json.arr ((tokenize source).map Token.toJson)).pretty 0 ++ "\n"

/-- What an interactive run reports on a line that is no text. -/
def unreadableLine : String :=
  Report.unreadable "REPL I/O failed" .notText

/-- The report of an interactive run. -/
def interaction (t : Repl.Transcript) : Report :=
  if t.readable then .success (banner ++ t.output)
  else ⟨1, banner ++ t.output, unreadableLine⟩

/-- The report of a command, given the content of files and the standard input. -/
def report (depth : Nat) (read : String → Except ReadFault (List UInt8)) (input : List UInt8) :
    Command → Option Report
  | interactive => (Repl.transcript depth .standard input).map interaction
  | evaluate file => onSource file (read file) (evaluation depth)
  | outline file => onSource file (read file) fun s => some (outlined s)
  | tokens file => onSource file (read file) fun s => some (.success (tokenText s))
  | usage => some ⟨2, "", usageText⟩

/-- The depth of evaluation that a command allows. -/
def depthLimit : Nat := 1000000000

end Command

end Monkey
