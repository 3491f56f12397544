import Monkey.Program.Outline
import Monkey.Session
import Monkey.Text.Blank
import Monkey.Text.Lines

/-! # The interactive loop

Every line of the input is a request: a command, which begins with a colon, or
a program, which is executed in a session that lasts for the whole run. A
transcript is everything that is written: before each line the prompt, and
after it the reply.
-/

namespace Monkey.Repl

/-- How a run looks. -/
structure Config where
  /-- What is written before a line is read. -/
  prompt : String
  /-- Whether the outline of every program is written before its value. -/
  echo : Bool
  deriving DecidableEq, Repr

/-- The prompt is `>> `, and no outlines are written. -/
def Config.standard : Config := ⟨">> ", false⟩

/-- What a line asks for. -/
inductive Request
  | nothing
  | quit
  | reset
  | help
  /-- How to ask for an outline. -/
  | outlineUsage
  | outline (source : String)
  | execute (source : String)
  deriving DecidableEq, Repr

/-- The request of a line without blanks at its ends. -/
def Request.ofLine (line : String) : Request :=
  match line with
  | "" => nothing
  | ":quit" | ":exit" => quit
  | ":reset" => reset
  | ":help" => help
  | ":ast" => outlineUsage
  | _ =>
    match line.toList with
    | ':' :: 'a' :: 's' :: 't' :: ' ' :: source => outline (String.ofList source)
    | _ => execute line

/-- What follows a line: a text, or the end of the run. -/
inductive Reply
  | text (output : String)
  | stop
  /-- The run ends because the line is no text. -/
  | unreadable
  deriving DecidableEq, Repr

/-- The list of commands. -/
def helpText : String :=
  "Commands:\n" ++
  "  :quit, :exit  Exit the REPL\n" ++
  "  :reset        Discard all bindings\n" ++
  "  :ast <src>    Print the syntax tree of <src>\n" ++
  "  :help         Show this help\n"

/-- The line that reports a fault. -/
def faultLine (e : Fault) : String :=
  "Error: " ++ e.message ++ "\n"

/-- The line of a value, or of the fault in its place. -/
def resultLine : Except Fault Value → String
  | .ok v => v.render ++ "\n"
  | .error e => faultLine e

/-- The outline of a source, or the fault in its place. -/
def outlineText (source : String) : String :=
  match Program.ofSource source with
  | .ok p => p.outline.render ++ "\n"
  | .error e => faultLine e

/-- Executes a line as a program. -/
def execute (depth : Nat) (config : Config) (s : Session) (source : String) :
    Option (String × Session) :=
  match Program.ofSource source with
  | .ok p =>
    let echoed := if config.echo then p.outline.render ++ "\n" else ""
    (s.execute depth p).map fun (r, t) => (echoed ++ resultLine r, t)
  | .error e => some (faultLine e, s)

/-- The reply to a request, and the session after it. -/
def reply (depth : Nat) (config : Config) (s : Session) : Request → Option (Reply × Session)
  | .nothing => some (.text "", s)
  | .quit => some (.stop, s)
  | .reset => some (.text "environment cleared\n", s.reset)
  | .help => some (.text helpText, s)
  | .outlineUsage => some (.text "Usage: :ast <src>\n", s)
  | .outline source => some (.text (outlineText source), s)
  | .execute source => (execute depth config s source).map fun (t, s) => (.text t, s)

/-- The reply to a line of bytes, which is trimmed of blanks first. -/
def replyTo (depth : Nat) (config : Config) (s : Session) (bytes : List UInt8) :
    Option (Reply × Session) :=
  match Text.decodeUtf8? bytes with
  | some line => reply depth config s (.ofLine (Text.trim line))
  | none => some (.unreadable, s)

/-- How a run went. -/
structure Transcript where
  /-- Everything that was written. -/
  output : String
  /-- Whether every line that was read is text in UTF-8. -/
  readable : Bool
  deriving DecidableEq, Repr

/-- The transcript with a text in front of its output. -/
def Transcript.after (t : Transcript) (output : String) : Transcript :=
  { t with output := output ++ t.output }

/-- A run over lines of bytes. It ends with them, at a line that asks to quit or is no text. -/
def run (depth : Nat) (config : Config) (s : Session) : List (List UInt8) → Option Transcript
  | [] => some ⟨config.prompt ++ "\n", true⟩
  | bytes :: rest => do
    match ← replyTo depth config s bytes with
    | (.stop, _) => return ⟨config.prompt, true⟩
    | (.unreadable, _) => return ⟨config.prompt, false⟩
    | (.text output, s) => return (← run depth config s rest).after (config.prompt ++ output)

/-- The transcript of a run over an input, in a session without bindings. -/
def transcript (depth : Nat) (config : Config) (input : List UInt8) : Option Transcript :=
  run depth config .initial (Text.lines input)

end Monkey.Repl
