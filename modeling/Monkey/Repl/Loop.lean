import Monkey.Repl

/-! # The loop at work

A run takes one line after the other from the front of its input, up to and with the line
feed, and writes as it goes: the prompt before it reads, and then what the line asks for,
piece by piece. It ends at the end of the input with a line feed of its own, at a line that
asks to quit, and at a line that is no text.
-/

namespace Monkey.Repl

/-- What a run has written so far, and its session. -/
structure Console where
  written : String
  session : Session

/-- Whether a run goes on behind a line. -/
inductive Control
  | proceed
  | quit
  deriving DecidableEq, Repr

namespace Console

def write (c : Console) (text : String) : Console :=
  { c with written := c.written ++ text }

def writeLine (c : Console) (text : String) : Console :=
  c.write (text ++ "\n")

def writeFault (c : Console) (e : Fault) : Console :=
  c.writeLine ("Error: " ++ e.message)

/-- Writes the list of commands. -/
def writeHelp (c : Console) : Console :=
  ["Commands:",
    "  :quit, :exit  Exit the REPL",
    "  :reset        Discard all bindings",
    "  :ast <src>    Print the syntax tree of <src>",
    "  :help         Show this help"].foldl writeLine c

/-- Writes the outline of a source, or the fault in its place. -/
def writeOutline (c : Console) (source : String) : Console :=
  match Program.ofSource source with
  | .ok p => c.writeLine p.outline.render
  | .error e => c.writeFault e

/-- Executes a source in the session: its outline is written first if there is an echo. -/
def evaluate (depth : Nat) (config : Config) (c : Console) (source : String) : Option Console :=
  match Program.ofSource source with
  | .error e => some (c.writeFault e)
  | .ok p =>
    let c := if config.echo then c.writeLine p.outline.render else c
    (c.session.execute depth p).map fun
      | (.ok v, s) => { c with session := s }.writeLine v.render
      | (.error e, s) => { c with session := s }.writeFault e

/-- Does what a line without blanks at its ends asks for. -/
def handle (depth : Nat) (config : Config) (c : Console) (line : String) :
    Option (Control × Console) :=
  match Request.ofLine line with
  | .nothing => some (.proceed, c)
  | .quit => some (.quit, c)
  | .reset => some (.proceed, { c with session := c.session.reset }.writeLine "environment cleared")
  | .help => some (.proceed, c.writeHelp)
  | .outlineUsage => some (.proceed, c.writeLine "Usage: :ast <src>")
  | .outline source => some (.proceed, c.writeOutline source)
  | .execute source => (c.evaluate depth config source).map fun c => (.proceed, c)

end Console

/-- Runs on with what is left of the input. -/
def loop (depth : Nat) (config : Config) (c : Console) (input : List UInt8) : Option Transcript :=
  let c := c.write config.prompt
  let next := Text.readLine input
  if next.1 = [] then some ⟨(c.writeLine "").written, true⟩
  else
    match Text.decodeUtf8? next.1 with
    | none => some ⟨c.written, false⟩
    | some line => do
      match ← c.handle depth config (Text.trim line) with
      | (.quit, c) => return ⟨c.written, true⟩
      | (.proceed, c) => loop depth config c next.2
termination_by input.length
decreasing_by exact Text.length_readLine_lt ‹_›

/-- A run over an input, in a session without bindings. -/
def converse (depth : Nat) (config : Config) (input : List UInt8) : Option Transcript :=
  loop depth config ⟨"", .initial⟩ input

end Monkey.Repl
