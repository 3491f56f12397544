import Monkey.Evaluator.Rules
import Monkey.Parser.Entry

/-! # Sessions

A session runs programs one after the other over one environment. Executing a
program is all or nothing: its bindings are kept if it succeeds, and a fault
leaves the environment as it was. The other actions evaluate a program, a block
or a statement as it stands, without that protection.
-/

namespace Monkey

namespace Session

/-- A session without bindings whose first function has the identity `firstId`. -/
def fresh (firstId : Nat) : Session := ⟨.empty, firstId⟩

/-- A session without bindings. -/
def initial : Session := fresh 0

/-- The session without its bindings. -/
def reset (s : Session) : Session :=
  { s with env := .empty }

/-- Executes a program; a fault takes back every change to the environment. -/
def execute (depth : Nat) (p : Program) (s : Session) : Option (Except Fault Value × Session) :=
  ((Eval.program depth p).runIn s).map fun
    | (.ok v, t) => (.ok v, t)
    | (.error (.returned v), t) => (.ok v, t)
    | (.error (.fault e), t) => (.error e, { t with env := s.env })

/-- What can be done in a session. -/
inductive Action
  | execute (p : Program)
  /-- Evaluates a program; after a fault the scope of the program stays. -/
  | program (p : Program)
  | block (b : Block)
  | statement (s : Stmt)
  | lookup (name : String)
  | reset

/-- Performs an action. Only a reset has no outcome. -/
def perform (depth : Nat) (s : Session) : Action → Option (Option Outcome × Session)
  | .execute p => (s.execute depth p).map fun (r, t) => (some (r.mapError .fault), t)
  | .program p => ((Eval.program depth p).runIn s).map fun (r, t) => (some r, t)
  | .block b => ((Eval.block depth b).runIn s).map fun (r, t) => (some r, t)
  | .statement st => ((Eval.stmt depth st).runIn s).map fun (r, t) => (some r, t)
  | .lookup name => some (some ((s.env.get name).mapError .fault), s)
  | .reset => some (none, s.reset)

/-- Performs actions one after the other. -/
def performAll (depth : Nat) (s : Session) :
    List Action → Option (List (Option Outcome) × Session)
  | [] => some ([], s)
  | a :: as => do
    let (r, s) ← s.perform depth a
    let (rs, s) ← s.performAll depth as
    return (r :: rs, s)

/-- Executes the program that a text spells. -/
def executeSource (depth : Nat) (source : String) (s : Session) :
    Option (Except Fault Value × Session) :=
  match Program.ofSource source with
  | .ok p => s.execute depth p
  | .error e => some (.error e, s)

end Session

/-- The value of the program that a text spells, in a session of its own. -/
def interpret (depth : Nat) (source : String) : Option (Except Fault Value) :=
  (Session.initial.executeSource depth source).map (·.1)

end Monkey
