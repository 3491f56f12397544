import Monkey.Command

/-! # The program

Reads the file that the command names, or runs the interactive loop line by
line on the standard streams, and writes the report.
-/

namespace Monkey

/-- The content of a file. -/
def readFile (file : String) : IO (Except ReadFault (List UInt8)) := do
  try
    return .ok (← IO.FS.readBinFile file).toList
  catch
    | .inappropriateType _ code _ =>
      return .error (if code = 21 then .isDirectory else .notDirectory)
    | _ => return .error .notFound

/-- The bytes of a stream up to and with the next line feed. -/
partial def readLine (input : IO.FS.Stream) : IO (List UInt8) := do
  match (← input.read 1).toList with
  | [] => return []
  | b :: _ =>
    if b = Text.lineFeed then return [b] else return b :: (← readLine input)

/-- The interactive loop on the standard streams; gives the code that the program ends with. -/
partial def interact (input output : IO.FS.Stream) (s : Session) : IO UInt32 := do
  output.putStr Repl.Config.standard.prompt
  output.flush
  let line ← readLine input
  if line.isEmpty then
    output.putStrLn ""
    return 0
  match Repl.replyTo Command.depthLimit .standard s line with
  | some (.text reply, s) =>
    output.putStr reply
    interact input output s
  | some (.unreadable, _) =>
    IO.eprint Command.unreadableLine
    return 1
  | some (.stop, _) => return 0
  | none => return 1

end Monkey

open Monkey in
def main (args : List String) : IO UInt32 := do
  let command := Command.ofArguments args
  match command with
  | .interactive =>
    IO.print Command.banner
    interact (← IO.getStdin) (← IO.getStdout) .initial
  | _ =>
    let bytes ← match command.file? with
      | some file => readFile file
      | none => pure (.ok [])
    match command.report Command.depthLimit (fun _ => bytes) [] with
    | some r =>
      IO.print r.out
      IO.eprint r.err
      return r.code.toUInt32
    | none => return 1
