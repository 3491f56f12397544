import Monkey.Proofs.Text.Lines
import Monkey.Proofs.Text.Utf8
import Monkey.Repl.Loop

/-! # The loop writes the transcript

A run that reads its input from the front and writes piece by piece has the transcript of
a run over the lines of the input: what is written for a line is its reply, and the line
feed that stands behind a line as it is read is trimmed with other blanks.
-/

namespace Monkey.Repl

variable {depth : Nat} {config : Config} {s t : Session} {line source : String}
  {bytes : List UInt8} {ls ls' : List (List UInt8)}

/-! ## Replies -/

/-- Whether a text is empty or ends with a line feed. -/
def Ended (text : String) : Prop :=
  text = "" ∨ ∃ l, text = l ++ "\n"

theorem ended_line (l : String) : Ended (l ++ "\n") :=
  .inr ⟨l, rfl⟩

theorem ended_append_line (a l : String) : Ended (a ++ (l ++ "\n")) :=
  .inr ⟨a ++ l, String.append_assoc.symm⟩

theorem ended_helpText : Ended helpText := by
  have hlast : "  :help         Show this help\n" = "  :help         Show this help" ++ "\n" := rfl
  rw [helpText, hlast]
  exact ended_append_line _ _

theorem ended_outlineText (source : String) : Ended (outlineText source) := by
  unfold outlineText
  split
  · exact ended_line _
  · exact ended_line _

theorem ended_execute {output : String}
    (h : execute depth config s source = some (output, t)) : Ended output := by
  unfold execute at h
  split at h
  · obtain ⟨⟨r, t⟩, -, h⟩ := Option.map_eq_some_iff.1 h
    cases h
    cases r <;> exact ended_append_line _ _
  · cases h
    exact ended_line _

/-- A request to quit is answered by the end, and any other by lines. -/
theorem reply_cases {request : Request} {r : Reply}
    (h : reply depth config s request = some (r, t)) :
    (request = .quit ∧ r = .stop) ∨
      (request ≠ .quit ∧ ∃ output, r = .text output ∧ Ended output) := by
  cases request with
  | quit =>
    cases h
    exact .inl ⟨rfl, rfl⟩
  | execute source =>
    obtain ⟨⟨output, t⟩, hexecute, h⟩ := Option.map_eq_some_iff.1 h
    cases h
    exact .inr ⟨nofun, output, rfl, ended_execute hexecute⟩
  | nothing =>
    cases h
    exact .inr ⟨nofun, _, rfl, .inl rfl⟩
  | outline source =>
    cases h
    exact .inr ⟨nofun, _, rfl, ended_outlineText source⟩
  | reset =>
    cases h
    exact .inr ⟨nofun, _, rfl, ended_line "environment cleared"⟩
  | help =>
    cases h
    exact .inr ⟨nofun, _, rfl, ended_helpText⟩
  | outlineUsage =>
    cases h
    exact .inr ⟨nofun, _, rfl, ended_line "Usage: :ast <src>"⟩

theorem quit_iff : Request.ofLine line = .quit ↔ line ∈ [":quit", ":exit"] := by
  unfold Request.ofLine
  split
  case h_7 hquit hexit _ _ _ =>
    have hother : line ∉ [":quit", ":exit"] := by
      simp only [List.mem_cons, List.not_mem_nil, or_false, not_or]
      exact ⟨hquit, hexit⟩
    refine iff_of_false ?_ hother
    split <;> exact nofun
  all_goals decide

/-! ## The loop writes the transcript -/

namespace Console

/-- What is written and kept behind a reply. -/
def after (c : Console) : Reply × Session → Control × Console
  | (.text output, s) => (.proceed, ⟨c.written ++ output, s⟩)
  | (.stop, s) | (.unreadable, s) => (.quit, ⟨c.written, s⟩)

theorem writeHelp_eq (c : Console) : c.writeHelp = c.write helpText := by
  simp [writeHelp, writeLine, write, helpText, String.append_assoc]

theorem writeOutline_eq (c : Console) (source : String) :
    c.writeOutline source = c.write (outlineText source) := by
  unfold writeOutline outlineText
  cases Program.ofSource source <;> rfl

theorem evaluate_eq (depth : Nat) (config : Config) (c : Console) (source : String) :
    c.evaluate depth config source =
      (execute depth config c.session source).map fun (output, s) => ⟨c.written ++ output, s⟩ := by
  unfold evaluate execute
  cases Program.ofSource source with
  | error e => rfl
  | ok p =>
    cases config.echo <;>
    · simp only [if_true, if_false, Bool.false_eq_true, Option.map_map]
      refine Option.map_congr fun o _ => ?_
      obtain ⟨v | e, s⟩ := o <;>
        simp [writeLine, write, writeFault, resultLine, faultLine, String.append_assoc]

theorem handle_eq (depth : Nat) (config : Config) (c : Console) (line : String) :
    c.handle depth config line = (reply depth config c.session (.ofLine line)).map c.after := by
  unfold handle
  cases Request.ofLine line with
  | execute source => simp [evaluate_eq, reply, Option.map_map, Function.comp_def, after]
  | outline source =>
    simp only [writeOutline_eq]
    rfl
  | help =>
    simp only [writeHelp_eq]
    rfl
  | nothing => simp [reply, after]
  | _ => rfl

end Console

theorem replyTo_concat {d : Char} (hd : d.toNat < 0x80) (hblank : Text.isBlank d = true)
    (depth : Nat) (config : Config) (s : Session) (bytes : List UInt8) :
    replyTo depth config s (bytes ++ [UInt8.ofNat d.toNat]) = replyTo depth config s bytes := by
  rw [replyTo, Text.decodeUtf8?_concat hd, replyTo]
  cases Text.decodeUtf8? bytes with
  | none => rfl
  | some line => simp only [Option.map_some, Text.trim_push hblank]

theorem replyTo_lineFeed (depth : Nat) (config : Config) (s : Session) (bytes : List UInt8) :
    replyTo depth config s (bytes ++ [Text.lineFeed]) = replyTo depth config s bytes :=
  replyTo_concat (d := '\n') (by decide) (by decide) depth config s bytes

theorem replyTo_carriageReturn (depth : Nat) (config : Config) (s : Session)
    (bytes : List UInt8) :
    replyTo depth config s (bytes ++ [Text.carriageReturn]) = replyTo depth config s bytes :=
  replyTo_concat (d := '\r') (by decide) (by decide) depth config s bytes

/-- Lines that are replied to alike, whatever the session, make no difference to a run. -/
theorem run_congr (h : List.Forall₂
    (fun l l' => ∀ s, replyTo depth config s l = replyTo depth config s l') ls ls') :
    ∀ s, run depth config s ls = run depth config s ls' := by
  induction h with
  | nil => exact fun _ => rfl
  | cons hl _ ih =>
    intro s
    simp only [run, hl, ih]

theorem run_cons (hline : Text.decodeUtf8? bytes = some line) :
    run depth config s (bytes :: ls) =
      (reply depth config s (.ofLine (Text.trim line))).bind fun
        | (.text output, t) => (run depth config t ls).map (·.after (config.prompt ++ output))
        | (.stop, _) => some ⟨config.prompt, true⟩
        | (.unreadable, _) => some ⟨config.prompt, false⟩ := by
  rw [run, replyTo, hline]
  refine congrArg (Option.bind _) (funext fun o => ?_)
  obtain ⟨output | _ | _, t⟩ := o
  · exact Option.map_eq_bind.symm
  · rfl
  · rfl

theorem Transcript.after_after (t : Transcript) (a b : String) :
    (t.after b).after a = t.after (a ++ b) :=
  congrArg (fun output => (⟨output, t.readable⟩ : Transcript)) String.append_assoc.symm

/-- The line that is read may keep its line feed. -/
theorem run_lines {input : List UInt8} (hinput : input ≠ []) (s : Session) :
    run depth config s (Text.lines input) =
      run depth config s ((Text.readLine input).1 :: Text.lines (Text.readLine input).2) := by
  obtain ⟨l, hlines, hline⟩ := Text.lines_of_readLine hinput
  rw [hlines]
  refine run_congr (.cons (fun s => ?_) (List.forall₂_same.2 fun _ _ _ => rfl)) s
  obtain hline | hline := hline
  · rw [hline]
  · rw [hline, replyTo_lineFeed]

/-- The loop adds to what is written the transcript of the lines that are left. -/
theorem loop_eq_run (depth : Nat) (config : Config) (c : Console) (input : List UInt8) :
    loop depth config c input =
      (run depth config c.session (Text.lines input)).map fun t => t.after c.written := by
  fun_induction loop depth config c input with
  | case1 c input c' next h =>
    obtain rfl := Text.readLine_eq_nil_iff.1 h
    simp [run, Text.lines, Transcript.after, c', Console.write, Console.writeLine,
      String.append_assoc]
  | case2 c input c' next h hline =>
    have hinput := mt Text.readLine_eq_nil_iff.2 h
    simp [run_lines hinput, run, replyTo, next, hline, c', Console.write, Transcript.after]
  | case3 c input c' next h line hline ih =>
    have hinput := mt Text.readLine_eq_nil_iff.2 h
    have hsession : c'.session = c.session := rfl
    rw [run_lines hinput, run_cons hline, Console.handle_eq, hsession]
    cases hreply : reply depth config c.session (.ofLine (Text.trim line)) with
    | none => rfl
    | some o =>
      obtain ⟨r, s⟩ := o
      -- A line that was decoded is never reported as unreadable.
      obtain ⟨-, rfl⟩ | ⟨-, output, rfl, -⟩ := reply_cases hreply
      · rfl
      · simp [Console.after, ih, Function.comp_def, Transcript.after_after, c', Console.write,
          next, String.append_assoc]

/-- A run that reads and writes has the transcript of the run over its lines. -/
theorem converse_eq_transcript (depth : Nat) (config : Config) (input : List UInt8) :
    converse depth config input = transcript depth config input := by
  rw [converse, loop_eq_run, transcript]
  simp [Transcript.after]

end Monkey.Repl
