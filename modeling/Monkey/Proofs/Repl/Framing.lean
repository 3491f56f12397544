import Monkey.Proofs.Repl.Loop

/-! # What frames the replies

What a run writes is the prompt and a reply for each line, up to the first line at which it
stops, and then the prompt once more. How it ends is told by that line: one that asks to
quit, one that is no text, or none at all.
-/

namespace Monkey.Repl

variable {depth : Nat} {config : Config} {s t : Session} {line : String}
  {ls ls' : List (List UInt8)}

/-- The texts that answer lines, one after the other. -/
def responses (depth : Nat) (config : Config) : Session → List String → Option (List String)
  | _, [] => some []
  | s, line :: lines =>
    (reply depth config s (.ofLine (Text.trim line))).bind fun
      | (.text output, t) => (responses depth config t lines).map (output :: ·)
      | _ => none

/-- Whether a line asks to quit. -/
def Quits (line : String) : Prop :=
  Text.trim line ∈ [":quit", ":exit"]

instance (line : String) : Decidable (Quits line) :=
  inferInstanceAs (Decidable (_ ∈ _))

/--
Whether a run over lines of bytes proceeds through the texts `lines` and then stops, with what it
writes where it stops, and whether it could read that line.
-/
inductive Stops : List (List UInt8) → List String → String → Bool → Prop
  | ended : Stops [] [] "\n" true
  | quit {bytes : List UInt8} {line : String} (ls : List (List UInt8)) :
      Text.decodeUtf8? bytes = some line → Quits line → Stops (bytes :: ls) [] "" true
  | unreadable {bytes : List UInt8} (ls : List (List UInt8)) :
      Text.decodeUtf8? bytes = none → Stops (bytes :: ls) [] "" false
  | proceed {bytes : List UInt8} {line closing : String} {ls : List (List UInt8)}
      {lines : List String} {readable : Bool} :
      Text.decodeUtf8? bytes = some line → ¬Quits line → Stops ls lines closing readable →
      Stops (bytes :: ls) (line :: lines) closing readable

/-- The replies, each behind a prompt, and a prompt more with what is written behind it. -/
def framed (prompt : String) (outputs : List String) (closing : String) : String :=
  String.join (outputs.map (prompt ++ ·)) ++ prompt ++ closing

variable {lines outputs : List String} {closing : String} {readable : Bool}

theorem framed_nil (prompt closing : String) : framed prompt [] closing = prompt ++ closing := by
  simp [framed]

theorem framed_cons (prompt output : String) (outputs : List String) (closing : String) :
    framed prompt (output :: outputs) closing =
      prompt ++ output ++ framed prompt outputs closing := by
  simp [framed, String.join_cons, String.append_assoc]

/-- A run stops somewhere, at the end of the lines if not before. -/
theorem exists_stops (ls : List (List UInt8)) :
    ∃ lines closing readable, Stops ls lines closing readable := by
  induction ls with
  | nil => exact ⟨[], _, _, .ended⟩
  | cons bytes ls ih =>
    cases hline : Text.decodeUtf8? bytes with
    | none => exact ⟨[], _, _, .unreadable ls hline⟩
    | some line =>
      by_cases hquit : Quits line
      · exact ⟨[], _, _, .quit ls hline hquit⟩
      · obtain ⟨lines, closing, readable, hstops⟩ := ih
        exact ⟨line :: lines, closing, readable, .proceed hline hquit hstops⟩

theorem responses_cons_of_text {output : String}
    (h : reply depth config s (.ofLine (Text.trim line)) = some (.text output, t)) :
    responses depth config s (line :: lines) =
      (responses depth config t lines).map (output :: ·) := by
  rw [responses, h]
  rfl

/-- A run writes the replies to the lines that it proceeds through. -/
theorem run_of_stops (h : Stops ls lines closing readable) (depth : Nat) (config : Config)
    (s : Session) : run depth config s ls = (responses depth config s lines).map fun outputs =>
      ⟨framed config.prompt outputs closing, readable⟩ := by
  induction h generalizing s with
  | ended =>
    rw [run, responses, Option.map_some, framed_nil]
  | quit _ hline hquit =>
    rw [run_cons hline, quit_iff.2 hquit, responses, Option.map_some, framed_nil,
      String.append_empty]
    rfl
  | unreadable _ hline =>
    rw [run, replyTo, hline, responses, Option.map_some, framed_nil, String.append_empty]
    rfl
  | @proceed _ line _ _ _ _ hline hquit _ ih =>
    rw [run_cons hline]
    cases hreply : reply depth config s (.ofLine (Text.trim line)) with
    | none => simp [responses, hreply]
    | some o =>
      obtain ⟨r, t⟩ := o
      obtain ⟨hrequest, -⟩ | ⟨-, output, rfl, -⟩ := reply_cases hreply
      · exact absurd (quit_iff.1 hrequest) hquit
      · simp only [Option.bind_some, responses_cons_of_text hreply, ih, Option.map_map]
        refine Option.map_congr fun outputs _ => ?_
        simp [Transcript.after, framed_cons]

theorem responses_ended (h : responses depth config s lines = some outputs) :
    outputs.length = lines.length ∧ ∀ output ∈ outputs, Ended output := by
  induction lines generalizing s outputs with
  | nil =>
    cases h
    exact ⟨rfl, nofun⟩
  | cons line lines ih =>
    obtain ⟨⟨r, t⟩, hreply, h⟩ := Option.bind_eq_some_iff.1 h
    obtain ⟨-, rfl⟩ | ⟨-, output, rfl, houtput⟩ := reply_cases hreply
    · cases h
    · obtain ⟨outputs, houtputs, rfl⟩ := Option.map_eq_some_iff.1 h
      obtain ⟨hlength, hended⟩ := ih houtputs
      exact ⟨congrArg (· + 1) hlength, List.forall_mem_cons.2 ⟨houtput, hended⟩⟩

namespace Stops

/-- Without the line at which it stopped, and those behind it, a run stops at the end. -/
theorem earlier (h : Stops ls lines closing readable)
    (hdecode : ls'.map Text.decodeUtf8? = lines.map some) : Stops ls' lines "\n" true := by
  induction h generalizing ls' with
  | proceed _ hquit _ ih =>
    obtain ⟨bytes, ls', rfl, hbytes, hls'⟩ := List.map_eq_cons_iff.1 hdecode
    exact .proceed hbytes hquit (ih hls')
  | _ =>
    obtain rfl := List.map_eq_nil_iff.1 hdecode
    exact .ended

/-- Lines behind one that asks to quit are not read. -/
theorem append (h : Stops ls lines closing readable)
    (hquit : ∃ bytes ∈ ls, ∃ line, Text.decodeUtf8? bytes = some line ∧ Quits line)
    (ls' : List (List UInt8)) : Stops (ls ++ ls') lines closing readable := by
  induction h with
  | ended =>
    obtain ⟨_, hmem, -⟩ := hquit
    cases hmem
  | quit ls hline hq => exact .quit (ls ++ ls') hline hq
  | unreadable ls hline => exact .unreadable (ls ++ ls') hline
  | proceed hline hproceed _ ih =>
    obtain ⟨bytes, hmem, line, hline', hq⟩ := hquit
    refine .proceed hline hproceed (ih ⟨bytes, ?_, line, hline', hq⟩)
    obtain rfl | hmem := List.mem_cons.1 hmem
    · cases hline.symm.trans hline'
      exact absurd hq hproceed
    · exact hmem

end Stops

/--
Whatever the input, a run writes the prompt and the reply to each line before the first at which it
stops, as a run over these lines alone does, and the prompt once more: with nothing behind it at a
line that asks to quit or is no text, and with a line feed at the end of the input. Every reply is
empty or ends with a line feed. Nothing behind the end of a line that asks to quit matters, nor does
the line feed of the last line, nor a carriage return before every line feed.
-/
theorem converse_framed (depth : Nat) (config : Config) (input : List UInt8) :
    (∃ lines closing readable, Stops (Text.lines input) lines closing readable ∧
      converse depth config input = (responses depth config .initial lines).map (fun outputs =>
        ⟨framed config.prompt outputs closing, readable⟩) ∧
      (∀ earlier, (Text.lines earlier).map Text.decodeUtf8? = lines.map some →
        converse depth config earlier = (responses depth config .initial lines).map fun outputs =>
          ⟨framed config.prompt outputs "\n", true⟩) ∧
      ∀ outputs, responses depth config .initial lines = some outputs →
        outputs.length = lines.length ∧ ∀ output ∈ outputs, Ended output) ∧
    ((∃ bytes ∈ Text.lines input, ∃ line, Text.decodeUtf8? bytes = some line ∧ Quits line) →
      ∀ tail, converse depth config (input ++ Text.lineFeed :: tail) =
        converse depth config input) ∧
    (input ≠ [] → input.getLast? ≠ some Text.lineFeed →
      converse depth config (input ++ [Text.lineFeed]) = converse depth config input) ∧
    converse depth config (Text.withReturns input) = converse depth config input := by
  simp only [converse_eq_transcript, transcript]
  obtain ⟨lines, closing, readable, hstops⟩ := exists_stops (Text.lines input)
  refine ⟨⟨lines, closing, readable, hstops, run_of_stops hstops depth config .initial,
    fun earlier hearlier => ?_, fun outputs => responses_ended⟩, fun hquit tail => ?_,
    fun hne hlast => ?_, ?_⟩
  · exact run_of_stops (hstops.earlier hearlier) depth config .initial
  · obtain ⟨ls, hls⟩ := Text.exists_lines_append input
    rw [hls, run_of_stops (hstops.append hquit _), run_of_stops hstops]
  · rw [Text.lines_concat_lineFeed hne hlast]
  · refine (run_congr ((Text.lines_withReturns input).imp fun l l' hl s => ?_) .initial).symm
    obtain rfl | rfl := hl
    · rfl
    · exact (replyTo_carriageReturn depth config s l).symm

/-- A program, an empty line and another program before a line that asks to quit, between blanks. -/
theorem converse_framed_exit :
    let config : Config := ⟨"> ", false⟩
    let input := Text.encodeUtf8 "let a = 2;\n\na\n :exit ".toList
    converse 9 config input = some ⟨"> 2\n> > 2\n> ", true⟩ ∧
      converse 9 config (input ++ [Text.lineFeed, 0xff]) = some ⟨"> 2\n> > 2\n> ", true⟩ ∧
      converse 9 config (input ++ [Text.lineFeed]) = some ⟨"> 2\n> > 2\n> ", true⟩ ∧
      converse 9 config (Text.withReturns input) = some ⟨"> 2\n> > 2\n> ", true⟩ := by
  intro config input
  have hrun : converse 9 config input = some ⟨"> 2\n> > 2\n> ", true⟩ := by
    rw [converse_eq_transcript]
    decide +kernel
  obtain ⟨-, hquit, hlast, hreturns⟩ := converse_framed 9 config input
  have hexit : Quits " :exit " := by decide
  refine ⟨hrun, (hquit ⟨_, ?_, _, Text.decodeUtf8?_eq_some_iff.2 rfl, hexit⟩ [0xff]).trans hrun,
    (hlast ?_ ?_).trans hrun, hreturns.trans hrun⟩
  · decide
  · decide
  · decide

end Monkey.Repl
