import Monkey.Command
import Monkey.Proofs.Evaluation.Faults
import Monkey.Proofs.Repl.Loop
import Monkey.Proofs.Syntax.EarliestFault

/-! # The modes of the command line agree

Arguments are understood or lead to the usage, and nothing else ends with the code of the usage.
A report on a file is all output or all error, as its code tells. The modes share the stages of
a program: the outline of a file fails exactly where its value fails to be parsed, and then
both fail alike; and a line is answered in a new session with what the file with this text
as its content would have written.
-/

namespace Monkey

variable {depth : Nat} {source : String} {e : Fault}

/-! ## The stage of a failure -/

theorem interpret_of_error (h : Program.ofSource source = .error e) :
    interpret depth source = some (.error e) := by
  rw [interpret, Session.executeSource, h]
  rfl

/-- A source that fails in the stage of parsing has no program, and any other failure has one. -/
theorem stage_of_interpret (h : interpret depth source = some (.error e)) :
    e.stage = .parsing ↔ Program.ofSource source = .error e := by
  obtain ⟨⟨r, t⟩, hrun, rfl⟩ := Option.map_eq_some_iff.1 h
  unfold Session.executeSource at hrun
  split at hrun
  · next p hp =>
    have hstage := Session.stage_of_execute hrun
    rw [hp, hstage]
    exact iff_of_false nofun nofun
  · next e' he =>
    cases hrun
    exact iff_of_true (Program.stage_of_ofTokens he) he

/-! ## Lines that are programs -/

namespace Repl

/-- Whether a line without blanks at its ends is a command of the interactive loop. -/
def IsCommand (line : String) : Prop :=
  line ∈ [":quit", ":exit", ":reset", ":help", ":ast"] ∨ ":ast ".toList <+: line.toList

instance (line : String) : Decidable (IsCommand line) :=
  inferInstanceAs (Decidable (_ ∨ _))

/-- A text that can be put in as one line, and is taken as a program then. -/
structure IsProgram (line : String) : Prop where
  single : '\n' ∉ line.toList
  trimmed : Text.trim line = line
  ne_empty : line ≠ ""
  not_command : ¬IsCommand line

theorem ofLine_eq_execute {line : String} (hne : line ≠ "") (h : ¬IsCommand line) :
    Request.ofLine line = .execute line := by
  unfold Request.ofLine
  split
  case h_1 => exact absurd rfl hne
  case h_7 =>
    split
    · next tail htail => exact absurd (.inr ⟨tail, htail.symm⟩) h
    · rfl
  all_goals exact absurd (.inl (by decide)) h

/-- What is written for a program does not tell a session that begins from a file. -/
theorem execute_eq_evaluation (depth : Nat) (source : String) :
    (execute depth .standard .initial source).map (·.1) =
      (Command.evaluation depth source).map fun r => r.out ++ r.err := by
  rw [execute, Command.evaluation, interpret, Session.executeSource]
  cases Program.ofSource source with
  | error e => rfl
  | ok p =>
    simp only [Option.map_map]
    refine Option.map_congr fun o _ => ?_
    obtain ⟨v | e, s⟩ := o <;> simp [Config.standard, resultLine, Command.Report.success,
      Command.Report.failure]

/-- A run over one line has one prompt before the reply and one behind it. -/
theorem run_execute {config : Config} {s : Session} {bytes : List UInt8}
    (hdecode : Text.decodeUtf8? bytes = some source) (hsource : IsProgram source) :
    run depth config s [bytes] = (execute depth config s source).map fun o =>
      ⟨config.prompt ++ o.1 ++ (config.prompt ++ "\n"), true⟩ := by
  rw [run_cons hdecode, hsource.trimmed, ofLine_eq_execute hsource.ne_empty hsource.not_command,
    reply]
  cases execute depth config s source <;> rfl

theorem lines_of_isProgram {bytes tail : List UInt8}
    (hdecode : Text.decodeUtf8? bytes = some source) (hsource : IsProgram source)
    (htail : tail ∈ [[], [Text.lineFeed]]) : Text.lines (bytes ++ tail) = [bytes] := by
  have hbytes := Text.decodeUtf8?_eq_some_iff.1 hdecode
  have hfeed : Text.lineFeed ∉ bytes := by
    rw [hbytes, Text.lineFeed_mem_encodeUtf8_iff]
    exact hsource.single
  have hne : bytes ≠ [] := by
    rintro rfl
    have hempty : Text.decodeUtf8? [] = some "" := Text.decodeUtf8?_eq_some_iff.2 rfl
    exact hsource.ne_empty (Option.some.inj (hdecode.symm.trans hempty))
  have hlines := Text.lines_of_not_mem hne hfeed
  simp only [List.mem_cons, List.not_mem_nil, or_false] at htail
  rcases htail with rfl | rfl
  · rwa [List.append_nil]
  · rwa [Text.lines_concat_lineFeed hne fun hlast => hfeed (List.mem_of_getLast? hlast)]

end Repl

namespace Command

variable {args : List String} {c : Command} {r : Report} {file : String} {input : List UInt8}
  {read : String → Except ReadFault (List UInt8)}

/-! ## Arguments -/

/-- What arguments ask for, where they are understood. -/
inductive Asks : List String → Command → Prop
  | interactive : Asks [] .interactive
  | outline (file : String) : Asks ["--ast", file] (.outline file)
  | tokens (file : String) : Asks ["--tokens", file] (.tokens file)
  | evaluate {file : String} : file.toList.head? ≠ some '-' → Asks [file] (.evaluate file)

theorem Asks.ofArguments_eq (h : Asks args c) : ofArguments args = c := by
  cases h with
  | evaluate hfile => simp [ofArguments, hfile]
  | _ => rfl

theorem ofArguments_eq_usage (h : ∀ c, ¬Asks args c) : ofArguments args = .usage := by
  unfold ofArguments
  split
  · exact absurd .interactive (h _)
  · exact absurd (.outline _) (h _)
  · exact absurd (.tokens _) (h _)
  · split
    · rfl
    · next hfile => exact absurd (.evaluate hfile) (h _)
  · rfl

/-! ## All output or all error -/

/-- Whether a report is output alone or an error alone, as its code tells. -/
inductive Report.Settled : Report → Prop
  | output {out : String} : out ≠ "" → Settled ⟨0, out, ""⟩
  | error {err : String} : err ≠ "" → Settled ⟨1, "", err⟩

theorem line_ne_empty (l : String) : l ++ "\n" ≠ "" := by
  simp [String.append_eq_empty_iff]

theorem settled_success (l : String) : (Report.success (l ++ "\n")).Settled :=
  .output (line_ne_empty l)

theorem settled_failure (e : Fault) : (Report.failure e).Settled :=
  .error (line_ne_empty _)

theorem settled_outlined (source : String) : (outlined source).Settled := by
  unfold outlined
  split
  · exact settled_success _
  · exact settled_failure _

theorem settled_evaluation (h : evaluation depth source = some r) : r.Settled := by
  obtain ⟨v | e, -, rfl⟩ := Option.map_eq_some_iff.1 h
  · exact settled_failure _
  · exact settled_success _

theorem settled_onSource {bytes : Except ReadFault (List UInt8)} {report : String → Option Report}
    (hreport : ∀ source r, report source = some r → r.Settled)
    (h : onSource file bytes report = some r) : r.Settled := by
  unfold onSource at h
  simp only at h
  split at h
  · exact hreport _ r h
  · cases h
    exact .error (line_ne_empty _)

/-- Whatever is reported on a file, readable or not. -/
theorem settled_report (hc : c.file? = some file) (h : report depth read input c = some r) :
    r.Settled := by
  cases c with
  | evaluate file => exact settled_onSource (fun _ _ => settled_evaluation) h
  | outline file =>
    refine settled_onSource ?_ h
    rintro source r ⟨⟩
    exact settled_outlined source
  | tokens file =>
    refine settled_onSource ?_ h
    rintro source r ⟨⟩
    exact settled_success _
  | interactive | usage => cases hc

theorem Report.Settled.code_iff (h : r.Settled) :
    (r.code = 0 ∨ r.code = 1) ∧ (r.code = 0 ↔ r.err = "") ∧ (r.code = 1 ↔ r.out = "") := by
  cases h with
  | output hout => exact ⟨.inl rfl, iff_of_true rfl rfl, iff_of_false nofun hout⟩
  | error herr => exact ⟨.inr rfl, iff_of_false nofun herr, iff_of_true rfl rfl⟩

theorem Asks.code_ne_two (h : Asks args c) (hr : report depth read input c = some r) :
    r.code ≠ 2 := by
  cases h with
  | interactive =>
    obtain ⟨t, -, rfl⟩ := Option.map_eq_some_iff.1 hr
    unfold interaction
    split <;> exact nofun
  | outline file | tokens file | evaluate hfile =>
    cases settled_report rfl hr <;> exact nofun

theorem report_usage_iff (depth : Nat) (read : String → Except ReadFault (List UInt8))
    (input : List UInt8) (args : List String) :
    ((∃ r, report depth read input (ofArguments args) = some r ∧ r.code = 2) ↔
        ∀ c, ¬Asks args c) ∧
      (report depth read input (ofArguments args) = some ⟨2, "", usageText⟩ ↔
        ∀ c, ¬Asks args c) := by
  have hnone (r : Report) (hr : report depth read input (ofArguments args) = some r)
      (hcode : r.code = 2) : ∀ c, ¬Asks args c := by
    intro c hc
    rw [hc.ofArguments_eq] at hr
    exact hc.code_ne_two hr hcode
  have husage (h : ∀ c, ¬Asks args c) :
      report depth read input (ofArguments args) = some ⟨2, "", usageText⟩ := by
    rw [ofArguments_eq_usage h]
    rfl
  constructor
  · constructor
    · rintro ⟨r, hr, hcode⟩
      exact hnone r hr hcode
    · intro h
      exact ⟨_, husage h, rfl⟩
  · exact ⟨fun hr => hnone _ hr rfl, husage⟩

/-! ## The modes on one file -/

theorem onSource_eq {bytes : List UInt8} (hread : read file = .ok bytes)
    (hdecode : Text.decodeUtf8? bytes = some source) (report : String → Option Report) :
    onSource file (read file) report = report source := by
  rw [hread]
  simp only [onSource, Except.bind, hdecode]

theorem outlined_code_iff (depth : Nat) (source : String) :
    (outlined source).code = 1 ↔
      ∃ e, interpret depth source = some (.error e) ∧ e.stage = .parsing := by
  constructor
  · intro h
    unfold outlined at h
    split at h
    · cases h
    · next e he => exact ⟨e, interpret_of_error he, Program.stage_of_ofTokens he⟩
  · rintro ⟨e, he, hstage⟩
    rw [outlined, (stage_of_interpret he).1 hstage]
    rfl

theorem evaluation_of_outlined (h : (outlined source).code = 1) :
    evaluation depth source = some (outlined source) := by
  unfold outlined at h ⊢
  split at h
  · cases h
  · next e he =>
    rw [evaluation, interpret_of_error he]
    rfl

theorem exists_fault_of_evaluation (h : evaluation depth source = some r) (hcode : r.code = 1) :
    ∃ e, interpret depth source = some (.error e) ∧ r = .failure e := by
  obtain ⟨v | e, he, rfl⟩ := Option.map_eq_some_iff.1 h
  · exact ⟨v, he, rfl⟩
  · cases hcode

theorem interactive_eq_evaluation {bytes tail : List UInt8}
    (hdecode : Text.decodeUtf8? bytes = some source) (hsource : Repl.IsProgram source)
    (htail : tail ∈ [[], [Text.lineFeed]]) :
    report depth read (bytes ++ tail) .interactive = (evaluation depth source).map fun r =>
      let prompt := Repl.Config.standard.prompt
      .success (banner ++ (prompt ++ (r.out ++ r.err) ++ (prompt ++ "\n"))) := by
  have hreply := Repl.execute_eq_evaluation depth source
  rw [report, Repl.transcript, Repl.lines_of_isProgram hdecode hsource htail,
    Repl.run_execute hdecode hsource]
  cases hrun : Repl.execute depth .standard .initial source <;>
    cases hvalue : evaluation depth source <;> simp_all [interaction]

/--
The code 2 and the usage go with the arguments that are not understood. A report on a file is
output alone with the code 0 or an error alone with the code 1. On a file that is text the tokens
are always reported; the outline fails where the value fails in the stage of parsing, with the same
report, and every other failure of the value is one of the stage of evaluation. A new interactive
session answers a line as it would be answered from a file.
-/
theorem modes_agree (depth : Nat) (read : String → Except ReadFault (List UInt8))
    (input : List UInt8) :
    let run := fun args => report depth read input (ofArguments args)
    let prompt := Repl.Config.standard.prompt
    (∀ args, ((∃ r, run args = some r ∧ r.code = 2) ↔ ∀ c, ¬Asks args c) ∧
        (run args = some ⟨2, "", usageText⟩ ↔ ∀ c, ¬Asks args c)) ∧
      (∀ args c file r, Asks args c → c.file? = some file → run args = some r →
        (r.code = 0 ∨ r.code = 1) ∧ (r.code = 0 ↔ r.err = "") ∧ (r.code = 1 ↔ r.out = "")) ∧
      ∀ file bytes source, read file = .ok bytes → Text.decodeUtf8? bytes = some source →
        run ["--tokens", file] = some (.success (tokenText source)) ∧
        (file.toList.head? ≠ some '-' →
          (∃ o, run ["--ast", file] = some o ∧
            (o.code = 1 ↔
              ∃ e, interpret depth source = some (.error e) ∧ e.stage = .parsing) ∧
            (o.code = 1 → run [file] = some o) ∧
            ∀ r, run [file] = some r → r.code = 1 → o.code ≠ 1 →
              ∃ e, interpret depth source = some (.error e) ∧ r = .failure e ∧
                e.stage = .evaluation) ∧
          (Repl.IsProgram source → ∀ tail ∈ [[], [Text.lineFeed]],
            report depth read (bytes ++ tail) (ofArguments []) = (run [file]).map fun r =>
              .success (banner ++ (prompt ++ (r.out ++ r.err) ++ (prompt ++ "\n"))))) := by
  intro run prompt
  refine ⟨report_usage_iff depth read input, ?_, ?_⟩
  · intro args c file r hasks hfile hr
    have hreport : report depth read input c = some r := by
      rwa [← hasks.ofArguments_eq]
    exact (settled_report hfile hreport).code_iff
  intro file bytes source hread hdecode
  have hsource := onSource_eq hread hdecode
  refine ⟨hsource _, fun hfile => ?_⟩
  have hvalue : run [file] = evaluation depth source := by
    change report depth read input (ofArguments [file]) = _
    rw [(Asks.evaluate hfile).ofArguments_eq]
    exact hsource _
  rw [hvalue]
  constructor
  · refine ⟨outlined source, hsource _, outlined_code_iff depth source, evaluation_of_outlined, ?_⟩
    intro r hr hcode hparsed
    obtain ⟨e, he, rfl⟩ := exists_fault_of_evaluation hr hcode
    refine ⟨e, he, rfl, ?_⟩
    cases hstage : e.stage with
    | parsing => exact absurd ((outlined_code_iff depth source).2 ⟨e, he, hstage⟩) hparsed
    | evaluation => rfl
  · intro hprogram tail htail
    exact interactive_eq_evaluation hdecode hprogram htail

/-- A fault in the evaluation of a file, and in a session. -/
theorem modes_agree_fault :
    let text := "1+true"
    let bytes := Text.encodeUtf8 text.toList
    let read : String → Except ReadFault (List UInt8) := fun _ => .ok bytes
    let line := "Error: Unsupported operator: + for operands of types Integer, Boolean\n"
    report 20 read [] (ofArguments ["file"]) = some ⟨1, "", line⟩ ∧
      (∃ e, interpret 20 text = some (.error e) ∧ e.stage = .evaluation) ∧
      report 20 read (bytes ++ [Text.lineFeed]) (ofArguments []) =
        some (.success (banner ++ (">> " ++ line ++ ">> \n"))) := by
  intro text bytes read line
  have hvalue : report 20 read [] (ofArguments ["file"]) = some ⟨1, "", line⟩ := by decide +kernel
  have hdecode : Text.decodeUtf8? bytes = some text := Text.decodeUtf8?_eq_some_iff.2 rfl
  have hprogram : Repl.IsProgram text := by
    constructor <;> decide
  obtain ⟨-, hmodes⟩ := (modes_agree 20 read []).2.2 "file" bytes text rfl hdecode
  obtain ⟨⟨o, ho, -, -, hfault⟩, hsession⟩ := hmodes (by decide)
  have hcode : (report 20 read [] (ofArguments ["--ast", "file"])).map Report.code = some 0 := by
    decide +kernel
  have hparsed : o.code = 0 :=
    Option.some.inj ((congrArg (Option.map Report.code) ho).symm.trans hcode)
  obtain ⟨e, he, -, hstage⟩ := hfault _ hvalue rfl (by rw [hparsed]; decide)
  refine ⟨hvalue, ⟨e, he, hstage⟩, ?_⟩
  exact (hsession hprogram [Text.lineFeed] (by simp)).trans (congrArg (Option.map _) hvalue)

end Command

end Monkey
