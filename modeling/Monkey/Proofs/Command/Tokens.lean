import Monkey.Command
import Monkey.Proofs.Json.Decoding
import Monkey.Proofs.Json.Roundtrip
import Monkey.Proofs.Text.Utf8
import Monkey.Proofs.Token.Scanning

/-! # The tokens of a file are written without a loss

The report on the tokens of a file is one JSON text. It is the text of the records of the
tokens, in their order, and no other tokens have these records: so whoever reads the report
has every literal and every place again. A reader with places of 64 bits has them too, for
no text that fits into memory has a place beyond that.
-/

namespace Monkey

/-! ## Records of tokens -/

theorem Position.ofOffset_le (cs : List Char) (i : Nat) :
    (ofOffset cs i).line ≤ 1 + cs.length ∧ (ofOffset cs i).column ≤ 1 + cs.length := by
  have htake : (cs.take i).length ≤ cs.length := by
    rw [List.length_take]
    exact Nat.min_le_right _ _
  have hline := List.count_le_length (a := '\n') (l := cs.take i)
  have hcolumn := (List.takeWhile_sublist (l := (cs.take i).reverse) (· ≠ '\n')).length_le
  rw [List.length_reverse] at hcolumn
  exact ⟨by simp only [ofOffset]; omega, by simp only [ofOffset]; omega⟩

/-- Every token stands behind a part of the text. -/
theorem Lexer.exists_prefix_of_mem_tokensFrom {p : Position} {cs : List Char} {t : Token}
    (ht : t ∈ tokensFrom p cs) : ∃ ds, ds <+: cs ∧ t.position = p.after ds := by
  fun_induction tokensFrom p cs with
  | case1 p =>
    obtain rfl := List.mem_singleton.1 ht
    exact ⟨[], List.prefix_rfl, rfl⟩
  | case2 p c cs _ ih =>
    obtain ⟨ds, hds, hp⟩ := ih ht
    exact ⟨c :: ds, List.cons_prefix_cons.2 ⟨rfl, hds⟩, hp⟩
  | case3 p c cs _ ih =>
    obtain rfl | ht := List.mem_cons.1 ht
    · exact ⟨[], List.nil_prefix, rfl⟩
    · obtain ⟨ds, hds, hp⟩ := ih ht
      refine ⟨(lexeme c cs).text ++ ds, ?_, by rw [hp, Position.after_append]⟩
      rw [← lexeme_append c cs]
      exact (List.prefix_append_right_inj _).2 hds

theorem position_le_of_mem_tokenize {source : String} {t : Token} (ht : t ∈ tokenize source) :
    t.position.line ≤ 1 + source.length ∧ t.position.column ≤ 1 + source.length := by
  obtain ⟨ds, ⟨rest, hrest⟩, hp⟩ := Lexer.exists_prefix_of_mem_tokensFrom ht
  rw [hp, ← Position.ofOffset_append ds rest, hrest, ← String.length_toList]
  exact Position.ofOffset_le _ _

namespace Token

theorem plain_toJson (t : Token) : t.toJson.Plain := by
  simp [toJson, Json.Plain, Json.MembersPlain]

theorem allPlain_map_toJson (ts : List Token) : Json.AllPlain (ts.map toJson) := by
  induction ts with
  | nil => trivial
  | cons t ts ih => exact ⟨t.plain_toJson, ih⟩

theorem Kind.name_injective : Function.Injective Kind.name := fun k k' h => by
  have hname := ofName?_name k
  rw [h, ofName?_name] at hname
  exact (Option.some.inj hname).symm

theorem toJson_injective : Function.Injective toJson := by
  rintro ⟨kind, literal, line, column⟩ ⟨kind', literal', line', column'⟩ h
  simp only [toJson, Json.obj.injEq, List.cons.injEq, Prod.mk.injEq, Json.str.injEq,
    Json.int.injEq, Int.ofNat_inj, true_and, and_true] at h
  obtain ⟨hkind, rfl, rfl, rfl⟩ := h
  rw [Kind.name_injective hkind]

end Token

namespace Command

variable {read : String → Except ReadFault (List UInt8)} {file : String} {bytes : List UInt8}
  {source : String}

theorem report_tokens (depth : Nat) (input : List UInt8) (hread : read file = .ok bytes)
    (htext : Text.decodeUtf8? bytes = some source) :
    report depth read input (ofArguments ["--tokens", file]) =
      some ⟨0, tokenText source, ""⟩ := by
  simp only [ofArguments, report, onSource, hread, Except.bind, htext, Report.success]

/-- What is written of the tokens of a text is the JSON text of their records. -/
theorem ofText?_tokenText (source : String) :
    Json.ofText? (tokenText source) = some (.arr ((tokenize source).map Token.toJson)) := by
  have hplain : (Json.arr ((tokenize source).map Token.toJson)).Plain :=
    Token.allPlain_map_toJson _
  exact Json.ofText?_pretty hplain 0 (by simp [Json.Reader.isBlank])

/--
The report on the tokens of a text in UTF-8 is a success, and its output is one JSON value: the
records of the tokens. No other tokens have these records, and they are read as these tokens where
places are numbers of 64 bits, if the text has no place beyond.
-/
theorem tokens_lossless (depth : Nat) (input : List UInt8) (hread : read file = .ok bytes)
    (htext : Text.decodeUtf8? bytes = some source) :
    ∃ out, report depth read input (ofArguments ["--tokens", file]) = some ⟨0, out, ""⟩ ∧
      Json.ofText? out = some (.arr ((tokenize source).map Token.toJson)) ∧
      (∀ ts, Json.ofText? out = some (.arr (ts.map Token.toJson)) → ts = tokenize source) ∧
      (bytes.length + 1 < UInt64.size →
        (Json.ofText? out).bind Token.listOfJson? = some (tokenize source)) := by
  have hout := ofText?_tokenText source
  refine ⟨tokenText source, report_tokens depth input hread htext, hout, fun ts hts => ?_,
    fun hlength => ?_⟩
  · rw [hout, Option.some.injEq, Json.arr.injEq] at hts
    exact (List.map_injective_iff.2 Token.toJson_injective hts).symm
  · have hsource := Text.length_le_of_decodeUtf8? htext
    rw [hout, Option.bind_some]
    refine Token.listReads_of_changed (fun t ht => ?_) (.same _)
    have hplace := position_le_of_mem_tokenize ht
    omega

/--
A string over two lines with an escaped quote, a control character and a letter of two bytes, and
behind it a character that is no token.
-/
theorem tokens_lossless_controls :
    let bytes : List UInt8 := [34, 92, 34, 10, 1, 0xc3, 0xa9, 34, 32, 0xc2, 0xa7]
    let out := "[\n  \x7b\n    \"kind\": \"String\",\n    \"literal\": " ++
      "\"\\\"\\\\\\\"\\n\\u0001é\\\"\",\n    \"line\": 1,\n    \"column\": 1\n  \x7d,\n  \x7b\n" ++
      "    \"kind\": \"Illegal\",\n    \"literal\": \"§\",\n    \"line\": 2,\n    \"column\": 5\n" ++
      "  \x7d,\n  \x7b\n    \"kind\": \"Eof\",\n    \"literal\": \"\",\n    \"line\": 2,\n" ++
      "    \"column\": 6\n  \x7d\n]\n"
    report 1 (fun _ => .ok bytes) [] (ofArguments ["--tokens", "a"]) = some ⟨0, out, ""⟩ ∧
      (Json.ofText? out).bind Token.listOfJson? =
        some [⟨.string, "\"\\\"\n\x01é\"", ⟨1, 1⟩⟩, ⟨.illegal, "§", ⟨2, 5⟩⟩,
          ⟨.eof, "", ⟨2, 6⟩⟩] := by
  intro bytes out
  let read : String → Except ReadFault (List UInt8) := fun _ => .ok bytes
  have hread : read "a" = .ok bytes := rfl
  have htext : Text.decodeUtf8? bytes = some "\"\\\"\n\x01é\" §" :=
    Text.decodeUtf8?_eq_some_iff.2 rfl
  have hout : tokenText "\"\\\"\n\x01é\" §" = out := by decide +kernel
  have hreport := report_tokens 1 [] hread htext
  obtain ⟨out', hreport', -, -, htokens⟩ := tokens_lossless 1 [] hread htext
  rw [hreport, hout, Option.some.injEq, Report.mk.injEq] at hreport'
  rw [hreport, hout, hreport'.2.1, htokens (by decide)]
  exact ⟨rfl, by decide +kernel⟩

end Command

end Monkey
