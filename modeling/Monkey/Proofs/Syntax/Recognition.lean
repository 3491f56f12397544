import Monkey.Proofs.Syntax.Completeness
import Monkey.Proofs.Syntax.Soundness

/-! # The parser recognizes the grammar

A list of tokens parses to a program exactly if the tokens before the end of
text derive it. Both directions together make the grammar unambiguous.
-/

namespace Monkey.Program

open Token Monkey.Parser

variable {ts us : List Token} {p q : Program} {e : Expr}

theorem derives_of_ofTokens (h : ofTokens ts = .ok p) :
    Derives (.statements p) (ts.takeWhile (·.kind ≠ .eof)) := by
  obtain ⟨c', hc'⟩ : ∃ c', parse (.ofTokens ts) = (.ok p, c') := ⟨_, Prod.ext h rfl⟩
  have hrun := runAt_program (.ofTokens ts)
  rw [hc'] at hrun
  obtain ⟨us, hus, hd, hend⟩ := (soundAt _).statements [.eof] _ _ _ hrun
  rw [hus.eq_pending (by simpa using hend)] at hd
  exact hd

theorem ofTokens_of_derives (h : Derives (.statements p) (ts.takeWhile (·.kind ≠ .eof))) :
    ofTokens ts = .ok p := by
  obtain ⟨c', hread, hend⟩ := Cursor.Reads.exists_end (.ofTokens ts)
  obtain ⟨n, hn⟩ := parsed h [.eof] _ c' hread (by simp) (by simp [hend])
  exact parse_eq_of_runAt (hn n (Nat.le_refl n))

theorem ofTokens_eq_ok_iff :
    ofTokens ts = .ok p ↔ Derives (.statements p) (ts.takeWhile (·.kind ≠ .eof)) :=
  ⟨derives_of_ofTokens, ofTokens_of_derives⟩

theorem ofTokens_self_of_derives (h : Derives (.statements p) ts) : ofTokens ts = .ok p := by
  apply ofTokens_of_derives
  rwa [Cursor.takeWhile_ne_eof h.kind_ne_eof]

theorem statements_of_expression (h : Derives (.expr .equality e) ts) :
    Derives (.statements [.expr e]) ts := by
  apply Derives.singleton
  exact h.bare (by simp)

/--
The parser accepts the tokens before the end of text exactly if they derive a program, and gives
that program. So no list of tokens has two trees, and an expression in parentheses has the tree
of the expression.
-/
theorem ofTokens_recognizes (ts : List Token) :
    (∀ p, ofTokens ts = .ok p ↔ Derives (.statements p) (ts.takeWhile (·.kind ≠ .eof))) ∧
    (∀ p q, Derives (.statements p) ts → Derives (.statements q) ts → p = q) ∧
    ∀ l r e, l.kind = .lparen → r.kind = .rparen → Derives (.expr .equality e) ts →
      ofTokens ts = .ok [.expr e] ∧ ofTokens (l :: (ts ++ [r])) = .ok [.expr e] := by
  refine ⟨fun p => ofTokens_eq_ok_iff, ?_, ?_⟩
  · intro p q hp hq
    have heq := (ofTokens_self_of_derives hp).symm.trans (ofTokens_self_of_derives hq)
    cases heq
    rfl
  · intro l r e hl hr he
    have hgroup := Derives.group hl he hr
    constructor
    · exact ofTokens_self_of_derives (statements_of_expression he)
    · exact ofTokens_self_of_derives (statements_of_expression (hgroup.weaken (by decide)))

-- A minus sign after an expression continues it: these are one statement, not two.
example : ofTokens [.ofKind .ident, .ofKind .minus, .ofKind .ident] =
    .ok [.expr (.binary .sub (.ident "") (.ident ""))] := rfl

end Monkey.Program
