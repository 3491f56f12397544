import Mathlib.Data.Set.Insert
import Mathlib.Tactic.Tauto
import Monkey.Environment.Basic
import Monkey.Program.Basic

/-! # Well scoped programs

A program is well scoped in a set of names if every name it looks up is in the
set, is a parameter of a function around it, or is bound by an earlier statement
of a block around it. The value of a binding does not see the name it binds.
-/

namespace Monkey

/-- The name that a statement adds to the statements after it. -/
def Stmt.name? : Stmt → Option String
  | .bind name _ => some name
  | .ret _ | .expr _ => none

/-- The names that a sequence of statements binds at its own level. -/
def Block.names (b : Block) : List String :=
  b.filterMap Stmt.name?

mutual

/-- Whether an expression looks up names of `G` only, apart from those bound inside it. -/
def Expr.Scoped (G : Set String) : Expr → Prop
  | .ident name => name ∈ G
  | .int _ | .str _ | .bool _ => True
  | .unary _ operand => operand.Scoped G
  | .binary _ left right => left.Scoped G ∧ right.Scoped G
  | .cond condition consequence none => condition.Scoped G ∧ Stmt.AllScoped G consequence
  | .cond condition consequence (some alternative) =>
    condition.Scoped G ∧ Stmt.AllScoped G consequence ∧ Stmt.AllScoped G alternative
  | .fn params body => Stmt.AllScoped (G ∪ {x | x ∈ params}) body
  | .call callee args => callee.Scoped G ∧ Expr.AllScoped G args

/-- Whether each of several expressions is well scoped. -/
def Expr.AllScoped (G : Set String) : List Expr → Prop
  | [] => True
  | e :: es => e.Scoped G ∧ Expr.AllScoped G es

/-- Whether the expression of a statement is well scoped. -/
def Stmt.Scoped (G : Set String) : Stmt → Prop
  | .bind _ value | .ret value | .expr value => value.Scoped G

/-- Whether each statement is well scoped where the names bound before it are added. -/
def Stmt.AllScoped (G : Set String) : List Stmt → Prop
  | [] => True
  | s :: ss => s.Scoped G ∧ Stmt.AllScoped (G ∪ {x | x ∈ s.name?}) ss

end

theorem Expr.scoped_cond_iff {G : Set String} {condition : Expr} {consequence : Block}
    {alternative : Option Block} :
    (Expr.cond condition consequence alternative).Scoped G ↔
      condition.Scoped G ∧ Stmt.AllScoped G consequence ∧
        ∀ b ∈ alternative, Stmt.AllScoped G b := by
  cases alternative <;> simp [Expr.Scoped]

mutual

theorem Expr.Scoped.mono {G H : Set String} (hG : G ⊆ H) :
    ∀ {e : Expr}, e.Scoped G → e.Scoped H
  | .ident _, h => hG h
  | .int _, _ | .str _, _ | .bool _, _ => trivial
  | .unary _ operand, h => Expr.Scoped.mono hG (e := operand) h
  | .binary _ _ _, h => ⟨h.1.mono hG, h.2.mono hG⟩
  | .cond _ _ none, h => ⟨h.1.mono hG, h.2.mono hG⟩
  | .cond _ _ (some _), h => ⟨h.1.mono hG, h.2.1.mono hG, h.2.2.mono hG⟩
  | .fn _ _, h => Stmt.AllScoped.mono (Set.union_subset_union_left _ hG) h
  | .call _ _, h => ⟨h.1.mono hG, h.2.mono hG⟩

theorem Expr.AllScoped.mono {G H : Set String} (hG : G ⊆ H) :
    ∀ {es : List Expr}, Expr.AllScoped G es → Expr.AllScoped H es
  | [], _ => trivial
  | _ :: _, h => ⟨h.1.mono hG, h.2.mono hG⟩

theorem Stmt.Scoped.mono {G H : Set String} (hG : G ⊆ H) :
    ∀ {s : Stmt}, s.Scoped G → s.Scoped H
  | .bind _ value, h | .ret value, h | .expr value, h => Expr.Scoped.mono hG (e := value) h

theorem Stmt.AllScoped.mono {G H : Set String} (hG : G ⊆ H) :
    ∀ {ss : List Stmt}, Stmt.AllScoped G ss → Stmt.AllScoped H ss
  | [], _ => trivial
  | _ :: _, h => ⟨h.1.mono hG, h.2.mono (Set.union_subset_union_left _ hG)⟩

end

namespace Environment

variable {α : Type} {e e' : Environment α}

/-- The names that some scope binds. -/
def names (e : Environment α) : Set String :=
  {x | e.binds x = true}

theorem mem_names_iff {x : String} : x ∈ e.names ↔ ∃ v, e.get? x = some v :=
  Option.isSome_iff_exists

@[simp] theorem names_enter : e.enter.names = e.names := by
  ext x
  simp [mem_names_iff]

theorem names_define {name : String} {v : α} (h : e.define name v = .ok e') :
    e'.names = insert name e.names := by
  ext x
  rw [mem_names_iff, get?_define h, Set.mem_insert_iff, mem_names_iff]
  by_cases hx : x = name <;> simp [hx]

theorem names_defineAll {bs : List (String × α)} (h : e.defineAll bs = .ok e') :
    e'.names = e.names ∪ {x | x ∈ bs.map Prod.fst} := by
  induction bs generalizing e with
  | nil =>
    cases h
    simp
  | cons b bs ih =>
    obtain ⟨name, v⟩ := b
    obtain ⟨e₁, hd, hrest⟩ := defineAll_cons_eq_ok_iff.1 h
    rw [ih hrest, names_define hd]
    ext x
    simp only [Set.mem_union, Set.mem_insert_iff, Set.mem_ofPred_eq, List.map_cons, List.mem_cons]
    tauto

end Environment

end Monkey
