import Mathlib.Data.Finset.Option
import Monkey.Proofs.Scope.WellScoped

/-! # Free identifiers

The identifiers of an expression that nothing inside it binds. The parameters of
a function bind in its body, and a statement binds its name in the statements
after it only. Being well scoped in a set of names is binding no more than that:
the set has all free identifiers.
-/

namespace Monkey

mutual

/-- The free identifiers of an expression. -/
def Expr.free : Expr → Finset String
  | .ident name => {name}
  | .int _ | .str _ | .bool _ => ∅
  | .unary _ operand => operand.free
  | .binary _ left right => left.free ∪ right.free
  | .cond condition consequence none => condition.free ∪ Stmt.allFree consequence
  | .cond condition consequence (some alternative) =>
    condition.free ∪ (Stmt.allFree consequence ∪ Stmt.allFree alternative)
  | .fn params body => Stmt.allFree body \ params.toFinset
  | .call callee args => callee.free ∪ Expr.allFree args

/-- The identifiers that are free in one of several expressions. -/
def Expr.allFree : List Expr → Finset String
  | [] => ∅
  | e :: es => e.free ∪ Expr.allFree es

/-- The free identifiers of a statement: its own name is not bound in its value. -/
def Stmt.free : Stmt → Finset String
  | .bind _ value | .ret value | .expr value => value.free

/-- The identifiers of a sequence of statements that no earlier statement binds. -/
def Stmt.allFree : List Stmt → Finset String
  | [] => ∅
  | s :: ss => s.free ∪ (Stmt.allFree ss \ s.name?.toFinset)

end

mutual

theorem Expr.scoped_iff {G : Set String} : ∀ e : Expr, e.Scoped G ↔ ↑e.free ⊆ G
  | .ident name => by simp [Expr.Scoped, Expr.free]
  | .int _ | .str _ | .bool _ => by simp [Expr.Scoped, Expr.free]
  | .unary _ operand => operand.scoped_iff
  | .binary _ left right => by
    simp [Expr.Scoped, Expr.free, left.scoped_iff, right.scoped_iff]
  | .cond condition consequence none => by
    simp [Expr.Scoped, Expr.free, condition.scoped_iff, Stmt.allScoped_iff consequence]
  | .cond condition consequence (some alternative) => by
    simp [Expr.Scoped, Expr.free, condition.scoped_iff, Stmt.allScoped_iff consequence,
      Stmt.allScoped_iff alternative]
  | .fn params body => by
    simp [Expr.Scoped, Expr.free, Stmt.allScoped_iff body, Set.union_comm]
  | .call callee args => by
    simp [Expr.Scoped, Expr.free, callee.scoped_iff, Expr.allScoped_iff args]

theorem Expr.allScoped_iff {G : Set String} :
    ∀ es : List Expr, Expr.AllScoped G es ↔ ↑(Expr.allFree es) ⊆ G
  | [] => by simp [Expr.AllScoped, Expr.allFree]
  | e :: es => by simp [Expr.AllScoped, Expr.allFree, e.scoped_iff, Expr.allScoped_iff es]

theorem Stmt.scoped_iff {G : Set String} : ∀ s : Stmt, s.Scoped G ↔ ↑s.free ⊆ G
  | .bind _ value | .ret value | .expr value => value.scoped_iff

theorem Stmt.allScoped_iff {G : Set String} :
    ∀ ss : List Stmt, Stmt.AllScoped G ss ↔ ↑(Stmt.allFree ss) ⊆ G
  | [] => by simp [Stmt.AllScoped, Stmt.allFree]
  | s :: ss => by
    have hname : (↑s.name?.toFinset : Set String) = {x | x ∈ s.name?} := by
      ext x
      simp
    simp [Stmt.AllScoped, Stmt.allFree, s.scoped_iff, Stmt.allScoped_iff ss, hname,
      Set.union_comm]

end

end Monkey
