import Monkey.Program.Printer
import Mathlib.Data.List.Basic

/-! # What a printer writes

Programs, blocks, statements and expressions are the nodes of one tree. A printer writes
a line for each node in pre-order, indented by the ancestors of the node, and is then as
deep as it was. So it starts every node that it visits at the same depth, and what it
writes for a part of a program is what a new printer writes for that part, further in.
-/

namespace Monkey

/-- A node of the tree of a program. -/
inductive Node
  | program (p : Program)
  | block (b : Block)
  | statement (s : Stmt)
  | expression (e : Expr)

namespace Node

/-- The nodes directly below a node, in the order of the text. -/
def children : Node → List Node
  | program p => p.map statement
  | block b => b.map statement
  | statement (.bind _ value) | statement (.ret value) | statement (.expr value) =>
    [expression value]
  | expression (.ident _) | expression (.int _) | expression (.str _) | expression (.bool _) => []
  | expression (.unary _ operand) => [expression operand]
  | expression (.binary _ left right) => [expression left, expression right]
  | expression (.cond condition consequence none) => [expression condition, block consequence]
  | expression (.cond condition consequence (some alternative)) =>
    [expression condition, block consequence, block alternative]
  | expression (.fn _ body) => [block body]
  | expression (.call callee args) => expression callee :: args.map expression

/-- What the line of a node says about it. -/
def label : Node → String
  | program _ => "Program"
  | block _ => "BlockStatement"
  | statement (.bind name _) => "LetStatement " ++ name
  | statement (.ret _) => "ReturnStatement"
  | statement (.expr _) => "ExpressionStatement"
  | expression (.ident name) => "Identifier " ++ name
  | expression (.int value) => "IntegerLiteral " ++ value.toText
  | expression (.str value) => "StringLiteral " ++ Text.quote value
  | expression (.bool value) => "BooleanLiteral " ++ if value then "true" else "false"
  | expression (.unary op _) => "PrefixExpression " ++ op.symbol
  | expression (.binary op _ _) => "InfixExpression " ++ op.symbol
  | expression (.cond ..) => "IfExpression"
  | expression (.fn params _) => "FunctionLiteral (" ++ commaSeparated params ++ ")"
  | expression (.call ..) => "CallExpression"

/-- Prints a node. -/
def print : Node → Printer String
  | program p => p.print
  | block b => b.print
  | statement s => s.print
  | expression e => e.print

/-- The outline of a node. -/
def outline : Node → Outline
  | program p => p.outline
  | block b => b.outline
  | statement s => s.outline
  | expression e => e.outline

theorem sizeOf_children {n c : Node} (h : c ∈ n.children) : sizeOf c < sizeOf n := by
  unfold children at h
  split at h <;> grind [→ List.sizeOf_lt_of_mem]

/-- What holds of a node if it holds of the nodes below it, holds of every node. -/
theorem induction {motive : Node → Prop} (step : ∀ n, (∀ c ∈ n.children, motive c) → motive n)
    (n : Node) : motive n :=
  step n fun c hc =>
    have _hlt := sizeOf_children hc
    induction step c
termination_by sizeOf n

/-- A node and all below it in pre-order, each with how many ancestors it has. -/
def preorder (depth : Nat) (n : Node) : List (Nat × Node) :=
  (depth, n) :: n.children.attach.flatMap fun c => preorder (depth + 1) c.1
termination_by sizeOf n
decreasing_by exact sizeOf_children c.2

/-- The lines of a node and all below it. -/
def lines (depth : Nat) (n : Node) : List String :=
  (n.preorder depth).map fun (ancestors, m) => Outline.indented ancestors m.label

theorem preorder_eq (depth : Nat) (n : Node) :
    n.preorder depth = (depth, n) :: n.children.flatMap (preorder (depth + 1)) := by
  rw [preorder, List.flatMap_subtype (g := preorder (depth + 1)) fun _ _ => rfl,
    List.unattach_attach]

theorem lines_eq (depth : Nat) (n : Node) :
    n.lines depth =
      Outline.indented depth n.label :: n.children.flatMap (lines (depth + 1)) := by
  rw [lines, preorder_eq, List.map_cons, List.map_flatMap]
  rfl

/-! ## Printing -/

theorem printAll_statements (ss : List Stmt) :
    Stmt.printAll ss = (ss.map statement).mapM print := by
  induction ss with
  | nil => rfl
  | cons s ss ih =>
    rw [Stmt.printAll, ih, List.map_cons, List.mapM_cons]
    rfl

theorem printAll_expressions (es : List Expr) :
    Expr.printAll es = (es.map expression).mapM print := by
  induction es with
  | nil => rfl
  | cons e es ih =>
    rw [Expr.printAll, ih, List.map_cons, List.mapM_cons]
    rfl

end Node

namespace Printer

variable {α β : Type}

/-- A line is a node without children. -/
theorem line_eq_node (label : String) : line label = node label (return []) := by
  funext depth
  change (Outline.indented depth label, depth) =
    ("\n".intercalate [Outline.indented depth label], depth + 1 - 1)
  rw [String.intercalate_singleton, Nat.add_sub_cancel]

/-- A printer is as deep after a node as it was before, if its children leave it so. -/
theorem run_node {label : String} {children : Printer (List String)} {depth : Nat}
    {below : List String} (h : children.run (depth + 1) = (below, depth + 1)) :
    (node label children).run depth =
      ("\n".intercalate (Outline.indented depth label :: below), depth) := by
  change ("\n".intercalate (_ :: (children.run (depth + 1)).1),
    (children.run (depth + 1)).2 - 1) = _
  rw [h, Nat.add_sub_cancel]

theorem run_mapM {f : α → Printer β} {g : α → β} {depth : Nat} {as : List α}
    (h : ∀ a ∈ as, (f a).run depth = (g a, depth)) :
    (as.mapM f).run depth = (as.map g, depth) := by
  induction as with
  | nil => rfl
  | cons a as ih =>
    rw [List.forall_mem_cons] at h
    rw [List.mapM_cons, StateT.run_bind, h.1]
    change ((as.mapM f >>= fun bs => pure (g a :: bs)).run depth) = _
    rw [StateT.run_bind, ih h.2]
    rfl

end Printer

/-- Texts of several lines each, joined as lines, are joined from all of their lines. -/
theorem Text.intercalate_flatMap {α : Type} {f : α → List String} (hf : ∀ a, f a ≠ [])
    (sep head : String) (as : List α) :
    sep.intercalate (head :: as.map fun a => sep.intercalate (f a)) =
      sep.intercalate (head :: as.flatMap f) := by
  induction as generalizing head with
  | nil => rfl
  | cons a as ih =>
    have hjoin (ls : List String) :
        sep.intercalate (sep.intercalate (f a) :: ls) = sep.intercalate (f a ++ ls) := by
      cases ls with
      | nil => rw [String.intercalate_singleton, List.append_nil]
      | cons l ls =>
        rw [String.intercalate_cons_cons,
          String.intercalate_append_of_ne_nil (hf a) (List.cons_ne_nil l ls)]
    rw [List.map_cons, String.intercalate_cons_cons, ih, hjoin, List.flatMap_cons,
      String.intercalate_cons_of_ne_nil (by simp [hf a])]

theorem Outline.linesOfAll_eq (depth : Nat) (os : List Outline) :
    Outline.linesOfAll depth os = os.flatMap (Outline.lines depth) := by
  induction os with
  | nil => rfl
  | cons o os ih => rw [Outline.linesOfAll, ih, List.flatMap_cons]

namespace Node

open Printer

/-- Every node is printed in one way: a line for it, and below it what its children give. -/
theorem print_eq (n : Node) : n.print = node n.label (n.children.mapM print) := by
  cases n with
  | program p => exact congrArg (node _) (printAll_statements p)
  | block b => exact congrArg (node _) (printAll_statements b)
  | statement s => cases s <;> rfl
  | expression e =>
    cases e with
    | ident | int | str | bool => exact line_eq_node _
    | cond condition consequence alternative => cases alternative <;> rfl
    | call callee args =>
      rw [children, List.mapM_cons, ← printAll_expressions]
      rfl
    | _ => rfl

/-- A printer writes the lines of a node from the depth it is at, and stays there. -/
theorem run_print (n : Node) (depth : Nat) :
    n.print.run depth = ("\n".intercalate (n.lines depth), depth) := by
  induction n using Node.induction generalizing depth with
  | step n ih =>
    have hbelow := run_mapM fun c hc => ih c hc (depth + 1)
    rw [print_eq, run_node hbelow, Text.intercalate_flatMap (by simp [lines_eq]), ← lines_eq]

theorem fresh_print (n : Node) : fresh n.print = "\n".intercalate (n.lines 0) := by
  rw [fresh, run_print]

/-- A printer that visits nodes in turn writes for each what a new printer writes for it. -/
theorem run_mapM_print (ns : List Node) :
    (ns.mapM print).run 0 = (ns.map fun n => fresh n.print, 0) :=
  run_mapM fun n _ => by rw [run_print, fresh_print]

/-! ## Outlines -/

theorem outlines_statements (ss : List Stmt) :
    Stmt.outlines ss = (ss.map statement).map outline := by
  induction ss with
  | nil => rfl
  | cons s ss ih =>
    rw [Stmt.outlines, ih]
    rfl

theorem outlines_expressions (es : List Expr) :
    Expr.outlines es = (es.map expression).map outline := by
  induction es with
  | nil => rfl
  | cons e es ih =>
    rw [Expr.outlines, ih]
    rfl

theorem outline_eq (n : Node) : n.outline = .node n.label (n.children.map outline) := by
  cases n with
  | program p => exact congrArg (Outline.node _) (outlines_statements p)
  | block b => exact congrArg (Outline.node _) (outlines_statements b)
  | statement s => cases s <;> rfl
  | expression e =>
    cases e with
    | cond condition consequence alternative => cases alternative <;> rfl
    | call callee args =>
      rw [children, List.map_cons, ← outlines_expressions]
      rfl
    | _ => rfl

theorem lines_outline (n : Node) (depth : Nat) : n.outline.lines depth = n.lines depth := by
  induction n using Node.induction generalizing depth with
  | step n ih =>
    rw [outline_eq, Outline.lines, Outline.linesOfAll_eq, List.flatMap_map, lines_eq]
    exact congrArg _ (List.flatMap_congr fun c hc => ih c hc (depth + 1))

/-- Printing gives the text of the outline. -/
theorem fresh_print_eq_render (n : Node) : fresh n.print = n.outline.render := by
  rw [fresh_print, Outline.render, lines_outline]

/-! ## Parts of a program -/

theorem preorder_add (n : Node) (d e : Nat) :
    n.preorder (d + e) = (n.preorder e).map fun (k, m) => (d + k, m) := by
  induction n using Node.induction generalizing e with
  | step n ih =>
    rw [preorder_eq, preorder_eq, List.map_cons, List.map_flatMap, Nat.add_assoc]
    exact congrArg _ (List.flatMap_congr fun c hc => ih c hc (e + 1))

theorem indented_add (d e : Nat) (label : String) :
    Outline.indented (d + e) label = Outline.indented d (Outline.indented e label) := by
  simp only [Outline.indented, Nat.mul_add, List.replicate_add, String.ofList_append,
    String.append_assoc]

/-- Deeper lines of a node are its lines with more indents in front. -/
theorem lines_eq_map_indented (n : Node) (depth : Nat) :
    n.lines depth = (n.lines 0).map (Outline.indented depth) := by
  have hshift := n.preorder_add depth 0
  rw [Nat.add_zero] at hshift
  rw [lines, lines, hshift, List.map_map, List.map_map]
  exact List.map_congr_left fun _ _ => indented_add _ _ _

/-- What stands below a node in pre-order is the pre-order of that node. -/
theorem preorder_of_split {n m : Node} {d e : Nat} {before after : List (Nat × Node)}
    (h : n.preorder e = before ++ (d, m) :: after) :
    ∃ rest, (d, m) :: after = m.preorder d ++ rest := by
  induction n using Node.induction generalizing e before after with
  | step n ih =>
    have hchildren {cs : List Node} (hcs : ∀ c ∈ cs, c ∈ n.children)
        {before after : List (Nat × Node)}
        (h : cs.flatMap (preorder (e + 1)) = before ++ (d, m) :: after) :
        ∃ rest, (d, m) :: after = m.preorder d ++ rest := by
      induction cs generalizing before after with
      | nil => simp at h
      | cons c cs ihcs =>
        rw [List.forall_mem_cons] at hcs
        rw [List.flatMap_cons, List.append_eq_append_iff] at h
        rcases h with ⟨as, rfl, htail⟩ | ⟨bs, hc, hafter⟩
        · exact ihcs hcs.2 htail
        · cases bs with
          | nil =>
            have htail : cs.flatMap (preorder (e + 1)) = [] ++ (d, m) :: after := hafter.symm
            exact ihcs hcs.2 htail
          | cons b bs =>
            rw [List.cons_append, List.cons.injEq] at hafter
            obtain ⟨rfl, rfl⟩ := hafter
            obtain ⟨rest, hrest⟩ := ih c hcs.1 hc
            exact ⟨rest ++ _, by rw [← List.cons_append, hrest, List.append_assoc]⟩
    rw [preorder_eq] at h
    cases before with
    | nil =>
      cases h
      exact ⟨[], by rw [List.append_nil, preorder_eq]⟩
    | cons b before => exact hchildren (fun _ hc => hc) (List.cons.inj h).2

end Node

end Monkey
