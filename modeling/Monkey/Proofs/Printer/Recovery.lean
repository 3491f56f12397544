import Monkey.Proofs.Printer.Labels
import Monkey.Proofs.Syntax.Image

/-! # Programs are recovered from their printed lines

The lines of a printed program are the lines of its nodes, for no label holds the end of
a line. A label does not begin with a space, so a line tells how many ancestors its node
has. Whatever stands below a node stands deeper, up to the next line that does not: so
the lines tell the nodes, and no two programs of texts are printed alike.
-/

namespace Monkey

/-- The lines of a text, which line feeds separate. -/
def Text.rows (s : String) : List String :=
  (s.toList.splitOn '\n').map String.ofList

theorem Text.rows_intercalate {ls : List String} (hls : ls ≠ [])
    (h : ∀ l ∈ ls, '\n' ∉ l.toList) : rows ("\n".intercalate ls) = ls := by
  have hsplit : ("\n".toList.intercalate (ls.map String.toList)).splitOn '\n' =
      ls.map String.toList :=
    List.splitOn_intercalate '\n' (List.forall_mem_map.2 h) (mt List.map_eq_nil_iff.1 hls)
  rw [rows, String.toList_intercalate, hsplit, List.map_map]
  exact List.map_id'' (fun _ => String.ofList_toList) ls

namespace Outline

/-- How many ancestors a line shows, and its label. -/
def split (line : String) : Nat × String :=
  ((line.toList.takeWhile (· = ' ')).length / 2,
    String.ofList (line.toList.dropWhile (· = ' ')))

theorem split_indented {label : String} (h : label.toList.head? ≠ some ' ') (depth : Nat) :
    split (indented depth label) = (depth, label) := by
  have hspaces : (indented depth label).toList =
      List.replicate (2 * depth) ' ' ++ label.toList := by
    rw [indented, String.toList_append, String.toList_ofList]
  have htake : (indented depth label).toList.takeWhile (· = ' ') =
      List.replicate (2 * depth) ' ' := by
    rw [hspaces, List.takeWhile_append_of_pos (by simp)]
    cases hlabel : label.toList with
    | nil => simp
    | cons c cs =>
      have hc : c ≠ ' ' := fun hc => h (by rw [hlabel, hc]; rfl)
      simp [hc]
  have hdrop : (indented depth label).toList.dropWhile (· = ' ') = label.toList := by
    have happend : (indented depth label).toList.takeWhile (· = ' ') ++
        (indented depth label).toList.dropWhile (· = ' ') = (indented depth label).toList :=
      List.takeWhile_append_dropWhile
    rw [htake] at happend
    exact List.append_cancel_left (happend.trans hspaces)
  rw [split, htake, hdrop, List.length_replicate, String.ofList_toList,
    Nat.mul_div_cancel_left depth (by decide)]

end Outline

namespace Node

theorem print_program (p : Program) : (program p).print = p.print := rfl

theorem wellFormed_of_mem_preorder {n m : Node} {d e : Nat} (h : n.WellFormed)
    (hm : (d, m) ∈ n.preorder e) : m.WellFormed := by
  induction n using Node.induction generalizing e with
  | step n ih =>
    rw [preorder_eq, List.mem_cons, List.mem_flatMap] at hm
    rcases hm with heq | ⟨c, hc, hm⟩
    · cases heq
      exact h
    · exact ih c hc (h.of_mem_children hc) hm

theorem newline_not_mem_lines {n : Node} (h : n.WellFormed) (depth : Nat) :
    ∀ l ∈ n.lines depth, '\n' ∉ l.toList := by
  intro l hl
  obtain ⟨⟨d, m⟩, hm, rfl⟩ := List.mem_map.1 hl
  have hlabel := newline_not_mem_label (wellFormed_of_mem_preorder h hm)
  simp [Outline.indented, hlabel]

/-- What is printed for a node are its lines. -/
theorem rows_fresh_print {n : Node} (h : n.WellFormed) :
    Text.rows (Printer.fresh n.print) = n.lines 0 := by
  rw [fresh_print, Text.rows_intercalate _ (newline_not_mem_lines h 0)]
  rw [lines_eq]
  exact List.cons_ne_nil _ _

/-! ## From lines to nodes -/

/-- The labels of a node and all below it in pre-order, each with how many ancestors it has. -/
def labels (depth : Nat) (n : Node) : List (Nat × String) :=
  (n.preorder depth).map fun (ancestors, m) => (ancestors, m.label)

theorem labels_eq (depth : Nat) (n : Node) :
    n.labels depth = (depth, n.label) :: n.children.flatMap (labels (depth + 1)) := by
  rw [labels, preorder_eq, List.map_cons, List.map_flatMap]
  rfl

theorem map_split_lines (depth : Nat) (n : Node) :
    (n.lines depth).map Outline.split = n.labels depth := by
  rw [lines, labels, List.map_map]
  exact List.map_congr_left fun l _ => Outline.split_indented l.2.head?_label l.1

/-- Whether labels are not below a node with `depth` ancestors. -/
def Outside (depth : Nat) (labels : List (Nat × String)) : Prop :=
  ∀ l ∈ labels.head?, l.1 ≤ depth

theorem Outside.flatMap_labels {depth : Nat} {ps : List (Nat × String)} (h : Outside depth ps)
    (ns : List Node) : Outside (depth + 1) (ns.flatMap (labels (depth + 1)) ++ ps) := by
  intro l hl
  cases ns with
  | nil => exact Nat.le_succ_of_le (h l hl)
  | cons n ns =>
    rw [List.flatMap_cons, labels_eq] at hl
    cases hl
    exact Nat.le_refl _

/-- Whether a node can be told from its labels, where nothing below it is missing. -/
def Told (n : Node) : Prop :=
  ∀ (m : Node) (depth : Nat) (ps qs : List (Nat × String)), m.WellFormed → Outside depth ps →
    Outside depth qs → n.labels depth ++ ps = m.labels depth ++ qs → n = m ∧ ps = qs

theorem labels_all_inj {ns ms : List Node} {depth : Nat} {ps qs : List (Nat × String)}
    (hns : ∀ n ∈ ns, n.Told) (hms : ∀ m ∈ ms, m.WellFormed) (hps : Outside depth ps)
    (hqs : Outside depth qs)
    (heq : ns.flatMap (labels (depth + 1)) ++ ps = ms.flatMap (labels (depth + 1)) ++ qs) :
    ns = ms ∧ ps = qs := by
  -- What is outside does not begin like one more child, for the label of a child is deeper.
  have hne (n : Node) (ns : List Node) {rs us : List (Nat × String)} (hrs : Outside depth rs) :
      rs ≠ (n :: ns).flatMap (labels (depth + 1)) ++ us := by
    rintro rfl
    have hle := hrs (depth + 1, n.label) (by rw [List.flatMap_cons, labels_eq]; rfl)
    omega
  induction ns generalizing ms with
  | nil =>
    cases ms with
    | nil => exact ⟨rfl, heq⟩
    | cons m ms => exact absurd heq (hne m ms hps)
  | cons n ns ih =>
    cases ms with
    | nil => exact absurd heq.symm (hne n ns hqs)
    | cons m ms =>
      rw [List.forall_mem_cons] at hns hms
      rw [List.flatMap_cons, List.flatMap_cons, List.append_assoc, List.append_assoc] at heq
      obtain ⟨rfl, hrest⟩ := hns.1 m (depth + 1) _ _ hms.1 (hps.flatMap_labels ns)
        (hqs.flatMap_labels ms) heq
      obtain ⟨rfl, rfl⟩ := ih hns.2 hms.2 hrest
      exact ⟨rfl, rfl⟩

theorem told {n : Node} (h : n.WellFormed) : n.Told := by
  induction n using Node.induction with
  | step n ih =>
    intro m depth ps qs hm hps hqs heq
    rw [labels_eq, labels_eq, List.cons_append, List.cons_append, List.cons.injEq] at heq
    obtain ⟨hlabel, hbelow⟩ := heq
    obtain ⟨hchildren, rfl⟩ := labels_all_inj (fun c hc => ih c hc (h.of_mem_children hc))
      (fun _ hc => hm.of_mem_children hc) hps hqs hbelow
    exact ⟨eq_of_label h hm (congrArg Prod.snd hlabel) hchildren, rfl⟩

/-- Nodes that are printed alike are the same. -/
theorem eq_of_fresh_print {n m : Node} (hn : n.WellFormed) (hm : m.WellFormed)
    (h : Printer.fresh n.print = Printer.fresh m.print) : n = m := by
  have hlines : n.lines 0 = m.lines 0 := by
    rw [← rows_fresh_print hn, h, rows_fresh_print hm]
  have hlabels : n.labels 0 = m.labels 0 := by
    rw [← map_split_lines, hlines, map_split_lines]
  exact (told hn m 0 [] [] hm nofun nofun (congrArg (· ++ []) hlabels)).1

end Node

namespace Program

open Node

/--
A printed program has one line for each of its nodes, in pre-order, with two spaces for each
ancestor of the node. What is printed for a part of it are the lines of the part without the
spaces that all of them have, for a printer starts every node that it visits alike. No other
program that a text spells is printed like it.
-/
theorem print_faithful {source : String} {p : Program} (hp : ofSource source = .ok p) :
    Text.rows (Printer.fresh p.print) =
        ((program p).preorder 0).map (fun (depth, n) => Outline.indented depth n.label) ∧
      (∀ before depth n after, (program p).preorder 0 = before ++ (depth, n) :: after →
        Text.rows (Printer.fresh n.print) = n.lines 0 ∧
          ∃ rest, Text.rows (Printer.fresh p.print) =
            before.map (fun (depth, n) => Outline.indented depth n.label) ++
              ((Text.rows (Printer.fresh n.print)).map (Outline.indented depth) ++ rest)) ∧
      (∀ ns : List Node,
        (ns.mapM Node.print).run 0 = (ns.map fun n => Printer.fresh n.print, 0)) ∧
      ∀ other q, ofSource other = .ok q →
        Printer.fresh q.print = Printer.fresh p.print → q = p := by
  have hwell : (program p).WellFormed := wellFormed_of_ofSource hp
  have hrows := rows_fresh_print hwell
  rw [print_program] at hrows
  refine ⟨hrows, fun before depth n after hsplit => ?_, run_mapM_print, fun other q hq heq => ?_⟩
  · have hmem : (depth, n) ∈ (program p).preorder 0 := by
      rw [hsplit]
      exact List.mem_append_right _ List.mem_cons_self
    have hn := wellFormed_of_mem_preorder hwell hmem
    obtain ⟨rest, hrest⟩ := preorder_of_split hsplit
    refine ⟨rows_fresh_print hn, rest.map fun (depth, n) => Outline.indented depth n.label, ?_⟩
    rw [hrows, rows_fresh_print hn, ← lines_eq_map_indented, lines, hsplit, hrest, List.map_append,
      List.map_append]
    rfl
  · have hwell' : (program q).WellFormed := wellFormed_of_ofSource hq
    rw [← print_program, ← print_program] at heq
    exact program.inj (eq_of_fresh_print hwell' hwell heq)

/-- A call and a conditional whose alternative is empty. -/
theorem print_faithful_conditional :
    let p : Program := [.expr (.call (.ident "f") [.bool true]),
      .ret (.cond (.ident "x") [.expr (.int 1)] (some []))]
    ofSource p.source = .ok p ∧ Text.rows (Printer.fresh p.print) =
        ["Program", "  ExpressionStatement", "    CallExpression", "      Identifier f",
          "      BooleanLiteral true", "  ReturnStatement", "    IfExpression",
          "      Identifier x", "      BlockStatement", "        ExpressionStatement",
          "          IntegerLiteral 1", "      BlockStatement"] ∧
      ∀ other q, ofSource other = .ok q →
        Printer.fresh q.print = Printer.fresh p.print → q = p := by
  intro p
  have hf : IsName "f" := ⟨⟨'f', [], rfl, by decide, nofun⟩, by decide⟩
  have hx : IsName "x" := ⟨⟨'x', [], rfl, by decide, nofun⟩, by decide⟩
  have hwell : Stmt.AllWellFormed p := by
    simp [p, Stmt.AllWellFormed, Stmt.WellFormed, Expr.WellFormed, Expr.AllWellFormed, hf, hx]
  have hp : ofSource p.source = .ok p := ofSource_source hwell
  obtain ⟨hrows, -, -, hinj⟩ := print_faithful hp
  refine ⟨hp, hrows.trans ?_, hinj⟩
  simp only [p, preorder_eq, children, Nat.zero_add, Nat.reduceAdd, List.map_cons, List.map_nil,
    List.flatMap_cons, List.flatMap_nil, List.append_nil, List.cons_append, List.nil_append]
  decide +kernel

end Program

end Monkey
