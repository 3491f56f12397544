import Monkey.Program.Json
import Monkey.Proofs.Json.Changes
import Monkey.Token.Json

/-! # Programs and tokens read back from JSON

What was written reads back as the same program or the same tokens, however the encoding
was changed without losing anything, and it does not read back at all once any member but
an alternative was lost, at whatever depth.
-/

namespace Monkey

open Json (Changed ItemsChanged Found)

/-! ## What readers do with changed encodings -/

namespace Json

variable {α β : Type} {lost lost' : Bool} {a : α}

/-- Whether a reader gives `a`, or gives nothing when something was lost. -/
def Reads (lost : Bool) (r : Option α) (a : α) : Prop :=
  r = if lost then none else some a

theorem Reads.bind {r : Option α} {f : α → Option β} {b : β} (hr : Reads lost r a)
    (hf : Reads lost' (f a) b) : Reads (lost || lost') (r.bind f) b := by
  rw [Reads] at hr hf ⊢
  rw [hr]
  cases lost
  · exact hf
  · rfl

/-- What is put together last loses nothing more. -/
theorem Reads.last {r : Option α} (hr : Reads lost r a) (f : α → β) :
    Reads lost (r.bind fun x => some (f x)) (f a) := by
  rw [Reads] at hr ⊢
  rw [hr]
  cases lost <;> rfl

/-- A member is read as it was written if it is found. -/
theorem Found.reads {name : String} {v : Json} {r : Option Json} {d : Json → Option α}
    (h : Found lost name v r) (hname : name ≠ "alternative")
    (hd : ∀ lost v', Changed lost v v' → Reads lost (d v') a) : Reads lost (r.bind d) a := by
  cases h with
  | kept hv => exact hd _ _ hv
  | unset => exact absurd rfl hname
  | lost => rfl

/-- A variant is read as it was written if it is there at all. -/
theorem Changed.reads_variant {tag : String} {content j : Json} {d : Json → Option α}
    (h : Changed lost (.obj [(tag, content)]) j) (htag : [tag] ∉ records)
    (hne : tag ≠ "alternative") (hempty : d (.obj []) = none)
    (hd : ∀ lost content', Changed lost content content' →
      Reads lost (d (.obj [(tag, content')])) a) : Reads lost (d j) a := by
  rcases h.variant htag hne with ⟨rfl, rfl⟩ | ⟨content', rfl, hcontent⟩
  · exact hempty
  · exact hd _ _ hcontent

theorem Changed.items {items : List Json} {j : Json} (h : Changed lost (.arr items) j) :
    ∃ items', j = .arr items' ∧ ItemsChanged lost items items' := by
  cases h with
  | same => exact ⟨items, rfl, .same items⟩
  | arr hitems => exact ⟨_, rfl, hitems⟩

theorem ItemsChanged.reads {items : List Json} {xs : List α} {f : α → Json}
    {d : Json → Option α} (h : ItemsChanged lost (xs.map f) items)
    (hd : ∀ x ∈ xs, ∀ lost j, Changed lost (f x) j → Reads lost (d j) x) :
    Reads lost (items.mapM d) xs := by
  induction xs generalizing lost items with
  | nil =>
    cases h
    rfl
  | cons x xs ih =>
    cases h with
    | @cons lost lost' _ j _ items hj hitems =>
      have hx := hd x List.mem_cons_self _ _ hj
      have hxs := ih hitems fun y hy => hd y (List.mem_cons_of_mem _ hy)
      rw [List.mapM_cons]
      exact hx.bind (hxs.last fun ys => x :: ys)

theorem statements?_obj (ms : List (String × Json)) :
    (obj ms).statements? = (ms.lookup "statements").bind arr? := by
  unfold statements?
  simp only [record?, List.mapM_cons, List.mapM_nil]
  cases ms.lookup "statements" with
  | none => rfl
  | some v => cases v <;> rfl

end Json

open Json (Reads)

/-! ## Parts of programs -/

theorem UnaryOp.reads_of_changed (op : UnaryOp) {lost : Bool} {j : Json}
    (h : Changed lost (.str op.name) j) : Reads lost (UnaryOp.ofJson? j) op := by
  cases h
  cases op <;> rfl

theorem BinaryOp.reads_of_changed (op : BinaryOp) {lost : Bool} {j : Json}
    (h : Changed lost (.str op.name) j) : Reads lost (BinaryOp.ofJson? j) op := by
  cases h
  cases op <;> rfl

theorem Json.reads_text (text : String) {lost : Bool} {j : Json}
    (h : Changed lost (.str text) j) : Reads lost j.str? text := by
  cases h
  rfl

theorem Json.reads_texts (texts : List String) {lost : Bool} {j : Json}
    (h : Changed lost (.arr (texts.map .str)) j) :
    Reads lost (j.arr?.bind fun items => items.mapM Json.str?) texts := by
  obtain ⟨items, rfl, hitems⟩ := h.items
  exact hitems.reads fun text _ _ _ => Json.reads_text text

/-- The alternative of a conditional, which may be null or absent. -/
def Block.ofAlternative? : Option Json → Option (Option Block)
  | none | some .null => some none
  | some j => (Block.ofJson? j).map some

theorem Block.ofAlternative?_some {j : Json} (hj : j ≠ .null) :
    Block.ofAlternative? (some j) = (Block.ofJson? j).map some := by
  cases j <;> first | rfl | exact absurd rfl hj

/-! ## One equation for each form -/

section

variable (content : Json)

theorem Expr.ofJson?_nothing : Expr.ofJson? (.obj []) = none := by
  rw [Expr.ofJson?]
  rfl

theorem Expr.ofJson?_ident : Expr.ofJson? (.obj [("Identifier", content)]) =
    content.str?.bind fun x => some (.ident x) := by
  rw [Expr.ofJson?]
  simp [Json.variant?]

theorem Expr.ofJson?_int : Expr.ofJson? (.obj [("IntegerLiteral", content)]) =
    (content.int?.bind Integer.ofInt?).bind fun n => some (.int n) := by
  rw [Expr.ofJson?]
  simp [Json.variant?, Option.bind_assoc]

theorem Expr.ofJson?_str : Expr.ofJson? (.obj [("StringLiteral", content)]) =
    content.str?.bind fun s => some (.str s) := by
  rw [Expr.ofJson?]
  simp [Json.variant?]

theorem Expr.ofJson?_bool : Expr.ofJson? (.obj [("BooleanLiteral", content)]) =
    content.bool?.bind fun b => some (.bool b) := by
  rw [Expr.ofJson?]
  simp [Json.variant?]

theorem Expr.ofJson?_unary : Expr.ofJson? (.obj [("Prefix", content)]) =
    ((content.member? "operator").bind UnaryOp.ofJson?).bind fun op =>
    ((content.member? "operand").bind Expr.ofJson?).bind fun operand =>
    some (.unary op operand) := by
  rw [Expr.ofJson?]
  simp [Json.variant?, Option.bind_assoc]

theorem Expr.ofJson?_binary : Expr.ofJson? (.obj [("Infix", content)]) =
    ((content.member? "left").bind Expr.ofJson?).bind fun left =>
    ((content.member? "operator").bind BinaryOp.ofJson?).bind fun op =>
    ((content.member? "right").bind Expr.ofJson?).bind fun right =>
    some (.binary op left right) := by
  rw [Expr.ofJson?]
  cases hleft : content.member? "left" <;> cases hop : content.member? "operator" <;>
    cases hright : content.member? "right" <;> simp [Json.variant?, hleft, hop, hright]
  exact Option.bind_comm ..

theorem Expr.ofJson?_cond : Expr.ofJson? (.obj [("If", content)]) =
    ((content.member? "condition").bind Expr.ofJson?).bind fun condition =>
    ((content.member? "consequence").bind Block.ofJson?).bind fun consequence =>
    (Block.ofAlternative? (content.member? "alternative")).bind fun alternative =>
    some (.cond condition consequence alternative) := by
  rw [Expr.ofJson?]
  cases hcondition : content.member? "condition" <;>
    cases hconsequence : content.member? "consequence" <;>
    simp [Json.variant?, hcondition, hconsequence]
  congr 1
  funext condition
  congr 1
  funext consequence
  split
  · next h => rw [Option.attach_eq_none_iff.1 h, Block.ofAlternative?, Option.bind_some]
  · next h _ => rw [h, Block.ofAlternative?, Option.bind_some]
  · next h hne _ =>
    rw [h, Block.ofAlternative?_some hne, Option.bind_map]
    rfl

theorem Expr.ofJson?_fn : Expr.ofJson? (.obj [("FunctionLiteral", content)]) =
    ((content.member? "parameters").bind fun j =>
      j.arr?.bind fun items => items.mapM Json.str?).bind fun params =>
    ((content.member? "body").bind Block.ofJson?).bind fun body => some (.fn params body) := by
  rw [Expr.ofJson?]
  simp [Json.variant?, Option.bind_assoc]

theorem Expr.ofJson?_call : Expr.ofJson? (.obj [("Call", content)]) =
    ((content.member? "function").bind Expr.ofJson?).bind fun callee =>
    ((content.member? "arguments").bind fun j => j.arr?.bind Expr.listOfJson?).bind fun args =>
    some (.call callee args) := by
  rw [Expr.ofJson?]
  cases hcallee : content.member? "function" <;> cases hargs : content.member? "arguments" <;>
    simp [Json.variant?, hcallee, hargs]
  next args => cases args.arr? <;> simp

theorem Stmt.ofJson?_nothing : Stmt.ofJson? (.obj []) = none := by
  rw [Stmt.ofJson?]
  rfl

theorem Stmt.ofJson?_bind : Stmt.ofJson? (.obj [("Let", content)]) =
    ((content.member? "name").bind Json.str?).bind fun name =>
    ((content.member? "value").bind Expr.ofJson?).bind fun value => some (.bind name value) := by
  rw [Stmt.ofJson?]
  simp [Json.variant?, Option.bind_assoc]

theorem Stmt.ofJson?_ret : Stmt.ofJson? (.obj [("Return", content)]) =
    (Expr.ofJson? content).bind fun value => some (.ret value) := by
  rw [Stmt.ofJson?]
  simp [Json.variant?]

theorem Stmt.ofJson?_expr : Stmt.ofJson? (.obj [("Expression", content)]) =
    (Expr.ofJson? content).bind fun value => some (.expr value) := by
  rw [Stmt.ofJson?]
  simp [Json.variant?]

theorem Block.ofJson?_eq : Block.ofJson? content =
    content.statements?.bind Stmt.listOfJson? := by
  rw [Block.ofJson?]
  simp

end

/-! ## Programs -/

theorem Block.reads_of_items {b : Block} {lost : Bool} {j : Json}
    (h : Changed lost (.ofStatements (Stmt.toJsonAll b)) j)
    (hb : ∀ lost items, ItemsChanged lost (Stmt.toJsonAll b) items →
      Reads lost (Stmt.listOfJson? items) b) : Reads lost (Block.ofJson? j) b := by
  obtain ⟨ms, rfl, _ | ⟨hstatements, _ | _⟩⟩ := h.members (by simp)
  rw [Block.ofJson?_eq, Json.statements?_obj, Option.bind_assoc, Bool.or_false]
  refine hstatements.reads (by decide) fun _ v hv => ?_
  obtain ⟨items, rfl, hitems⟩ := hv.items
  exact hb _ _ hitems

/-- An alternative that is null may be absent. -/
theorem Block.reads_noAlternative {lost : Bool} {r : Option Json}
    (h : Found lost "alternative" .null r) : Reads lost (Block.ofAlternative? r) none := by
  cases h with
  | kept hv =>
    cases hv
    rfl
  | unset => rfl
  | lost hne => exact absurd rfl hne

theorem Block.reads_alternative {b : Block} {lost : Bool} {r : Option Json}
    (h : Found lost "alternative" (.ofStatements (Stmt.toJsonAll b)) r)
    (hb : ∀ lost items, ItemsChanged lost (Stmt.toJsonAll b) items →
      Reads lost (Stmt.listOfJson? items) b) :
    Reads lost (Block.ofAlternative? r) (some b) := by
  cases h with
  | kept hv =>
    obtain ⟨ms, rfl, -⟩ := hv.members (by simp)
    rw [Block.ofAlternative?_some (by simp : Json.obj ms ≠ .null), Option.map_eq_bind]
    exact (Block.reads_of_items hv hb).last some
  | lost hne => exact absurd rfl hne

/-- A conditional, from what is known of its parts. -/
theorem Expr.reads_cond {condition : Expr} {consequence : Block} {alternative : Option Block}
    {lost : Bool} {v j : Json}
    (h : Changed lost (.obj [("If", .obj [("condition", condition.toJson),
      ("consequence", .ofStatements (Stmt.toJsonAll consequence)), ("alternative", v)])]) j)
    (hcondition : ∀ lost j, Changed lost condition.toJson j →
      Reads lost (Expr.ofJson? j) condition)
    (hconsequence : ∀ lost items, ItemsChanged lost (Stmt.toJsonAll consequence) items →
      Reads lost (Stmt.listOfJson? items) consequence)
    (halternative : ∀ lost r, Found lost "alternative" v r →
      Reads lost (Block.ofAlternative? r) alternative) :
    Reads lost (Expr.ofJson? j) (.cond condition consequence alternative) := by
  refine h.reads_variant (by decide) (by decide) Expr.ofJson?_nothing fun _ content hc => ?_
  obtain ⟨ms, rfl, _ | ⟨hfirst, _ | ⟨hsecond, _ | ⟨hthird, _ | _⟩⟩⟩⟩ := hc.members (by simp)
  rw [Expr.ofJson?_cond, Bool.or_false]
  refine (hfirst.reads (by decide) hcondition).bind ?_
  refine (hsecond.reads (by decide) fun _ _ hv => Block.reads_of_items hv hconsequence).bind ?_
  exact (halternative _ _ hthird).last _

mutual

theorem Expr.reads_of_changed (e : Expr) {lost : Bool} {j : Json}
    (h : Changed lost e.toJson j) : Reads lost (Expr.ofJson? j) e := by
  match e with
  | .ident x =>
    refine h.reads_variant (by decide) (by decide) Expr.ofJson?_nothing fun _ content hc => ?_
    rw [Expr.ofJson?_ident]
    exact (Json.reads_text x hc).last _
  | .int n =>
    refine h.reads_variant (by decide) (by decide) Expr.ofJson?_nothing fun _ content hc => ?_
    rw [Expr.ofJson?_int]
    cases hc
    have hn : (Json.int n.toInt).int?.bind Integer.ofInt? = some n := Integer.ofInt?_toInt n
    rw [hn]
    rfl
  | .str s =>
    refine h.reads_variant (by decide) (by decide) Expr.ofJson?_nothing fun _ content hc => ?_
    rw [Expr.ofJson?_str]
    exact (Json.reads_text s hc).last _
  | .bool b =>
    refine h.reads_variant (by decide) (by decide) Expr.ofJson?_nothing fun _ content hc => ?_
    rw [Expr.ofJson?_bool]
    cases hc
    rfl
  | .unary op operand =>
    refine h.reads_variant (by decide) (by decide) Expr.ofJson?_nothing fun _ content hc => ?_
    obtain ⟨ms, rfl, _ | ⟨hop, _ | ⟨hoperand, _ | _⟩⟩⟩ := hc.members (by simp)
    rw [Expr.ofJson?_unary, Bool.or_false]
    refine (hop.reads (by decide) fun _ _ => op.reads_of_changed).bind ?_
    exact (hoperand.reads (by decide) fun _ _ => operand.reads_of_changed).last _
  | .binary op left right =>
    refine h.reads_variant (by decide) (by decide) Expr.ofJson?_nothing fun _ content hc => ?_
    obtain ⟨ms, rfl, _ | ⟨hleft, _ | ⟨hop, _ | ⟨hright, _ | _⟩⟩⟩⟩ := hc.members (by simp)
    rw [Expr.ofJson?_binary, Bool.or_false]
    refine (hleft.reads (by decide) fun _ _ => left.reads_of_changed).bind ?_
    refine (hop.reads (by decide) fun _ _ => op.reads_of_changed).bind ?_
    exact (hright.reads (by decide) fun _ _ => right.reads_of_changed).last _
  | .cond condition consequence none =>
    exact Expr.reads_cond h (fun _ _ => condition.reads_of_changed)
      (fun _ _ => Stmt.allRead_of_changed consequence) fun _ _ => Block.reads_noAlternative
  | .cond condition consequence (some alternative) =>
    exact Expr.reads_cond h (fun _ _ => condition.reads_of_changed)
      (fun _ _ => Stmt.allRead_of_changed consequence) fun _ _ hr =>
        Block.reads_alternative hr fun _ _ => Stmt.allRead_of_changed alternative
  | .fn params body =>
    refine h.reads_variant (by decide) (by decide) Expr.ofJson?_nothing fun _ content hc => ?_
    obtain ⟨ms, rfl, _ | ⟨hparams, _ | ⟨hbody, _ | _⟩⟩⟩ := hc.members (by simp)
    rw [Expr.ofJson?_fn, Bool.or_false]
    refine (hparams.reads (by decide) fun _ _ => Json.reads_texts params).bind ?_
    refine (hbody.reads (by decide) fun _ _ hv => ?_).last _
    exact Block.reads_of_items hv fun _ _ => Stmt.allRead_of_changed body
  | .call callee args =>
    refine h.reads_variant (by decide) (by decide) Expr.ofJson?_nothing fun _ content hc => ?_
    obtain ⟨ms, rfl, _ | ⟨hcallee, _ | ⟨hargs, _ | _⟩⟩⟩ := hc.members (by simp)
    rw [Expr.ofJson?_call, Bool.or_false]
    refine (hcallee.reads (by decide) fun _ _ => callee.reads_of_changed).bind ?_
    refine (hargs.reads (by decide) fun _ _ hv => ?_).last _
    obtain ⟨items, rfl, hitems⟩ := hv.items
    exact Expr.allRead_of_changed args hitems

theorem Expr.allRead_of_changed (es : List Expr) {lost : Bool} {items : List Json}
    (h : ItemsChanged lost (Expr.toJsonAll es) items) : Reads lost (Expr.listOfJson? items) es := by
  match es, h with
  | [], .nil =>
    rw [Expr.listOfJson?]
    rfl
  | e :: es, .cons he hes =>
    rw [Expr.listOfJson?]
    exact (e.reads_of_changed he).bind ((Expr.allRead_of_changed es hes).last _)

theorem Stmt.reads_of_changed (s : Stmt) {lost : Bool} {j : Json}
    (h : Changed lost s.toJson j) : Reads lost (Stmt.ofJson? j) s := by
  match s with
  | .bind x value =>
    refine h.reads_variant (by decide) (by decide) Stmt.ofJson?_nothing fun _ content hc => ?_
    obtain ⟨ms, rfl, _ | ⟨hname, _ | ⟨hvalue, _ | _⟩⟩⟩ := hc.members (by simp)
    rw [Stmt.ofJson?_bind, Bool.or_false]
    refine (hname.reads (by decide) fun _ _ => Json.reads_text x).bind ?_
    exact (hvalue.reads (by decide) fun _ _ => value.reads_of_changed).last _
  | .ret value =>
    refine h.reads_variant (by decide) (by decide) Stmt.ofJson?_nothing fun _ content hc => ?_
    rw [Stmt.ofJson?_ret]
    exact (value.reads_of_changed hc).last _
  | .expr value =>
    refine h.reads_variant (by decide) (by decide) Stmt.ofJson?_nothing fun _ content hc => ?_
    rw [Stmt.ofJson?_expr]
    exact (value.reads_of_changed hc).last _

theorem Stmt.allRead_of_changed (ss : List Stmt) {lost : Bool} {items : List Json}
    (h : ItemsChanged lost (Stmt.toJsonAll ss) items) : Reads lost (Stmt.listOfJson? items) ss := by
  match ss, h with
  | [], .nil =>
    rw [Stmt.listOfJson?]
    rfl
  | s :: ss, .cons hs hss =>
    rw [Stmt.listOfJson?]
    exact (s.reads_of_changed hs).bind ((Stmt.allRead_of_changed ss hss).last _)

end

theorem Program.reads_of_changed (p : Program) {lost : Bool} {j : Json}
    (h : Changed lost p.toJson j) : Reads lost (Program.ofJson? j) p :=
  Block.reads_of_items h fun _ _ => Stmt.allRead_of_changed p

/-! ## Tokens -/

namespace Token

theorem Kind.reads_of_changed (k : Kind) {lost : Bool} {j : Json}
    (h : Changed lost (.str k.name) j) : Reads lost (Kind.ofJson? j) k := by
  cases h
  exact Kind.ofName?_name k

theorem reads_count {n : Nat} (hn : n < UInt64.size) {lost : Bool} {j : Json}
    (h : Changed lost (.int n) j) : Reads lost j.count? n := by
  cases h
  exact if_pos hn

theorem ofJson?_obj (ms : List (String × Json)) : Token.ofJson? (.obj ms) =
    ((ms.lookup "kind").bind Kind.ofJson?).bind fun kind =>
    ((ms.lookup "literal").bind Json.str?).bind fun literal =>
    ((ms.lookup "line").bind Json.count?).bind fun line =>
    ((ms.lookup "column").bind Json.count?).bind fun column =>
    some ⟨kind, literal, line, column⟩ := by
  unfold ofJson?
  simp only [Json.record?, List.mapM_cons, List.mapM_nil]
  cases ms.lookup "kind" <;> cases ms.lookup "literal" <;> cases ms.lookup "line" <;>
    cases ms.lookup "column" <;> simp

theorem reads_of_changed {t : Token} (hline : t.position.line < UInt64.size)
    (hcolumn : t.position.column < UInt64.size) {lost : Bool} {j : Json}
    (h : Changed lost t.toJson j) : Reads lost (Token.ofJson? j) t := by
  obtain ⟨ms, rfl, _ | ⟨hkind, _ | ⟨hliteral, _ | ⟨hl, _ | ⟨hc, _ | _⟩⟩⟩⟩⟩ := h.members (by simp)
  rw [ofJson?_obj, Bool.or_false]
  refine (hkind.reads (by decide) fun _ _ => Kind.reads_of_changed t.kind).bind ?_
  refine (hliteral.reads (by decide) fun _ _ => Json.reads_text t.literal).bind ?_
  refine (hl.reads (by decide) fun _ _ => reads_count hline).bind ?_
  exact (hc.reads (by decide) fun _ _ => reads_count hcolumn).last _

theorem listReads_of_changed {ts : List Token}
    (hts : ∀ t ∈ ts, t.position.line < UInt64.size ∧ t.position.column < UInt64.size)
    {lost : Bool} {j : Json} (h : Changed lost (.arr (ts.map toJson)) j) :
    Reads lost (listOfJson? j) ts := by
  obtain ⟨items, rfl, hitems⟩ := h.items
  exact hitems.reads fun t ht _ _ => reads_of_changed (hts t ht).1 (hts t ht).2

end Token

/--
Programs and tokens read back from what is written of them. They still do after any change that
loses nothing, and they do not read back at all when something was lost.
-/
theorem Json.reads_back :
    (∀ p : Program, Program.ofJson? p.toJson = some p ∧
      ∀ lost j, Changed lost p.toJson j → Program.ofJson? j = if lost then none else some p) ∧
    ∀ ts : List Token,
      (∀ t ∈ ts, t.position.line < UInt64.size ∧ t.position.column < UInt64.size) →
      Token.listOfJson? (.arr (ts.map Token.toJson)) = some ts ∧
        ∀ lost j, Changed lost (.arr (ts.map Token.toJson)) j →
          Token.listOfJson? j = if lost then none else some ts := by
  refine ⟨fun p => ⟨p.reads_of_changed (.same _), fun _ _ => p.reads_of_changed⟩, ?_⟩
  intro ts hts
  exact ⟨Token.listReads_of_changed hts (.same _), fun _ _ => Token.listReads_of_changed hts⟩

/--
A conditional whose members are swapped and whose null alternative is absent, in a program with a
member more; the same without the condition; and a token with its members in another order.
-/
theorem Json.reads_back_conditional :
    let p : Program := [.expr (.cond (.bool true) [.ret (.ident "x")] none)]
    let consequence : Json := .ofStatements (Stmt.toJsonAll [.ret (.ident "x")])
    let written (added members : List (String × Json)) : Json := .obj (added ++
      [("statements", .arr [.obj [("Expression", .obj [("If", .obj members)])]])])
    let token : Json := .obj [("column", .int 2), ("kind", .str "Int"), ("literal", .str "-"),
      ("line", .int 1)]
    p.toJson = written [] [("condition", (Expr.bool true).toJson), ("consequence", consequence),
        ("alternative", .null)] ∧
      Program.ofJson? (written [("comment", .arr [])] [("consequence", consequence),
        ("condition", (Expr.bool true).toJson)]) = some p ∧
      Program.ofJson? (written [("comment", .arr [])] [("consequence", consequence)]) = none ∧
      Token.listOfJson? (.arr [token]) = some [⟨.int, "-", ⟨1, 2⟩⟩] := by
  intro p consequence written token
  let condition : Json := (Expr.bool true).toJson
  have hvariant {lost : Bool} (tag : String) {j j' : Json} (h : Changed lost j j') :
      Changed (lost || false) (.obj [(tag, j)]) (.obj [(tag, j')]) :=
    .obj (.kept h .nil) (.of_eq (List.append_nil _)) (by simp) (by simp)
  -- The two changes of the program differ in the members of the conditional only.
  have hprogram {lost : Bool} {ms ms' : List (String × Json)}
      (h : Changed lost (.obj ms) (.obj ms')) :
      Changed lost (written [] ms) (written [("comment", .arr [])] ms') := by
    have hstatement := hvariant "Expression" (hvariant "If" h)
    have hadded : Changed _ (.obj [("statements", .arr [_])])
        (.obj ([("comment", .arr [])] ++ [("statements", .arr [_])])) :=
      .obj (.kept (.arr (.cons hstatement .nil)) .nil) List.perm_append_comm (by simp)
        fun _ => by simp [records]
    simp only [Bool.or_false] at hadded
    exact hadded
  have hswapped : Changed false (.obj [("condition", condition), ("consequence", consequence),
      ("alternative", .null)]) (.obj [("consequence", consequence), ("condition", condition)]) :=
    .obj (.kept (.same condition) (.kept (.same consequence) (.unset .nil)))
      (List.Perm.swap _ _ _) (by simp) (by simp)
  have hlost : Changed true (.obj [("condition", condition), ("consequence", consequence),
      ("alternative", .null)]) (.obj [("consequence", consequence)]) :=
    .obj (.lost (by decide) (.kept (.same consequence) (.unset .nil)))
      (.of_eq (List.append_nil _)) (by simp) (by simp)
  have htoken : Changed false (Token.toJson ⟨.int, "-", ⟨1, 2⟩⟩) token :=
    @Changed.obj _ _ _ [] _ (.same _)
      (@List.perm_append_comm (String × Json) [("kind", .str "Int"), ("literal", .str "-"),
        ("line", .int 1)] [("column", .int 2)]) (by simp) (by simp)
  have htokens : Changed false (.arr [Token.toJson ⟨.int, "-", ⟨1, 2⟩⟩]) (.arr [token]) :=
    .arr (.cons htoken .nil)
  exact ⟨rfl, (reads_back.1 p).2 _ _ (hprogram hswapped),
    (reads_back.1 p).2 _ _ (hprogram hlost),
    (reads_back.2 [⟨.int, "-", ⟨1, 2⟩⟩] (by decide)).2 _ _ htokens⟩

end Monkey
