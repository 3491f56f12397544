import Mathlib
import Monkey.Proofs.Session.Batch
import Monkey.Repl

/-! # What the reply to a line depends on

Of all the lines before it, the reply to a line depends on those only that were
programs and gave a value, as far back as the last reset. A program that failed
has used up identities of functions, but no text shows them.
-/

namespace Monkey.Repl

open Session (shown Alike)

/-- What a line asks for once it is trimmed. -/
def requested (line : String) : Request :=
  .ofLine (Text.trim line)

/-- Whether a source spells a program that gives a value in the session `s`. -/
def Succeeds (s : Session) (source : String) : Prop :=
  ∃ p depth v t, Program.ofSource source = .ok p ∧ s.execute depth p = some (.ok v, t)

/-- Whether a request made in the session `s` is no reset and no program that gives a value. -/
def Idle (s : Session) (request : Request) : Prop :=
  request ≠ .reset ∧ ∀ source, request = .execute source → ¬ Succeeds s source

/-- The successful programs since the last reset, before and after a request made in `s`. -/
inductive Keeps (s : Session) : Request → List String → List String → Prop
  | cleared (kept : List String) : Keeps s .reset kept []
  | extended {source : String} (kept : List String) :
      Succeeds s source → Keeps s (.execute source) kept (kept ++ [source])
  | same {request : Request} (kept : List String) : Idle s request → Keeps s request kept kept

/-- A session in the middle of a run, with the successful programs since the last reset. -/
structure State where
  session : Session
  kept : List String

/-- The state in which a run begins. -/
def State.start : State := ⟨.initial, []⟩

/-- Whether a line is answered by a text in the state `σ`, and `τ` is the state after it. -/
def Responds (config : Config) (σ : State) (line output : String) (τ : State) : Prop :=
  (∃ depth, reply depth config σ.session (requested line) = some (.text output, τ.session)) ∧
    Keeps σ.session (requested line) σ.kept τ.kept

/-- The texts that answer several lines, one after the other. -/
inductive Responses (config : Config) : State → List String → List String → State → Prop
  | nil (σ : State) : Responses config σ [] [] σ
  | cons {σ τ υ : State} {line output : String} {lines outputs : List String} :
      Responds config σ line output τ → Responses config τ lines outputs υ →
      Responses config σ (line :: lines) (output :: outputs) υ

/-- Whether no further lines are answered differently in two states. -/
structure Indistinct (config : Config) (σ τ : State) : Prop where
  responses (lines outputs : List String) :
    (∃ υ, Responses config σ lines outputs υ) ↔ ∃ υ, Responses config τ lines outputs υ
  ends (bytes : List UInt8) : (∃ n o, replyTo n config σ.session bytes = some o) ↔
    ∃ n o, replyTo n config τ.session bytes = some o
  reply_eq (bytes : List UInt8) (n n' : Nat) (r r' : Reply) (t t' : Session) :
    replyTo n config σ.session bytes = some (r, t) →
      replyTo n' config τ.session bytes = some (r', t') → r = r'

variable {config : Config} {s s' t : Session} {σ τ υ : State} {source line output : String}
  {request : Request} {r : Reply} {n m : Nat}

theorem resultLine_eq_of_shown {r r' : Except Fault Value} (h : shown r = shown r') :
    resultLine r = resultLine r' := by
  cases r with
  | error e =>
    cases r' with
    | error e' =>
      cases h
      rfl
    | ok w => cases h
  | ok v =>
    cases r' with
    | error e' => cases h
    | ok w =>
      simp only [shown, Except.map, Except.ok.injEq, Prod.mk.injEq] at h
      simp only [resultLine, h.2]

theorem reply_execute {p : Program} (hp : Program.ofSource source = .ok p) (n : Nat) :
    reply n config s (.execute source) = (s.execute n p).map fun (r, t) =>
      (.text ((if config.echo then p.outline.render ++ "\n" else "") ++ resultLine r), t) := by
  simp only [reply, execute, hp, Option.map_map]
  rfl

theorem env_of_execute_error {p : Program} {e : Fault}
    (h : s.execute n p = some (.error e, t)) : t.env = s.env := by
  obtain ⟨⟨o, u⟩, -, he⟩ := Option.map_eq_some_iff.1 h
  rcases o with (v | e) | v <;> cases he
  rfl

/-- Sessions that no program tells apart reply alike, and stay alike. -/
theorem reply_of_alike (h : s.Alike s') (hr : reply n config s request = some (r, t)) :
    ∃ t', reply n config s' request = some (r, t') ∧ t.Alike t' := by
  cases request with
  | execute source =>
    cases hp : Program.ofSource source with
    | error e =>
      simp only [reply, execute, hp, Option.map_some, Option.some.injEq, Prod.mk.injEq] at hr ⊢
      obtain ⟨rfl, rfl⟩ := hr
      exact ⟨s', ⟨rfl, rfl⟩, h⟩
    | ok p =>
      rw [reply_execute hp] at hr ⊢
      obtain ⟨o, ho, he⟩ := Option.map_eq_some_iff.1 hr
      obtain ⟨o', ho', hshown, halike⟩ := h.execute ho
      cases he
      refine ⟨o'.2, ?_, halike⟩
      rw [ho', Option.map_some, resultLine_eq_of_shown hshown]
  | reset =>
    cases hr
    exact ⟨s'.reset, rfl, .refl _ _⟩
  | _ =>
    cases hr
    exact ⟨s', rfl, h⟩

/-- A deeper reply to a request that is replied to is the same. -/
theorem reply_mono (hnm : n ≤ m) (hr : reply n config s request = some (r, t)) :
    reply m config s request = some (r, t) := by
  cases request with
  | execute source =>
    cases hp : Program.ofSource source with
    | error e =>
      simp only [reply, execute, hp] at hr ⊢
      exact hr
    | ok p =>
      rw [reply_execute hp] at hr ⊢
      obtain ⟨o, ho, he⟩ := Option.map_eq_some_iff.1 hr
      rw [Session.execute_mono hnm ho, Option.map_some, he]
  | _ => exact hr

theorem replyTo_of_alike {bytes : List UInt8} (h : s.Alike s')
    (hr : replyTo n config s bytes = some (r, t)) :
    ∃ t', replyTo n config s' bytes = some (r, t') := by
  unfold replyTo at hr ⊢
  split at hr
  · obtain ⟨t', ht', -⟩ := reply_of_alike h hr
    exact ⟨t', ht'⟩
  · cases hr
    exact ⟨s', rfl⟩

theorem replyTo_mono {bytes : List UInt8} (hnm : n ≤ m)
    (hr : replyTo n config s bytes = some (r, t)) : replyTo m config s bytes = some (r, t) := by
  unfold replyTo at hr ⊢
  split at hr
  · exact reply_mono hnm hr
  · exact hr

theorem replyTo_unique {bytes : List UInt8} {r' : Reply} {t' : Session}
    (hr : replyTo n config s bytes = some (r, t))
    (hr' : replyTo m config s bytes = some (r', t')) : r = r' := by
  have h := replyTo_mono (Nat.le_max_left n m) hr
  have h' := replyTo_mono (Nat.le_max_right n m) hr'
  cases h.symm.trans h'
  rfl

theorem Succeeds.of_alike (h : s.Alike s') (hs : Succeeds s source) : Succeeds s' source := by
  obtain ⟨p, depth, v, t, hp, ht⟩ := hs
  obtain ⟨⟨r, t'⟩, ht', hshown, -⟩ := h.execute ht
  cases r with
  | error e => cases hshown
  | ok w => exact ⟨p, depth, w, t', hp, ht'⟩

theorem Keeps.of_alike {kept kept' : List String} (h : s.Alike s')
    (hk : Keeps s request kept kept') (other : List String) :
    ∃ other', Keeps s' request other other' := by
  cases hk with
  | cleared => exact ⟨[], .cleared other⟩
  | extended _ hs => exact ⟨_, .extended other (hs.of_alike h)⟩
  | same _ hi =>
    refine ⟨other, .same other ⟨hi.1, fun source hr hs => ?_⟩⟩
    exact hi.2 source hr (hs.of_alike (Environment.Agree.symm h))

theorem Keeps.eq_of_idle {kept kept' : List String} (h : Keeps s request kept kept')
    (hi : Idle s request) : kept' = kept := by
  cases h with
  | cleared => exact absurd rfl hi.1
  | extended _ hs => exact absurd hs (hi.2 _ rfl)
  | same _ _ => rfl

theorem Keeps.eq_nil {kept kept' : List String} (h : Keeps s .reset kept kept') : kept' = [] := by
  cases h with
  | cleared => rfl
  | same _ hi => exact absurd rfl hi.1

theorem Responses.of_alike {lines outputs : List String} (h : Responses config σ lines outputs υ)
    (hst : σ.session.Alike τ.session) : ∃ υ', Responses config τ lines outputs υ' := by
  induction h generalizing τ with
  | nil => exact ⟨τ, .nil τ⟩
  | cons hline _ ih =>
    obtain ⟨⟨depth, hr⟩, hk⟩ := hline
    obtain ⟨t, ht, halike⟩ := reply_of_alike hst hr
    obtain ⟨kept, hkept⟩ := hk.of_alike hst τ.kept
    obtain ⟨υ', hυ'⟩ := ih (τ := ⟨t, kept⟩) halike
    exact ⟨υ', .cons ⟨⟨depth, ht⟩, hkept⟩ hυ'⟩

theorem indistinct_of_alike (h : σ.session.Alike τ.session) : Indistinct config σ τ where
  responses lines outputs :=
    ⟨fun ⟨_, hυ⟩ => hυ.of_alike h, fun ⟨_, hυ⟩ => hυ.of_alike (Environment.Agree.symm h)⟩
  ends bytes := by
    constructor
    · rintro ⟨n, o, ho⟩
      obtain ⟨t', ht'⟩ := replyTo_of_alike h ho
      exact ⟨n, _, ht'⟩
    · rintro ⟨n, o, ho⟩
      obtain ⟨t', ht'⟩ := replyTo_of_alike (Environment.Agree.symm h) ho
      exact ⟨n, _, ht'⟩
  reply_eq bytes n n' r r' t t' hr hr' := by
    obtain ⟨_, hr''⟩ := replyTo_of_alike h hr
    exact replyTo_unique hr'' hr'

theorem Indistinct.symm (h : Indistinct config σ τ) : Indistinct config τ σ where
  responses lines outputs := (h.responses lines outputs).symm
  ends bytes := (h.ends bytes).symm
  reply_eq bytes n n' r r' t t' hr hr' := (h.reply_eq bytes n' n r' r t' t hr' hr).symm

theorem Indistinct.trans (h : Indistinct config σ τ) (h' : Indistinct config τ υ) :
    Indistinct config σ υ where
  responses lines outputs := (h.responses lines outputs).trans (h'.responses lines outputs)
  ends bytes := (h.ends bytes).trans (h'.ends bytes)
  reply_eq bytes n n' r r' t t' hr hr' := by
    obtain ⟨m, ⟨r'', t''⟩, hm⟩ := (h.ends bytes).1 ⟨n, _, hr⟩
    have hleft := h.reply_eq bytes n m r r'' t t'' hr hm
    exact hleft.trans (h'.reply_eq bytes m n' r'' r' t'' t' hm hr')

/-- A session in which several programs gave values in turn, and nothing else was done. -/
inductive Executed : List String → Session → Prop
  | nil : Executed [] .initial
  | snoc {sources : List String} {source : String} {s t : Session} {p : Program} {n : Nat}
      {v : Value} : Executed sources s → Program.ofSource source = .ok p →
      s.execute n p = some (.ok v, t) → Executed (sources ++ [source]) t

theorem Executed.unique {sources : List String} (h : Executed sources s)
    (h' : Executed sources s') : s = s' := by
  induction h generalizing s' with
  | nil =>
    generalize hs : ([] : List String) = sources at h'
    cases h' with
    | nil => rfl
    | snoc => simp at hs
  | @snoc sources source s t p n v _ hp ht ih =>
    generalize hs : sources ++ [source] = all at h'
    cases h' with
    | nil => simp at hs
    | snoc h' hp' ht' =>
      obtain ⟨rfl, hsource⟩ := List.append_inj' hs rfl
      cases hsource
      obtain rfl := ih h'
      cases hp.symm.trans hp'
      cases Session.execute_unique ht ht'
      rfl

/-- Whether executing the successful programs alone leads to a session with the same bindings. -/
def State.Accounted (σ : State) : Prop :=
  ∃ u, Executed σ.kept u ∧ σ.session.Alike u

theorem State.start_accounted : start.Accounted :=
  ⟨.initial, .nil, .refl _ _⟩

theorem Responds.accounted (h : Responds config σ line output τ) (hσ : σ.Accounted) :
    τ.Accounted := by
  obtain ⟨s, kept⟩ := σ
  obtain ⟨t, kept'⟩ := τ
  obtain ⟨⟨depth, hr⟩, hk⟩ := h
  obtain ⟨u, hu, halike⟩ := hσ
  simp only at hr hk hu halike ⊢
  generalize requested line = request at hr hk
  cases hk with
  | cleared =>
    cases hr
    exact ⟨.initial, .nil, .refl _ _⟩
  | @extended source _ hs =>
    obtain ⟨p, n, v, t', hp, ht'⟩ := hs
    rw [reply_execute hp] at hr
    obtain ⟨o, ho, he⟩ := Option.map_eq_some_iff.1 hr
    obtain rfl := Session.execute_unique ht' ho
    cases he
    obtain ⟨⟨r, u'⟩, hu', hshown, halike'⟩ := halike.execute ht'
    cases r with
    | error e => cases hshown
    | ok w => exact ⟨u', .snoc hu hp hu', halike'⟩
  | same _ hi =>
    refine ⟨u, hu, ?_⟩
    -- An idle request leaves the environment as it was.
    suffices t.env = s.env by
      unfold Alike
      rwa [this]
    cases request with
    | execute source =>
      cases hp : Program.ofSource source with
      | error e =>
        simp only [reply, execute, hp, Option.map_some, Option.some.injEq, Prod.mk.injEq] at hr
        rw [hr.2]
      | ok p =>
        rw [reply_execute hp] at hr
        obtain ⟨⟨r, t'⟩, ho, he⟩ := Option.map_eq_some_iff.1 hr
        cases he
        cases r with
        | ok v => exact absurd ⟨p, depth, v, t, hp, ho⟩ (hi.2 source rfl)
        | error e => exact env_of_execute_error ho
    | reset => exact absurd rfl hi.1
    | quit => cases hr
    | _ =>
      cases hr
      rfl

theorem Responses.accounted {lines outputs : List String} (h : Responses config σ lines outputs τ)
    (hσ : σ.Accounted) : τ.Accounted := by
  induction h with
  | nil => exact hσ
  | cons hline _ ih => exact ih (hline.accounted hσ)

theorem indistinct_of_accounted (hσ : σ.Accounted) (hτ : τ.Accounted) (hkept : σ.kept = τ.kept) :
    Indistinct config σ τ := by
  obtain ⟨u, hu, hs⟩ := hσ
  obtain ⟨u', hu', ht⟩ := hτ
  rw [← hkept] at hu'
  obtain rfl := hu.unique hu'
  have hmiddle : Indistinct config σ ⟨u, σ.kept⟩ := indistinct_of_alike hs
  exact hmiddle.trans (indistinct_of_alike ht).symm

/--
Two runs answer every further line in the same way if the same programs gave values in them since
the last reset. So an idle line makes no difference to the answers after it, and after a reset the
answers are those of a new run.
-/
theorem indistinct_of_kept {lines lines' outputs outputs' : List String}
    (h : Responses config .start lines outputs σ)
    (h' : Responses config .start lines' outputs' τ) (hkept : σ.kept = τ.kept) :
    Indistinct config σ τ ∧ ∀ line output υ, Responds config σ line output υ →
      (Idle σ.session (requested line) → Indistinct config σ υ) ∧
        (requested line = .reset → Indistinct config .start υ) := by
  have hσ := h.accounted State.start_accounted
  have hτ := h'.accounted State.start_accounted
  refine ⟨indistinct_of_accounted hσ hτ hkept, fun line output υ hline => ?_⟩
  have hυ := hline.accounted hσ
  have hk := hline.2
  refine ⟨fun hidle => indistinct_of_accounted hσ hυ ?_,
    fun hreset => indistinct_of_accounted State.start_accounted hυ ?_⟩
  · exact (hk.eq_of_idle hidle).symm
  · rw [hreset] at hk
    exact hk.eq_nil.symm

theorem Idle.of_error {p : Program} {e : Fault} (hp : Program.ofSource source = .ok p)
    (h : s.execute n p = some (.error e, t)) : Idle s (.execute source) := by
  refine ⟨nofun, ?_⟩
  rintro _ ⟨⟩ ⟨p', m, v, t', hp', ht'⟩
  cases hp.symm.trans hp'
  cases Session.execute_unique h ht'

/-- A failed program that has made a function, or a reset, before the same function is bound. -/
theorem indistinct_of_kept_identity : ∃ σ τ o o' o'',
    Responses .standard .start ["fn()\x7b\x7d+1", "let f=fn()\x7b\x7d;"] [faultLine o, o'] σ ∧
      Responses .standard .start [" :reset", "let f=fn()\x7b\x7d;"] [o'', o'] τ ∧
      o = .unsupported "+" [.function, .integer] ∧ σ.session.nextId = 2 ∧ τ.session.nextId = 1 ∧
      Indistinct .standard σ τ := by
  let misuse : Program := [.expr (.binary .add (.fn [] []) (.int 1))]
  let binding : Program := [.bind "f" (.fn [] [])]
  let f (id : Nat) : Value := .function id [] [] ⟨[], [[]]⟩
  have hmisuse : Program.ofSource "fn()\x7b\x7d+1" = .ok misuse := by cbv
  have hbinding : Program.ofSource "let f=fn()\x7b\x7d;" = .ok binding := by cbv
  have hfault : Session.execute 9 misuse .initial =
    some (.error (.unsupported "+" [.function, .integer]), .fresh 1) := rfl
  have hbound (id : Nat) : Session.execute 9 binding (.fresh id) =
    some (.ok (f id), ⟨⟨[("f", f id)], []⟩, id + 1⟩) := rfl
  have hrequest : requested "fn()\x7b\x7d+1" = .execute "fn()\x7b\x7d+1" := by cbv
  have hrequest' : requested "let f=fn()\x7b\x7d;" = .execute "let f=fn()\x7b\x7d;" := by cbv
  have hreset : requested " :reset" = .reset := by cbv
  have hfirst : Responds .standard .start "fn()\x7b\x7d+1"
      (faultLine (.unsupported "+" [.function, .integer])) ⟨.fresh 1, []⟩ := by
    rw [Responds, hrequest]
    refine ⟨⟨9, ?_⟩, .same [] (.of_error hmisuse hfault)⟩
    rw [reply_execute hmisuse, State.start, hfault]
    simp [Config.standard, resultLine]
  have hclear : Responds .standard .start " :reset" "environment cleared\n" .start := by
    rw [Responds, hreset]
    exact ⟨⟨9, rfl⟩, .cleared []⟩
  have hbind (id : Nat) : Responds .standard ⟨.fresh id, []⟩ "let f=fn()\x7b\x7d;"
      (resultLine (.ok (f 0))) ⟨⟨⟨[("f", f id)], []⟩, id + 1⟩, ["let f=fn()\x7b\x7d;"]⟩ := by
    rw [Responds, hrequest']
    refine ⟨⟨9, ?_⟩, .extended [] ⟨_, 9, _, _, hbinding, hbound id⟩⟩
    rw [reply_execute hbinding, hbound id]
    simp [Config.standard, resultLine, f, Value.render]
  have hσ := Responses.cons hfirst (.cons (hbind 1) (.nil _))
  have hτ := Responses.cons hclear (.cons (hbind 0) (.nil _))
  exact ⟨_, _, _, _, _, hσ, hτ, rfl, rfl, rfl, (indistinct_of_kept hσ hτ rfl).1⟩

end Monkey.Repl
