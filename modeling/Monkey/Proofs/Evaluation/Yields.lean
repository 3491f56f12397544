import Monkey.Proofs.Evaluation.Depth

/-! # What an evaluation yields

An evaluation yields an outcome if it ends with it at every depth from some depth on.
Whatever ends at one depth is yielded, and what a rule yields follows from what its
parts yield, so nothing needs to be said about depths any more.
-/

namespace Monkey.Eval

variable {α β : Type}

/-- Whether `x` ends in this way, from some depth on. -/
def Yields (x : Nat → Eval α) (s : Session) (o : Except Abrupt α × Session) : Prop :=
  ∃ least, ∀ n ≥ least, (x n).runIn s = some o

namespace Yields

variable {x : Nat → Eval α} {f : Nat → α → Eval β} {s t : Session} {a : α} {e : Abrupt}

/-- What ends at some depth ends so from there on, if the depth makes no difference. -/
theorem of_runIn (hx : ∀ n, Refines (x n) (x (n + 1))) {n : Nat} {o : Except Abrupt α × Session}
    (h : (x n).runIn s = some o) : Yields x s o :=
  ⟨n, fun _ hn => Refines.of_le hx hn s o h⟩

/-- The depth of the rule itself counts for one. -/
theorem of_succ {o : Except Abrupt α × Session} (h : Yields (fun n => x (n + 1)) s o) :
    Yields x s o := by
  obtain ⟨least, h⟩ := h
  refine ⟨least + 1, fun n hn => ?_⟩
  obtain ⟨m, rfl⟩ := Nat.exists_eq_add_of_le' hn
  exact h (m + least) (Nat.le_add_left least m)

theorem pure : Yields (fun _ => Pure.pure a) s (.ok a, s) :=
  ⟨0, fun _ _ => rfl⟩

theorem fail {fault : Fault} :
    Yields (fun _ => (fail fault : Eval α)) s (.error (.fault fault), s) :=
  ⟨0, fun _ _ => rfl⟩

theorem bind {o : Except Abrupt β × Session} (hx : Yields x s (.ok a, t))
    (hf : Yields (fun n => f n a) t o) : Yields (fun n => x n >>= f n) s o := by
  obtain ⟨m, hx⟩ := hx
  obtain ⟨k, hf⟩ := hf
  refine ⟨max m k, fun n hn => ?_⟩
  rw [runIn_bind, hx n (Nat.le_trans (Nat.le_max_left m k) hn)]
  exact hf n (Nat.le_trans (Nat.le_max_right m k) hn)

/-- What ends abruptly ends whatever goes on from it. -/
theorem bind_error (hx : Yields x s (.error e, t)) :
    Yields (fun n => x n >>= f n) s (.error e, t) := by
  obtain ⟨least, hx⟩ := hx
  refine ⟨least, fun n hn => ?_⟩
  rw [runIn_bind, hx n hn]
  rfl

theorem inScope {r : Except Abrupt α} (hx : Yields x { s with env := s.env.enter } (r, t)) :
    Yields (fun n => inScope (x n)) s (r, { t with env := t.env.exit }) := by
  obtain ⟨least, hx⟩ := hx
  refine ⟨least, fun n hn => ?_⟩
  rw [runIn_inScope, hx n hn]
  rfl

theorem within {env : Environment Value} {r : Except Abrupt α}
    (hx : Yields x { s with env } (r, t)) :
    Yields (fun n => within env (x n)) s (r, { t with env := s.env }) := by
  obtain ⟨least, hx⟩ := hx
  refine ⟨least, fun n hn => ?_⟩
  rw [runIn_within, hx n hn]
  rfl

theorem landing {x : Nat → Eval Value} {v : Value} (hx : Yields x s (.error (.returned v), t)) :
    Yields (fun n => landing (x n)) s (.ok v, t) := by
  obtain ⟨least, hx⟩ := hx
  refine ⟨least, fun n hn => ?_⟩
  rw [runIn_landing, hx n hn]
  rfl

theorem committing_fault {fault : Fault}
    (hx : Yields x { s with env := s.env.enter } (.error (.fault fault), t)) :
    Yields (fun n => committing (x n)) s (.error (.fault fault), t) := by
  obtain ⟨least, hx⟩ := hx
  refine ⟨least, fun n hn => ?_⟩
  rw [runIn_committing, hx n hn]
  rfl

theorem committing_returned {v : Value}
    (hx : Yields x { s with env := s.env.enter } (.error (.returned v), t)) :
    Yields (fun n => committing (x n)) s
      (.error (.returned v), { t with env := t.env.commit }) := by
  obtain ⟨least, hx⟩ := hx
  refine ⟨least, fun n hn => ?_⟩
  rw [runIn_committing, hx n hn]
  rfl

end Yields

end Monkey.Eval
