import GameScript.Proofs.Run.Course
import Mathlib.Logic.Relation

/-!
# Contracts of tasks

A `Contract` says of every task what must hold where it is asked for, and what holds then where it has been done. A
course `Meets` a postcondition under a contract when it only asks for what the contract allows and, whatever the answers
that the contract promises, ends as the postcondition says. Where every plan meets what the contract promises of its
task (the step), every run does: what a course that meets a postcondition ends with satisfies it, and every task that it
reaches is allowed (`Course.Meets.of_finishes`, `Course.Meets.of_reaches`).

The rules say so of the combinators of plans (`meets_bind`, `meets_holding` and their sisters).
-/

namespace GameScript

section Contracts

variable {σ α β : Type}

/-- What must hold where a task is asked for, and what then holds where it has been done. -/
structure Contract (σ : Type) where
  pre : {k : Kind} → Task k → Machine σ → Prop
  post : {k : Kind} → Task k → Machine σ → Except RuntimeFault k.Answer → Machine σ → Prop

/-- A course asks for what a contract allows, and ends with `Q` when the answers are as the contract promises. -/
def Course.Meets (C : Contract σ) (Q : Except RuntimeFault α → Machine σ → Prop) : Course σ α → Prop
  | ended result m => Q result m
  | asks task m resume => C.pre task m ∧ ∀ answer m', C.post task m answer m' → (resume answer m').Meets C Q

/-- What a course asks for, and what is asked for by that, and so on. -/
def Course.Reaches (host : Host σ) (limit : Nat) (c : Course σ α) (x : Activation σ) : Prop :=
  ∃ y, Asks host limit c y ∧ Relation.ReflTransGen (Activation.Activates host limit) y x

/-- Where a task is reached and allowed, what it does meets what is promised. -/
def Contract.Kept (C : Contract σ) (host : Host σ) (limit : Nat) (R : Activation σ → Prop) : Prop :=
  ∀ {k : Kind} (task : Task k) (m : Machine σ), R ⟨k, task, m⟩ → C.pre task m →
    (task.plan host limit m).Meets C (C.post task m)

variable {C : Contract σ} {Q : Except RuntimeFault α → Machine σ → Prop} {c : Course σ α} {host : Host σ} {limit : Nat}

theorem Course.Meets.mono {Q' : Except RuntimeFault α → Machine σ → Prop} (h : c.Meets C Q)
    (hq : ∀ r m, Q r m → Q' r m) : c.Meets C Q' := by
  induction c with
  | ended result m => exact hq _ _ h
  | asks task m resume ih => exact ⟨h.1, fun answer m' ha => ih answer m' (h.2 answer m' ha)⟩

theorem Course.Meets.andThen {next : Except RuntimeFault α → Machine σ → Course σ β}
    {Q : Except RuntimeFault β → Machine σ → Prop} (h : c.Meets C fun r m => (next r m).Meets C Q) :
    (c.andThen next).Meets C Q := by
  induction c with
  | ended result m => exact h
  | asks task m resume ih => exact ⟨h.1, fun answer m' ha => ih answer m' (h.2 answer m' ha)⟩

/-- Of many postconditions each may be shown alone, when one of them is asked for. -/
theorem Course.Meets.forall {ι : Type} {A : ι → Prop} {P : ι → Except RuntimeFault α → Machine σ → Prop}
    (hex : ∃ i, A i) (h : ∀ i, A i → c.Meets C (P i)) : c.Meets C fun r m => ∀ i, A i → P i r m := by
  induction c with
  | ended result m => exact h
  | asks task m resume ih =>
    obtain ⟨i, hi⟩ := hex
    exact ⟨(h i hi).1, fun answer m' ha => ih answer m' fun j hj => (h j hj).2 answer m' ha⟩

theorem Asks.reaches {x : Activation σ} (h : Asks host limit c x) : c.Reaches host limit x := ⟨x, h, .refl⟩

theorem Course.Reaches.activates {x y : Activation σ} (h : c.Reaches host limit x) (hy : x.Activates host limit y) :
    c.Reaches host limit y := by
  obtain ⟨z, hz, hx⟩ := h
  exact ⟨z, hz, hx.tail hy⟩

/-! ## Runs -/

section Runs

variable {R : Activation σ → Prop} (hk : C.Kept host limit R)
  (hR : ∀ {x y : Activation σ}, R x → x.Activates host limit y → R y)

include hk hR

/-- What a course ends with is as it should, by induction on the run. -/
theorem Course.Meets.of_finishes {r : Except RuntimeFault α} {m : Machine σ} (hrun : Finishes host limit c r m)
    (hc : ∀ x, Asks host limit c x → R x) (h : c.Meets C Q) : Q r m := by
  induction hrun with
  | ended => exact h
  | asks hdone hrest ihdone ihrest =>
    have hfirst := hc _ .first
    have hpost := ihdone (fun x hx => hR hfirst hx) (hk _ _ hfirst h.1)
    exact ihrest (fun x hx => hc x (.later hdone hx)) (h.2 _ _ hpost)

theorem Course.Meets.of_asks {x : Activation σ} (hx : Asks host limit c x) (hc : ∀ x, Asks host limit c x → R x)
    (h : c.Meets C Q) : C.pre x.task x.machine := by
  induction hx with
  | first => exact h.1
  | later hdone hrest ih =>
    have hfirst := hc _ .first
    have hpost := Course.Meets.of_finishes hk hR hdone (fun x hx => hR hfirst hx) (hk _ _ hfirst h.1)
    exact ih (fun x hx => hc x (.later hdone hx)) (h.2 _ _ hpost)

/-- Every task that a course reaches is allowed. -/
theorem Course.Meets.of_reaches {x : Activation σ} (hx : c.Reaches host limit x)
    (hc : ∀ x, Asks host limit c x → R x) (h : c.Meets C Q) : C.pre x.task x.machine := by
  obtain ⟨y, hy, hyx⟩ := hx
  suffices hboth : R x ∧ C.pre x.task x.machine from hboth.2
  induction hyx with
  | refl => exact ⟨hc y hy, Course.Meets.of_asks hk hR hy hc h⟩
  | tail _ hz ih =>
    exact ⟨hR ih.1 hz, Course.Meets.of_asks hk hR hz (fun _ hx => hR ih.1 hx) (hk _ _ ih.1 ih.2)⟩

end Runs

/-- Where the tasks that a course reaches do as a contract promises, it ends as it should, and so does every task that
it reaches, which the contract allows. -/
theorem Course.Meets.runs (h : c.Meets C Q) (hk : C.Kept host limit (c.Reaches host limit)) :
    (∀ r m, Finishes host limit c r m → Q r m) ∧
      ∀ x, c.Reaches host limit x → C.pre x.task x.machine ∧
        ∀ r m, Finishes host limit (x.task.plan host limit x.machine) r m → C.post x.task x.machine r m := by
  have hreach {x y : Activation σ} (hx : c.Reaches host limit x) (hy : x.Activates host limit y) :
      c.Reaches host limit y := hx.activates hy
  refine ⟨fun r m hrun => h.of_finishes hk hreach hrun fun x hx => hx.reaches, fun x hx => ?_⟩
  have hpre := h.of_reaches hk hreach hx fun y hy => hy.reaches
  exact ⟨hpre, fun r m hrun => (hk _ _ hx hpre).of_finishes hk hreach hrun fun y hy => hx.activates hy⟩

/-! ## Rules -/

section Rules

variable {m : Machine σ} {act : Plan σ α}

theorem meets_bind {f : α → Plan σ β} {Q : Except RuntimeFault β → Machine σ → Prop}
    (h : (act m).Meets C fun r m' => match r with
      | .ok a => (f a m').Meets C Q
      | .error e => Q (.error e) m') : ((act >>= f) m).Meets C Q := by
  refine Course.Meets.andThen (h.mono fun r m' hr => ?_)
  cases r with
  | ok a => exact hr
  | error e => exact hr

theorem meets_ask {k : Kind} {task : Task k} {Q : Except RuntimeFault k.Answer → Machine σ → Prop}
    (hpre : C.pre task m) (hpost : ∀ r m', C.post task m r m' → Q r m') : (Plan.ask task m).Meets C Q :=
  ⟨hpre, fun r m' h => hpost r m' h⟩

theorem meets_holding {cells : List Cell}
    (h : (act { m with memory := m.memory.holding cells }).Meets C fun r m' =>
      Q r { m' with memory := { m'.memory with held := m.memory.held } }) : (act.holding cells m).Meets C Q :=
  Course.Meets.andThen h

theorem meets_deeper (h : (act { m with depth := m.depth + 1 }).Meets C fun r m' =>
    Q r { m' with depth := m'.depth - 1 }) : (act.deeper m).Meets C Q :=
  Course.Meets.andThen h

theorem meets_attempt {Q : Except RuntimeFault (Except RuntimeFault α) → Machine σ → Prop}
    (h : (act m).Meets C fun r m' => Q (.ok r) m') : (act.attempt m).Meets C Q :=
  Course.Meets.andThen h

end Rules

end Contracts

end GameScript
