import GameScript.Proofs.Run.Operations
import GameScript.Proofs.Run.Lifetimes
import GameScript.Proofs.Run.Defensive

/-!
# Integer arithmetic is exact or refused

What the operators on integers should answer is said without them: `IsResult` relates an operator and two integers to
the integer that the operator gives mathematically, where division truncates towards zero and leaves a remainder of the
sign of the dividend (`Truncates`). An outcome is `ExactOrRefused` when it is that integer wherever 64 bits hold it, an
overflow where they do not, and a division by zero exactly where there is nothing to divide by.

Main statement: so are the outcomes of operators on integers, of compound assignments to targets that hold one, and of
steps of variables that do (`integers_exact_or_refused`), but for the remainder of the least integer by -1, which is
refused although it is 0 (`remainder_refused`).
-/

namespace GameScript

open Eval

/-! ## The results of operators -/

/-- `a` divided by `b` is `q`, truncated towards zero, and leaves `r`. -/
structure Truncates (a b q r : Int) : Prop where
  sum : a = q * b + r
  small : r.natAbs < b.natAbs
  nonneg : 0 ≤ a → 0 ≤ r
  nonpos : a ≤ 0 → r ≤ 0

/-- An operator gives `n` for `a` and `b`. A step goes by 1. -/
inductive IsResult : OperatorKind → Int → Int → Int → Prop
  | add (a b : Int) : IsResult .add a b (a + b)
  | sub (a b : Int) : IsResult .sub a b (a - b)
  | mul (a b : Int) : IsResult .mul a b (a * b)
  | div {a b q r : Int} (h : Truncates a b q r) : IsResult .div a b q
  | mod {a b q r : Int} (h : Truncates a b q r) : IsResult .mod a b r
  | inc (a : Int) : IsResult .inc a 1 (a + 1)
  | dec (a : Int) : IsResult .dec a 1 (a - 1)

/-- An outcome of an operator on two integers is what it gives for them, as far as 64 bits hold that. -/
structure ExactOrRefused (op : OperatorKind) (a b : Int) (outcome : Except RuntimeError Value) : Prop where
  zero : outcome = .error .divisionByZero ↔ (op = .div ∨ op = .mod) ∧ b = 0
  exact : ∀ k : Int64, outcome = .ok (.int k) ↔ IsResult op a b k.toInt
  refused : ∀ blamed, outcome = .error (.integerOverflow blamed) ↔
    blamed = op ∧ ∃ n, IsResult op a b n ∧ ¬InRange n

section Results

variable {op : OperatorKind} {a b n n' q q' r r' : Int}

theorem Truncates.ne_zero (h : Truncates a b q r) : b ≠ 0 := by
  have hsmall := h.small
  omega

theorem truncates (a : Int) (h : b ≠ 0) : Truncates a b (a.tdiv b) (a.tmod b) where
  sum := (Int.tdiv_mul_add_tmod a b).symm
  small := by
    rw [Int.natAbs_tmod]
    exact Nat.mod_lt _ (Int.natAbs_pos.2 h)
  nonneg := Int.tmod_nonneg b
  nonpos := by
    intro ha
    have hneg : 0 ≤ (-a).tmod b := Int.tmod_nonneg b (by omega)
    rw [Int.neg_tmod] at hneg
    omega

/-- There is one way to divide so. -/
theorem Truncates.eq (h : Truncates a b q r) : q = a.tdiv b ∧ r = a.tmod b := by
  have hsum : r + b * q = a := by
    rw [Int.mul_comm, Int.add_comm]
    exact h.sum.symm
  have hsmall := h.small
  rcases Int.le_total 0 a with ha | ha
  · have hr := h.nonneg ha
    have hunique := (Int.tdiv_tmod_unique ha h.ne_zero).2 ⟨hsum, hr, by omega⟩
    exact ⟨hunique.1.symm, hunique.2.symm⟩
  · have hr := h.nonpos ha
    have hunique := (Int.tdiv_tmod_unique' ha h.ne_zero).2 ⟨hsum, by omega, hr⟩
    exact ⟨hunique.1.symm, hunique.2.symm⟩

theorem IsResult.unique (h : IsResult op a b n) (h' : IsResult op a b n') : n = n' := by
  cases h with
  | div h =>
    cases h' with
    | div h' => rw [h.eq.1, h'.eq.1]
  | mod h =>
    cases h' with
    | mod h' => rw [h.eq.2, h'.eq.2]
  | _ =>
    cases h'
    rfl

theorem IsResult.ne_zero (h : IsResult op a b n) (hop : op = .div ∨ op = .mod) : b ≠ 0 := by
  cases h with
  | div h => exact h.ne_zero
  | mod h => exact h.ne_zero
  | _ => simp at hop

theorem inRange_toInt (k : Int64) : InRange k.toInt := ⟨k.le_toInt, k.toInt_lt⟩

theorem toInt_ofInt_of_inRange (h : InRange n) : (Int64.ofInt n).toInt = n := Int64.toInt_ofInt_of_le h.1 h.2

theorem checked_eq_ok_iff {k : Int64} : checked op n = .ok (.int k) ↔ n = k.toInt := by
  unfold checked
  constructor
  · intro h
    split at h
    · rename_i hn
      cases h
      exact (toInt_ofInt_of_inRange hn).symm
    · cases h
  · rintro rfl
    rw [if_pos (inRange_toInt k), Int64.ofInt_toInt]

theorem checked_eq_overflow_iff {blamed : OperatorKind} :
    checked op n = .error (.integerOverflow blamed) ↔ blamed = op ∧ ¬InRange n := by
  unfold checked
  split <;> simp_all [eq_comm]

/-- A result that is checked is exact or refused. -/
theorem exactOrRefused_checked (h : IsResult op a b n) : ExactOrRefused op a b (checked op n) where
  zero := by
    refine iff_of_false ?_ fun hzero => h.ne_zero hzero.1 hzero.2
    unfold checked
    split <;> simp
  exact k := by
    rw [checked_eq_ok_iff]
    constructor
    · rintro rfl
      exact h
    · exact h.unique
  refused blamed := by
    rw [checked_eq_overflow_iff]
    refine and_congr_right fun _ => ?_
    constructor
    · exact fun hn => ⟨n, h, hn⟩
    · rintro ⟨n', hn', hrange⟩
      rwa [h.unique hn']

/-- Division by zero has no result. -/
theorem exactOrRefused_zero (hop : op = .div ∨ op = .mod) : ExactOrRefused op a 0 (.error .divisionByZero) where
  zero := by simp [hop]
  exact k := by
    refine iff_of_false (by simp) fun h => h.ne_zero hop rfl
  refused blamed := by
    refine iff_of_false (by simp) ?_
    rintro ⟨-, n, hn, -⟩
    exact hn.ne_zero hop rfl

end Results

/-! ## Operators on two integers -/

section Operators

variable {op : OperatorKind} {a b : Int64}

/-- The remainder whose quotient alone does not fit. -/
def IsLeastByMinusOne (op : OperatorKind) (a b : Int64) : Prop := op = .mod ∧ a = Int64.minValue ∧ b = -1

theorem inRange_tdiv (hb : b.toInt ≠ 0) (h : ¬(a = Int64.minValue ∧ b = -1)) : InRange (a.toInt.tdiv b.toInt) := by
  have habs : (a.toInt.tdiv b.toInt).natAbs = a.toInt.natAbs / b.toInt.natAbs := Int.natAbs_tdiv _ _
  obtain ⟨hle, hlt⟩ := inRange_toInt a
  unfold InRange
  by_cases htwo : 2 ≤ b.toInt.natAbs
  · have hhalf : a.toInt.natAbs / b.toInt.natAbs ≤ a.toInt.natAbs / 2 := Nat.div_le_div_left htwo (by decide)
    omega
  · have hone : b.toInt = 1 ∨ b.toInt = -1 := by omega
    rcases hone with hone | hone
    · rw [hone, Int.tdiv_one]
      exact ⟨hle, hlt⟩
    · have hb' : b = -1 := Int64.toInt_inj.1 hone
      have ha : a.toInt ≠ -9223372036854775808 := fun ha => h ⟨Int64.toInt_inj.1 ha, hb'⟩
      rw [hone, Int.tdiv_neg, Int.tdiv_one]
      omega

theorem applyBinary_int {outcome : Except RuntimeError Value}
    (h : intArithmetic op a.toInt b.toInt = some outcome) : applyBinary op (.int a) (.int b) = outcome := by
  have hsame : applySame op (.int a) (.int b) = some outcome := by
    rw [applySame, h]
    rfl
  unfold applyBinary
  split
  · cases h
  · cases h
  · rw [hsame]
    rfl

/-- An operator on two integers is exact or refused, but for one remainder. -/
theorem exactOrRefused_applyBinary (hop : op ∈ [.add, .sub, .mul, .div, .mod]) (h : ¬IsLeastByMinusOne op a b) :
    ExactOrRefused op a.toInt b.toInt (applyBinary op (.int a) (.int b)) := by
  simp only [List.mem_cons, List.not_mem_nil, or_false] at hop
  rcases hop with rfl | rfl | rfl | rfl | rfl
  · rw [applyBinary_int rfl]
    exact exactOrRefused_checked (.add _ _)
  · rw [applyBinary_int rfl]
    exact exactOrRefused_checked (.sub _ _)
  · rw [applyBinary_int rfl]
    exact exactOrRefused_checked (.mul _ _)
  · rw [applyBinary_int rfl]
    split
    · rename_i hb
      rw [hb]
      exact exactOrRefused_zero (.inl rfl)
    · rename_i hb
      exact exactOrRefused_checked (.div (truncates _ hb))
  · rw [applyBinary_int rfl]
    split
    · rename_i hb
      rw [hb]
      exact exactOrRefused_zero (.inr rfl)
    · rename_i hb
      rw [if_pos (inRange_tdiv hb fun hcase => h ⟨rfl, hcase⟩)]
      exact exactOrRefused_checked (.mod (truncates _ hb))

end Operators

/-! ## What a write leaves to be read -/

section Writes

variable {m n : Memory} {s t : ScopeId} {name : String} {r : Reference} {old new : Value}

namespace Memory

theorem hasScope_of_hasLocal (h : m.hasLocal s name = true) : m.HasScope s := by
  by_contra hs
  have hdefault : m.scope s = default := by
    simp [scope, Array.getD_eq_getD_getElem?, Array.getElem?_eq_none (Nat.le_of_not_lt hs)]
  have hnone : (default : ScopeCell).bindings.has name = false := rfl
  rw [hasLocal, hdefault, hnone] at h
  cases h

/-- A name that is bound can be overwritten, and then has the value that was written. -/
theorem exists_update (h : m.lookup s name = .ok old) (new : Value) :
    ∃ n, m.update s name new = .ok n ∧ n.lookup s name = .ok new := by
  have hbound : ∃ v, (m.chain s).findSome? (fun t => (m.scope t).bindings.get? name) = some v := by
    unfold lookup at h
    split at h
    · exact ⟨_, ‹_›⟩
    · cases h
  obtain ⟨v, hv⟩ := hbound
  obtain ⟨u, hu, hget⟩ := List.exists_of_findSome?_eq_some hv
  have hbinder : ((m.chain s).find? (m.hasLocal · name)).isSome := by
    rw [List.find?_isSome]
    exact ⟨u, hu, by simp [hasLocal, Entries.has, hget]⟩
  obtain ⟨t, ht⟩ := Option.isSome_iff_exists.1 hbinder
  obtain ⟨hlocal, inner, outer, hchain, hinner⟩ := List.find?_eq_some_iff_append.1 ht
  refine ⟨m.bind t name new, update_eq_ok_iff.2 ⟨t, ht, rfl⟩, ?_⟩
  -- the scopes inside the one that binds the name do not bind it, and are not written
  have hskip : ∀ u ∈ inner, ((m.bind t name new).scope u).bindings.get? name = none := by
    intro u hu
    have hnot : m.hasLocal u name = false := by simpa using hinner u hu
    have hne : u ≠ t := by
      rintro rfl
      rw [hlocal] at hnot
      cases hnot
    rw [scope_bind_of_ne hne]
    simpa [hasLocal, Entries.has] using hnot
  have hwritten : ((m.bind t name new).scope t).bindings.get? name = some new := by
    rw [scope_bind (hasScope_of_hasLocal hlocal)]
    simp [Entries.get?_put]
  simp [lookup, chain_bind, hchain, List.findSome?_append, List.findSome?_eq_none_iff.2 hskip, hwritten]

theorem cells_put {es : Entries Value} {key : String} (h : es.get? key = some old) (hold : old.cell? = none)
    (hnew : new.cell? = none) :
    Value.cells ((es.put key new).map Prod.snd) = Value.cells (es.map Prod.snd) := by
  induction es with
  | nil => cases h
  | cons e es ih =>
    obtain ⟨k, v⟩ := e
    rw [Entries.get?_cons] at h
    unfold Entries.put
    by_cases hk : k = key
    · subst hk
      rw [if_pos rfl] at h
      cases h
      simp [Value.cells, hold, hnew]
    · rw [if_neg (Ne.symm hk)] at h
      have hrest := ih h
      simp only [Value.cells] at hrest ⊢
      simp [hk, List.filterMap_cons, hrest]

/-- A property that keeps nothing alive can be overwritten by such a value, and the same cells are alive. -/
theorem isAlive_setProperty {o : ObjectId} {key : String} (h : m.property? o key = some old)
    (hold : old.cell? = none) (hnew : new.cell? = none) : (m.setProperty o key new).isAlive = m.isAlive := by
  refine isAlive_congr ?_ rfl (by simp [cells, setProperty])
  funext c
  cases c with
  | object p =>
    by_cases hp : p = o
    · subst hp
      by_cases hmade : m.HasObject p
      · show Value.cells (((m.setProperty p key new).properties p).map Prod.snd) = _
        rw [properties_setProperty hmade]
        exact cells_put h hold hnew
      · show Value.cells (((m.setProperty p key new).properties p).map Prod.snd) = _
        rw [properties_setProperty_of_not_hasObject hmade]
        rfl
    · show Value.cells (((m.setProperty o key new).properties p).map Prod.snd) = _
      rw [properties_setProperty_of_ne hp]
      rfl
  | _ => rfl

theorem hasObject_of_property? {o : ObjectId} {key : String} (h : m.property? o key = some old) : m.HasObject o := by
  by_contra ho
  simp [property?, properties, Array.getD_eq_getD_getElem?, Array.getElem?_eq_none (Nat.le_of_not_lt ho)] at h

/-- A property that is there and keeps nothing alive can be overwritten by such a value, and then has it. -/
theorem exists_write (h : m.read r = .ok old) (hthere : old ≠ .undefined) (hold : old.cell? = none)
    (hnew : new.cell? = none) : ∃ n, m.write r new = .ok n ∧ n.read r = .ok new := by
  obtain ⟨o, ho, -⟩ := exists_of_bind_eq_ok h
  obtain rfl := eq_of_target ho
  have hproperty : m.property? r.object r.key = some old := by
    have hread := eq_of_read h
    cases hp : m.property? r.object r.key with
    | none =>
      rw [hp] at hread
      exact absurd hread.symm hthere
    | some v =>
      rw [hp] at hread
      exact congrArg some hread
  refine ⟨m.setProperty r.object r.key new, by rw [write, ho]; rfl, ?_⟩
  have htarget : (m.setProperty r.object r.key new).target r = .ok r.object := by
    rw [← ho, target, target, isAlive_setProperty hproperty hold hnew]
  rw [read, htarget]
  show Except.ok _ = _
  rw [property?_setProperty (hasObject_of_property? hproperty), if_pos rfl]
  rfl

end Memory

/-- A target that holds an integer can be given a value that keeps nothing alive, and then holds it. -/
theorem Target.exists_write {target : Target} {a : Int64} (h : target.read m s = .ok (.int a)) (hnew : new.IsScalar) :
    ∃ n, target.write new s m = .ok n ∧ target.read n s = .ok new := by
  cases target with
  | declare name => cases h
  | existing name =>
    obtain ⟨v, hv, -⟩ := exists_of_bind_eq_ok h
    obtain ⟨n, hn, hlookup⟩ := Memory.exists_update hv new
    refine ⟨n, hn, ?_⟩
    show (do n.resolve (← n.lookup s name)) = _
    rw [hlookup]
    cases new <;> first | rfl | exact hnew.elim
  | property r =>
    have hcell : new.cell? = none := by cases new <;> first | rfl | exact hnew.elim
    exact Memory.exists_write h (by simp) rfl hcell

end Writes

/-! ## Compound assignments and steps -/

section Expressions

variable {σ : Type}

/-- How an expression at a place ends that puts a computed value at a target: the target holds the value then, and the
answer is made from it; or there was an error, and nothing has changed. -/
def Target.Receives (target : Target) (scope : ScopeId) (span : Span) (outcome : Except RuntimeError Value)
    (answer : Value → Value) (m : Machine σ) (r : Except RuntimeFault Value × Machine σ) : Prop :=
  match outcome with
  | .ok v => ∃ n, target.write v scope m.memory = .ok n ∧ target.read n scope = .ok v ∧
      r = (.ok (answer v), { m with memory := n })
  | .error e => r = (.error ⟨e, span⟩, m)

/-- From a machine `m`, a compound assignment applies `base` to `a`, which is at its target, and `b`: these are what its
parts give, and `m'` is where they leave the machine. -/
structure Expression.Compounds (calls : Calls σ) (scope : ScopeId) (e : Expression) (base : OperatorKind)
    (a b : Int64) (target : Target) (m m' : Machine σ) : Prop where
  shape : e.checkShape = none
  operator : ∃ op, e.operator? = some op ∧ op.compoundBase = some base
  parts : ∃ m₁, Operand.evalSlot calls scope e.span e.right m = (.ok (.int b), m₁) ∧
    Operand.slotTarget calls scope e.span false e.written m₁ = (.ok target, m')
  current : target.read m'.memory scope = .ok (.int a)

/-- At a machine, an expression is a step up or down of a variable that holds `a`. -/
structure Expression.Steps (scope : ScopeId) (e : Expression) (op : OperatorKind) (name : String) (a : Int64)
    (m : Machine σ) : Prop where
  shape : e.checkShape = none
  operator : e.operator? = some op
  direction : op = .inc ∨ op = .dec
  written : ∃ place, e.written = some (.var ⟨name, .use, place⟩)
  current : (Target.existing name).read m.memory scope = .ok (.int a)

variable {host : Host σ} {limit : Nat} {scope : ScopeId} {e : Expression} {op base : OperatorKind} {a b : Int64}
  {target : Target} {name : String} {m m' : Machine σ}

/-- A value that is computed for a target which holds an integer is received by it, or the error is. -/
theorem receives_write (span : Span) {outcome : Except RuntimeError Value} (answer : Value → Value)
    (hread : target.read m.memory scope = .ok (.int a)) (h : Plain outcome) :
    target.Receives scope span outcome answer m ((do
      let v ← Eval.lift span outcome
      updateMemory span (target.write v scope)
      return answer v : Eval σ Value) m) := by
  cases outcome with
  | ok v =>
    obtain ⟨n, hwrite, hafter⟩ := target.exists_write hread (h.2 v rfl)
    refine ⟨n, hwrite, hafter, ?_⟩
    show (updateMemory span (target.write v scope) >>= fun _ => pure (answer v) : Eval σ Value) m = _
    rw [Eval.bind_apply, updateMemory_apply, hwrite]
    rfl
  | error e => rfl

theorem Target.Receives.held {span : Span} {outcome : Except RuntimeError Value} {answer : Value → Value}
    {r : Except RuntimeFault Value × Machine σ} (h : target.Receives scope span outcome answer m r) :
    r.2.memory.held = m.memory.held := by
  cases outcome with
  | ok v =>
    obtain ⟨n, hwrite, -, rfl⟩ := h
    exact held_write hwrite
  | error e =>
    obtain rfl : r = _ := h
    rfl

theorem Target.Receives.holding_nil {span : Span} {outcome : Except RuntimeError Value} {answer : Value → Value}
    {act : Eval σ Value} (h : target.Receives scope span outcome answer m' (act m))
    (hheld : m'.memory.held = m.memory.held) : target.Receives scope span outcome answer m' (holding [] act m) := by
  rw [GameScript.holding_nil]
  · exact h
  · rw [h.held, hheld]

theorem receives_compound (h : e.Compounds (callsAt host limit m.depth) scope base a b target m m') :
    target.Receives scope e.span (applyBinary base (.int a) (.int b)) id m'
      (e.eval (callsAt host limit m.depth) scope m) := by
  obtain ⟨hshape, ⟨op, hop, hbase⟩, ⟨m₁, hvalue, htarget⟩, hread⟩ := h
  have hdepth : m₁.depth = m.depth := by
    have hneutral := neutral_slotValue host limit m.depth scope e.span e.right m rfl
    rw [hvalue] at hneutral
    exact hneutral.1
  have hheld : m'.memory.held = m₁.memory.held := by
    have hneutral := neutral_slotTarget host limit m.depth scope e.span false e.written m₁ hdepth
    rw [htarget] at hneutral
    exact hneutral.2
  have hreceives := receives_write e.span id hread (plain_applyBinary base (.int a) (.int b))
  rw [eval_of_compound hop hbase hshape, assignWith, Eval.bind_apply, hvalue]
  -- an integer keeps nothing alive, so nothing more is held for the rest
  show target.Receives scope e.span _ id m' (holding [] _ m₁)
  refine Target.Receives.holding_nil ?_ hheld
  rw [Eval.bind_apply, htarget]
  show target.Receives scope e.span _ id m' ((Eval.lift e.span (target.read m'.memory scope) >>= _) m')
  rw [hread]
  exact hreceives

theorem receives_step (calls : Calls σ) (h : e.Steps scope op name a m) :
    ∃ outcome, ExactOrRefused op a.toInt 1 outcome ∧ (Target.existing name).Receives scope e.span outcome
      (fun v => if e.left.isNone then v else .int a) m (e.eval calls scope m) := by
  obtain ⟨hshape, hop, hstep, ⟨place, hwritten⟩, hread⟩ := h
  have hresult : IsResult op a.toInt 1 (if op = .inc then a.toInt + 1 else a.toInt - 1) := by
    rcases hstep with rfl | rfl
    · exact .inc _
    · exact .dec _
  refine ⟨_, exactOrRefused_checked hresult, ?_⟩
  have htarget : Operand.slotTarget calls scope e.span false e.written = pure (.existing name) := by
    rw [hwritten, Operand.slotTarget, Operand.target]
  rw [eval_of_step hop hstep hshape, htarget]
  have hplain : Plain (checked op (if op = .inc then a.toInt + 1 else a.toInt - 1)) := plain_checked _
  have hreceives := receives_write e.span (fun v => if e.left.isNone then v else .int a) hread hplain
  show (Target.existing name).Receives scope e.span _ _ m ((Eval.lift e.span
    ((Target.existing name).read m.memory scope) >>= _) m)
  rw [hread]
  exact hreceives

/-- Integer arithmetic is exact or refused, but for one remainder: on two integers, in compound assignments to targets
that hold one, and in steps of variables that do. -/
theorem integers_exact_or_refused (host : Host σ) (limit : Nat) (scope : ScopeId) :
    (∀ op ∈ [OperatorKind.add, .sub, .mul, .div, .mod], ∀ a b : Int64, ¬IsLeastByMinusOne op a b →
      ExactOrRefused op a.toInt b.toInt (applyBinary op (.int a) (.int b))) ∧
    (∀ (e : Expression) (base : OperatorKind) (a b : Int64) (target : Target) (m m' : Machine σ),
      e.Compounds (callsAt host limit m.depth) scope base a b target m m' → ¬IsLeastByMinusOne base a b →
      ∃ outcome, ExactOrRefused base a.toInt b.toInt outcome ∧
        target.Receives scope e.span outcome id m' (e.eval (callsAt host limit m.depth) scope m)) ∧
    ∀ (e : Expression) (op : OperatorKind) (name : String) (a : Int64) (m : Machine σ), e.Steps scope op name a m →
      ∃ outcome, ExactOrRefused op a.toInt 1 outcome ∧ (Target.existing name).Receives scope e.span outcome
        (fun v => if e.left.isNone then v else .int a) m (e.eval (callsAt host limit m.depth) scope m) := by
  refine ⟨fun op hop a b hcase => exactOrRefused_applyBinary hop hcase, ?_, ?_⟩
  · intro e base a b target m m' h hcase
    obtain ⟨op, -, hbase⟩ := h.operator
    have hmem : base ∈ [OperatorKind.add, .sub, .mul, .div, .mod] := by cases op <;> cases hbase <;> decide
    exact ⟨_, exactOrRefused_applyBinary hmem hcase, receives_compound h⟩
  · intro e op name a m h
    exact receives_step _ h

end Expressions

/-- One variable, which holds -7. -/
def sevenBelow : Machine Unit := ⟨{ scopes := #[⟨[("x", .int (-7))], none, 0⟩] }, 0, ()⟩

/-- `x %= 3` -/
def reduced : Expression := .binary (.var ⟨"x", .use, {}⟩) ⟨.modAssign, {}⟩ (.value (.int 3)) {}

/-- `x--` -/
def lowered : Expression := .postfixed (.var ⟨"x", .use, {}⟩) ⟨.dec, {}⟩ {}

theorem integers_exact_or_refused_below_zero :
    ExactOrRefused .div (Int64.toInt (-7)) (Int64.toInt 2) (applyBinary .div (.int (-7)) (.int 2)) ∧
    (∃ outcome, ExactOrRefused .mod (Int64.toInt (-7)) (Int64.toInt 3) outcome ∧
      (Target.existing "x").Receives ⟨0⟩ {} outcome id sevenBelow
        (reduced.eval (callsAt idleHost 5 0) ⟨0⟩ sevenBelow)) ∧
    ∃ outcome, ExactOrRefused .dec (Int64.toInt (-7)) 1 outcome ∧
      (Target.existing "x").Receives ⟨0⟩ {} outcome (fun v => if lowered.left.isNone then v else .int (-7))
        sevenBelow (lowered.eval (callsAt idleHost 5 0) ⟨0⟩ sevenBelow) := by
  obtain ⟨hoperator, hcompound, hstep⟩ := integers_exact_or_refused idleHost 5 ⟨0⟩
  refine ⟨hoperator .div (by decide) (-7) 2 ?_, ?_, ?_⟩
  · rintro ⟨h, -, -⟩
    cases h
  · have hreduced : reduced.Compounds (callsAt idleHost 5 0) ⟨0⟩ .mod (-7) 3 (.existing "x") sevenBelow
        sevenBelow := ⟨rfl, ⟨.modAssign, rfl, rfl⟩, ⟨sevenBelow, rfl, rfl⟩, rfl⟩
    refine hcompound reduced .mod (-7) 3 (.existing "x") sevenBelow sevenBelow hreduced ?_
    rintro ⟨-, -, h⟩
    cases h
  · exact hstep lowered .dec "x" (-7) sevenBelow ⟨rfl, rfl, .inr rfl, ⟨{}, rfl⟩, rfl⟩

/-- The remainder of the least integer by -1 is 0, and is refused. -/
theorem remainder_refused :
    IsResult .mod Int64.minValue.toInt (Int64.toInt (-1)) 0 ∧ InRange 0 ∧
      applyBinary .mod (.int Int64.minValue) (.int (-1)) = .error (.integerOverflow .mod) := by
  have hsplit : Truncates Int64.minValue.toInt (Int64.toInt (-1)) 9223372036854775808 0 :=
    ⟨by decide, by decide, by decide, by decide⟩
  exact ⟨.mod hsplit, by decide, rfl⟩

end GameScript
