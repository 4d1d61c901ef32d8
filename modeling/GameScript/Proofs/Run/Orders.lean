import GameScript.Run.Arithmetic
import GameScript.Proofs.Text.ByteOrder
import GameScript.Proofs.Text.Numbers

/-!
# Operators never convert, and their orders agree

Whatever two values are, `==` and `!=` answer, each the opposite of the other (`comparesAlike`). Any other operator wants
two values of one type, and then does what its type has for it (`yields_applyBinary`). Integers and strings are in order:
for each of the two types there is a key of a linear order that the operators compare by (`ordered_of_key`), the number
itself for integers and the characters for strings.

Main statement: `operators_never_convert`.
-/

namespace GameScript

/-! ## What is to be shown -/

/-- An operator answers `true`. -/
def OperatorKind.Holds (op : OperatorKind) (l r : Value) : Prop := applyBinary op l r = .ok (.bool true)

/-- Whether an operator answers a truth value for operands of any type that has it. -/
def OperatorKind.compares : OperatorKind → Bool
  | .eq | .ne | .lt | .le | .gt | .ge => true
  | _ => false

/-- The types that have an operator; `==` and `!=` ask for none. -/
def OperatorKind.operandTypes : OperatorKind → List ValueType
  | .add | .lt | .le | .gt | .ge => [.int, .float, .string]
  | .sub | .mul | .div => [.int, .float]
  | .mod => [.int]
  | .and | .or => [.bool]
  | _ => []

/-- The type of what an operator answers for operands of a type. -/
def OperatorKind.answerType (op : OperatorKind) (t : ValueType) : ValueType := if op.compares then .bool else t

/-- What may come of an operator and two values of one type: an answer or a fault of arithmetic where the type has the
operator, and an error that says so where it has not. -/
inductive OperatorKind.Yields (op : OperatorKind) (t : ValueType) : Except RuntimeError Value → Prop
  | answer {v : Value} (ht : t ∈ op.operandTypes) (hv : v.type = op.answerType t) : op.Yields t (.ok v)
  | overflow (ht : t = .int) (hop : op ∈ [.add, .sub, .mul, .div, .mod]) : op.Yields t (.error (.integerOverflow op))
  | zero (ht : t = .int) (hop : op ∈ [.div, .mod]) : op.Yields t (.error .divisionByZero)
  | undefined (ht : t ∉ op.operandTypes) : op.Yields t (.error (.typeError (.undefinedFor op t)))

/-- What `==` and `!=` say of two values, and of the same two the other way round. -/
structure Value.ComparesAlike (l r : Value) : Prop where
  answers : ∃ b, applyBinary .eq l r = .ok (.bool b) ∧ applyBinary .ne l r = .ok (.bool (!b))
  eq_symm : applyBinary .eq r l = applyBinary .eq l r
  ne_symm : applyBinary .ne r l = applyBinary .ne l r
  across : l.type ≠ r.type → applyBinary .eq l r = .ok (.bool false) ∧ applyBinary .ne l r = .ok (.bool true)

/-- The values of a type are in order: the operators answer for any two of them, and agree with one another. -/
structure ValueType.Ordered (t : ValueType) : Prop where
  answers : ∀ l r : Value, l.type = t → r.type = t → ∀ op ∈ [OperatorKind.eq, .lt, .le, .gt, .ge],
    ∃ b, applyBinary op l r = .ok (.bool b)
  exactlyOne : ∀ l r : Value, l.type = t → r.type = t →
    (OperatorKind.lt.Holds l r ∧ ¬OperatorKind.eq.Holds l r ∧ ¬OperatorKind.gt.Holds l r) ∨
      (¬OperatorKind.lt.Holds l r ∧ OperatorKind.eq.Holds l r ∧ ¬OperatorKind.gt.Holds l r) ∨
      (¬OperatorKind.lt.Holds l r ∧ ¬OperatorKind.eq.Holds l r ∧ OperatorKind.gt.Holds l r)
  le_iff : ∀ l r : Value, l.type = t → r.type = t →
    (OperatorKind.le.Holds l r ↔ OperatorKind.lt.Holds l r ∨ OperatorKind.eq.Holds l r)
  ge_iff : ∀ l r : Value, l.type = t → r.type = t →
    (OperatorKind.ge.Holds l r ↔ OperatorKind.gt.Holds l r ∨ OperatorKind.eq.Holds l r)
  trans : ∀ u v w : Value, u.type = t → v.type = t → w.type = t →
    OperatorKind.lt.Holds u v → OperatorKind.lt.Holds v w → OperatorKind.lt.Holds u w

/-- The codes of the characters of a text. -/
def codes (s : String) : List Nat := s.toList.map Char.toNat

/-! ## Equality -/

section Equality

variable {l r : Value}

theorem Value.equals_comm (l r : Value) : l.equals r = r.equals l := by
  cases l with
  | float x =>
    cases r with
    | float y => exact float_beq_comm x y
    | _ => rfl
  | reference p =>
    cases r with
    | reference q =>
      show (p.object == q.object && p.key == q.key) = (q.object == p.object && q.key == p.key)
      rw [BEq.comm, BEq.comm (a := p.key)]
    | _ => rfl
  | undefined => cases r <;> rfl
  | _ =>
    cases r <;> first | rfl | exact BEq.comm

theorem Value.equals_of_type_ne (h : l.type ≠ r.type) : l.equals r = false := by
  cases l <;> cases r <;> first | rfl | exact absurd rfl h

theorem comparesAlike (l r : Value) : l.ComparesAlike r where
  answers := ⟨l.equals r, rfl, rfl⟩
  eq_symm := by rw [applyBinary, applyBinary, l.equals_comm r]
  ne_symm := by rw [applyBinary, applyBinary, l.equals_comm r]
  across h := by
    rw [applyBinary, applyBinary, Value.equals_of_type_ne h]
    exact ⟨rfl, rfl⟩

end Equality

/-! ## Operands of one type -/

section OneType

variable {op : OperatorKind} {t : ValueType} {outcome : Except RuntimeError Value}

theorem yields_checked (hop : op ∈ [.add, .sub, .mul, .div, .mod]) (n : Int) : op.Yields .int (checked op n) := by
  have hint : .int ∈ op.operandTypes ∧ op.answerType .int = .int := by
    cases op <;> first | decide | simp at hop
  unfold checked
  split
  · exact .answer hint.1 hint.2.symm
  · exact .overflow rfl hop

theorem yields_intArithmetic {a b : Int} (h : intArithmetic op a b = some outcome) : op.Yields .int outcome := by
  cases op
  case add | sub | mul =>
    obtain rfl := Option.some.inj h
    exact yields_checked (by simp) _
  case div =>
    obtain rfl := Option.some.inj h
    split
    · exact .zero rfl (by simp)
    · exact yields_checked (by simp) _
  case mod =>
    obtain rfl := Option.some.inj h
    split
    · exact .zero rfl (by simp)
    · split
      · exact yields_checked (by simp) _
      · exact .overflow rfl (by simp)
  all_goals cases h

theorem yields_floatArithmetic {a b : Float} (h : (floatArithmetic op a b).map (.ok <| .float ·) = some outcome) :
    op.Yields .float outcome := by
  cases op
  case add | sub | mul | div =>
    obtain rfl := Option.some.inj h
    exact .answer (by decide) rfl
  all_goals cases h

theorem yields_orderAnswer {lt le gt ge : Bool} (ht : t ∈ [.int, .float, .string])
    (h : (orderAnswer op lt le gt ge).map (.ok <| .bool ·) = some outcome) : op.Yields t outcome := by
  cases op
  case lt | le | gt | ge =>
    obtain rfl := Option.some.inj h
    exact .answer ht rfl
  all_goals cases h

/-- What is done for two values of a type is what the type has the operator for. -/
theorem yields_applySame {l r : Value} (h : applySame op l r = some outcome) : op.Yields l.type outcome := by
  cases l <;> cases r <;> try cases h
  case int.int a b =>
    rcases Option.or_eq_some_iff.1 h with h | ⟨-, h⟩
    · exact yields_intArithmetic h
    · exact yields_orderAnswer (by simp [Value.type]) h
  case float.float a b =>
    rcases Option.or_eq_some_iff.1 h with h | ⟨-, h⟩
    · exact yields_floatArithmetic h
    · exact yields_orderAnswer (by simp [Value.type]) h
  case string.string a b =>
    rw [applySame] at h
    split at h
    · rename_i hop
      obtain rfl := hop
      obtain rfl := Option.some.inj h
      exact .answer (by simp [Value.type, OperatorKind.operandTypes]) rfl
    · exact yields_orderAnswer (by simp [Value.type]) h
  case bool.bool a b =>
    cases op
    case and | or =>
      obtain rfl := Option.some.inj h
      exact .answer (by simp [Value.type, OperatorKind.operandTypes]) rfl
    all_goals cases h

theorem isSome_applySame {l r : Value} (htype : l.type = r.type) (h : l.type ∈ op.operandTypes) :
    (applySame op l r).isSome = true := by
  cases l <;> cases r <;> cases htype <;> cases op <;>
    first | rfl | simp [Value.type, OperatorKind.operandTypes] at h

/-- What comes of an operator and two values of one type. -/
theorem yields_applyBinary {l r : Value} (heq : op ≠ .eq) (hne : op ≠ .ne) (htype : l.type = r.type) :
    op.Yields l.type (applyBinary op l r) := by
  have happly : applyBinary op l r = (applySame op l r).getD (.error (.typeError (.undefinedFor op l.type))) := by
    unfold applyBinary
    rw [if_pos htype]
    cases op <;> first | rfl | contradiction
  rw [happly]
  cases hsame : applySame op l r with
  | some outcome => exact yields_applySame hsame
  | none =>
    refine .undefined fun hmem => ?_
    have hsome := isSome_applySame htype hmem
    rw [hsame] at hsome
    cases hsome

end OneType

/-! ## Order -/

section Order

variable {κ : Type} [LinearOrder κ]

/-- A type is in order when its operators compare by a key of a linear order, which tells its values apart. -/
theorem ordered_of_key {t : ValueType} (key : Value → κ)
    (h : ∀ l r : Value, l.type = t → r.type = t →
      applyBinary .eq l r = .ok (.bool (key l = key r)) ∧ applyBinary .lt l r = .ok (.bool (key l < key r)) ∧
        applyBinary .le l r = .ok (.bool (key l ≤ key r)) ∧ applyBinary .gt l r = .ok (.bool (key r < key l)) ∧
        applyBinary .ge l r = .ok (.bool (key r ≤ key l))) : t.Ordered := by
  have holds {op : OperatorKind} {l r : Value} {p : Prop} [Decidable p] (h : applyBinary op l r = .ok (.bool p)) :
      op.Holds l r ↔ p := by
    simp [OperatorKind.Holds, h]
  refine ⟨fun l r hl hr op hop => ?_, fun l r hl hr => ?_, fun l r hl hr => ?_, fun l r hl hr => ?_,
    fun u v w hu hv hw huv hvw => ?_⟩
  · obtain ⟨heq, hlt, hle, hgt, hge⟩ := h l r hl hr
    simp only [List.mem_cons, List.not_mem_nil, or_false] at hop
    rcases hop with rfl | rfl | rfl | rfl | rfl
    · exact ⟨_, heq⟩
    · exact ⟨_, hlt⟩
    · exact ⟨_, hle⟩
    · exact ⟨_, hgt⟩
    · exact ⟨_, hge⟩
  · obtain ⟨heq, hlt, -, hgt, -⟩ := h l r hl hr
    rw [holds heq, holds hlt, holds hgt]
    rcases lt_trichotomy (key l) (key r) with hkey | hkey | hkey
    · exact .inl ⟨hkey, hkey.ne, hkey.not_gt⟩
    · exact .inr (.inl ⟨hkey.not_lt, hkey, hkey.not_gt⟩)
    · exact .inr (.inr ⟨hkey.not_gt, hkey.ne', hkey⟩)
  · obtain ⟨heq, hlt, hle, -, -⟩ := h l r hl hr
    rw [holds heq, holds hlt, holds hle, le_iff_lt_or_eq]
  · obtain ⟨heq, -, -, hgt, hge⟩ := h l r hl hr
    rw [holds heq, holds hgt, holds hge, le_iff_lt_or_eq, eq_comm]
  · rw [holds (h u v hu hv).2.1] at huv
    rw [holds (h v w hv hw).2.1] at hvw
    rw [holds (h u w hu hw).2.1]
    exact huv.trans hvw

/-- A truth value is the answer to a question. -/
theorem answer_congr {b : Bool} {p : Prop} [Decidable p] (h : b = true ↔ p) :
    (Except.ok (Value.bool b) : Except RuntimeError Value) = .ok (.bool p) := by
  rw [Bool.eq_iff_iff.2 (h.trans decide_eq_true_iff.symm)]

theorem ordered_int : ValueType.int.Ordered := by
  refine ordered_of_key (fun v => (v.asInt?.map Int64.toInt).getD 0) fun l r hl hr => ?_
  cases l <;> cases hl
  cases r <;> cases hr
  rename_i a b
  have hlt (a b : Int64) : decide (a < b) = true ↔ a.toInt < b.toInt :=
    decide_eq_true_iff.trans Int64.lt_iff_toInt_lt
  have hle (a b : Int64) : decide (a ≤ b) = true ↔ a.toInt ≤ b.toInt :=
    decide_eq_true_iff.trans Int64.le_iff_toInt_le
  have heq : (a == b) = true ↔ a.toInt = b.toInt := beq_iff_eq.trans Int64.toInt_inj.symm
  exact ⟨answer_congr heq, answer_congr (hlt a b), answer_congr (hle a b), answer_congr (hlt b a),
    answer_congr (hle b a)⟩

theorem ordered_string : ValueType.string.Ordered := by
  refine ordered_of_key (fun v => v.asString?.getD "") fun l r hl hr => ?_
  cases l <;> cases hl
  cases r <;> cases hr
  rename_i s t
  have hlt (s t : String) : decide (s < t) = true ↔ s < t := decide_eq_true_iff
  have hle (s t : String) : (!decide (t < s)) = true ↔ s ≤ t := by
    rw [Bool.not_eq_true', decide_eq_false_iff_not, not_lt]
  exact ⟨answer_congr beq_iff_eq, answer_congr (hlt s t), answer_congr (hle s t), answer_congr (hlt t s),
    answer_congr (hle t s)⟩

theorem map_toNat_lt_iff {cs ds : List Char} : cs.map Char.toNat < ds.map Char.toNat ↔ cs < ds := by
  induction cs generalizing ds with
  | nil => cases ds <;> simp
  | cons c cs ih =>
    cases ds with
    | nil => simp
    | cons d ds =>
      have hlt : c.toNat < d.toNat ↔ c < d := Iff.rfl
      rw [List.map_cons, List.map_cons, List.cons_lt_cons_iff, List.cons_lt_cons_iff, ih, Char.toNat_inj, hlt]

theorem codes_lt_iff (s t : String) : codes s < codes t ↔ s < t := map_toNat_lt_iff

end Order

/-! ## All operators -/

/-- **Operators never convert an operand, and their orders agree.** Of the operators on two values, `==` and `!=` answer
whatever the values are; any other one refuses values of two types, and does what the type has for it where there is
one type. Integers are in the order of numbers; strings are in that of the codes of their characters, which is the order
of their bytes. -/
theorem operators_never_convert :
    (∀ l r : Value, l.ComparesAlike r) ∧
      (∀ (op : OperatorKind) (l r : Value), op ≠ .eq → op ≠ .ne →
        (l.type ≠ r.type → applyBinary op l r = .error (.typeMismatch op l.type r.type)) ∧
          (l.type = r.type → op.Yields l.type (applyBinary op l r))) ∧
      (∀ t ∈ [ValueType.int, .string], t.Ordered) ∧
      (∀ a b : Int64, OperatorKind.lt.Holds (.int a) (.int b) ↔ a.toInt < b.toInt) ∧
      ∀ s t : String, (OperatorKind.lt.Holds (.string s) (.string t) ↔ codes s < codes t) ∧
        (codes s < codes t ↔ s.toUTF8.data.toList < t.toUTF8.data.toList) := by
  refine ⟨comparesAlike, fun op l r heq hne => ⟨fun h => applyBinary_of_type_ne h heq hne,
    yields_applyBinary heq hne⟩, fun t ht => ?_, fun a b => ?_, fun s t => ⟨?_, ?_⟩⟩
  · simp only [List.mem_cons, List.not_mem_nil, or_false] at ht
    rcases ht with rfl | rfl
    · exact ordered_int
    · exact ordered_string
  · have hlt : applyBinary .lt (.int a) (.int b) = .ok (.bool (decide (a < b))) := rfl
    simp [OperatorKind.Holds, hlt, Int64.lt_iff_toInt_lt]
  · have hlt : applyBinary .lt (.string s) (.string t) = .ok (.bool (decide (s < t))) := rfl
    rw [OperatorKind.Holds, hlt, codes_lt_iff]
    simp
  · rw [codes_lt_iff, Text.toUTF8_lt_iff]

/-- A string is no number, and truth values have no order. The two characters at the end are the other way round in the
order of 16-bit units. -/
theorem operators_never_convert_mixed :
    (Value.int 1).type ≠ (Value.string "1").type ∧
      applyBinary .add (.int 1) (.string "1") = .error (.typeMismatch .add .int .string) ∧
      applyBinary .eq (.int 1) (.string "1") = .ok (.bool false) ∧
      OperatorKind.lt.Yields .bool (applyBinary .lt (.bool false) (.bool true)) ∧
      OperatorKind.lt.Holds (.string "\uffff") (.string "😀") := by
  obtain ⟨hequality, hother, -, -, hstrings⟩ := operators_never_convert
  have htype : (Value.int 1).type ≠ (Value.string "1").type := by decide
  have hcodes : codes "\uffff" < codes "😀" := by decide
  exact ⟨htype, (hother .add _ _ (by decide) (by decide)).1 htype, ((hequality _ _).across htype).1,
    (hother .lt (.bool false) (.bool true) (by decide) (by decide)).2 rfl, (hstrings _ _).1.2 hcodes⟩

end GameScript
