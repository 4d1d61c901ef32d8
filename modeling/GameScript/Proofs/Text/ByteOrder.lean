import Mathlib

/-!
# Texts in the order of their bytes

To compare texts by the bytes of UTF-8 is to compare them character by character. A character takes one byte or more:
the first one is marked with how many there are, and all after it have six bits each (`markedBytes`). More bytes have a
greater mark (`lead_lt_lead`), and for as many bytes the highest bits come first (`precedes_markedBytes`); so it is
decided within two different characters which text comes first, whatever follows them (`Precedes`).

Main statement: `toUTF8_lt_iff`.
-/

namespace GameScript.Text

/-- A list comes before another one, whatever stands behind the two. -/
def Precedes (xs ys : List UInt8) : Prop := ∀ us vs, xs ++ us < ys ++ vs

/-- The bytes of a code: what is above its lowest `6 * tails` bits, added to a mark, and then six bits in each byte. -/
def markedBytes (mark : ℕ) : (tails : ℕ) → ℕ → List UInt8
  | 0, v => [UInt8.ofNat (v + mark)]
  | tails + 1, v => markedBytes mark tails (v / 64) ++ [UInt8.ofNat (v % 64 + 128)]

/-- How many bytes a code takes after the first one. -/
def tailCount (v : ℕ) : ℕ := if v ≤ 127 then 0 else if v ≤ 2047 then 1 else if v ≤ 65535 then 2 else 3

/-- What marks a byte that so many belong to. -/
def leadMark : (tails : ℕ) → ℕ
  | 0 => 0
  | 1 => 192
  | 2 => 224
  | _ => 240

/-- The bytes of the character with a code. -/
def bytesOfCode (v : ℕ) : List UInt8 := markedBytes (leadMark (tailCount v)) (tailCount v) v

/-! ## Codes -/

section Codes

variable {m n : ℕ}

theorem precedes_ofNat (h : m < n) (hn : n < 256) (xs ys : List UInt8) :
    Precedes (UInt8.ofNat m :: xs) (UInt8.ofNat n :: ys) := by
  intro us vs
  refine List.cons_lt_cons_iff.2 (.inl (UInt8.lt_iff_toNat_lt.2 ?_))
  rw [UInt8.toNat_ofNat', UInt8.toNat_ofNat', Nat.mod_eq_of_lt (h.trans hn), Nat.mod_eq_of_lt hn]
  exact h

theorem markedBytes_eq_cons (mark tails v : ℕ) :
    ∃ bytes, markedBytes mark tails v = UInt8.ofNat (v / 64 ^ tails + mark) :: bytes := by
  induction tails generalizing v with
  | zero => exact ⟨[], by simp [markedBytes]⟩
  | succ tails ih =>
    obtain ⟨bytes, h⟩ := ih (v / 64)
    refine ⟨bytes ++ [UInt8.ofNat (v % 64 + 128)], ?_⟩
    rw [markedBytes, h, Nat.div_div_eq_div_mul, ← Nat.pow_succ']
    rfl

/-- What is above the lowest six bits comes first; where it is the same, those bits decide. -/
theorem precedes_markedBytes {mark tails : ℕ} (h : m < n) (hn : n / 64 ^ tails + mark < 256) :
    Precedes (markedBytes mark tails m) (markedBytes mark tails n) := by
  induction tails generalizing m n with
  | zero =>
    rw [Nat.pow_zero, Nat.div_one] at hn
    exact precedes_ofNat (Nat.add_lt_add_right h mark) hn [] []
  | succ tails ih =>
    intro us vs
    rw [markedBytes, markedBytes, List.append_assoc, List.append_assoc]
    rcases Nat.lt_or_ge (m / 64) (n / 64) with hlt | hge
    · rw [Nat.pow_succ', ← Nat.div_div_eq_div_mul] at hn
      exact ih hlt hn _ _
    · have heq : m / 64 = n / 64 := Nat.le_antisymm (Nat.div_le_div_right h.le) hge
      rw [heq]
      exact List.append_left_lt (precedes_ofNat (by omega) (by omega) [] [] us vs)

theorem tailCount_mono (h : m ≤ n) : tailCount m ≤ tailCount n := by
  unfold tailCount
  split_ifs <;> omega

theorem lead_lt (hn : n < 1114112) : n / 64 ^ tailCount n + leadMark (tailCount n) < 256 := by
  unfold tailCount
  split_ifs <;> simp only [leadMark] <;> omega

/-- A code that takes more bytes starts with a greater one. -/
theorem lead_lt_lead (h : tailCount m < tailCount n) :
    m / 64 ^ tailCount m + leadMark (tailCount m) < n / 64 ^ tailCount n + leadMark (tailCount n) := by
  unfold tailCount at *
  split_ifs at * <;> simp only [leadMark] at * <;> omega

theorem precedes_bytesOfCode (h : m < n) (hn : n < 1114112) : Precedes (bytesOfCode m) (bytesOfCode n) := by
  unfold bytesOfCode
  rcases (tailCount_mono h.le).lt_or_eq with hlt | heq
  · obtain ⟨bytes, hm⟩ := markedBytes_eq_cons (leadMark (tailCount m)) (tailCount m) m
    obtain ⟨bytes', hn'⟩ := markedBytes_eq_cons (leadMark (tailCount n)) (tailCount n) n
    rw [hm, hn']
    exact precedes_ofNat (lead_lt_lead hlt) (lead_lt hn) _ _
  · rw [heq]
    exact precedes_markedBytes h (lead_lt hn)

end Codes

/-! ## Texts -/

theorem toNat_lt_codeCount (c : Char) : c.toNat < 1114112 := by
  rcases c.valid with h | h
  · exact Nat.lt_trans h (by decide)
  · exact h.2

theorem utf8EncodeChar_eq (c : Char) : String.utf8EncodeChar c = bytesOfCode c.toNat := by
  have hc := toNat_lt_codeCount c
  unfold String.utf8EncodeChar bytesOfCode tailCount
  rw [show c.val.toNat = c.toNat from rfl]
  generalize c.toNat = v at *
  dsimp only
  -- no code is so great that the remainder which its first byte is made of is not all that there is
  split_ifs with h₁ h₂ h₃ <;>
    simp only [markedBytes, leadMark, List.cons_append, List.nil_append, Nat.div_div_eq_div_mul, Nat.reduceMul]
  · rfl
  · rw [Nat.mod_eq_of_lt (by omega : v / 64 < 32)]
  · rw [Nat.mod_eq_of_lt (by omega : v / 4096 < 16)]
  · rw [Nat.mod_eq_of_lt (by omega : v / 262144 < 8)]

theorem flatMap_utf8EncodeChar_lt {cs ds : List Char} (h : cs < ds) :
    cs.flatMap String.utf8EncodeChar < ds.flatMap String.utf8EncodeChar := by
  induction cs generalizing ds with
  | nil =>
    cases ds with
    | nil => exact absurd h (List.lt_irrefl _)
    | cons d ds =>
      obtain ⟨b, bytes, hb⟩ := List.exists_cons_of_ne_nil (String.utf8EncodeChar_ne_nil (c := d))
      rw [List.flatMap_cons, hb]
      exact List.nil_lt_cons _ _
  | cons c cs ih =>
    cases ds with
    | nil => exact absurd h (List.not_lt_nil _)
    | cons d ds =>
      rw [List.flatMap_cons, List.flatMap_cons]
      rcases List.cons_lt_cons_iff.1 h with hlt | ⟨rfl, hlt⟩
      · rw [utf8EncodeChar_eq c, utf8EncodeChar_eq d]
        exact precedes_bytesOfCode hlt (toNat_lt_codeCount d) _ _
      · exact List.append_left_lt (ih hlt)

theorem toList_data_toUTF8 (s : String) : s.toUTF8.data.toList = s.toList.flatMap String.utf8EncodeChar := by
  rw [String.toUTF8_eq_toByteArray, ← String.utf8Encode_toList, List.utf8Encode]
  simp

/-- The bytes of texts are in the order of their characters. -/
theorem toUTF8_lt_iff (s t : String) : s.toUTF8.data.toList < t.toUTF8.data.toList ↔ s < t := by
  have hmono {s t : String} (h : s < t) : s.toUTF8.data.toList < t.toUTF8.data.toList := by
    rw [toList_data_toUTF8, toList_data_toUTF8]
    exact flatMap_utf8EncodeChar_lt (String.lt_iff_toList_lt.1 h)
  rcases lt_trichotomy s t with h | rfl | h
  · exact iff_of_true (hmono h) h
  · exact iff_of_false (List.lt_irrefl _) (lt_irrefl _)
  · exact iff_of_false (List.lt_asymm (hmono h)) (lt_asymm h)

end GameScript.Text
