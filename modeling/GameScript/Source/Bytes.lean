/-!
# Characters and their bytes

Texts are lists of characters; places in them are byte offsets into the UTF-8 form. `dropBytes` and `takeBytes`
cut a text at a byte offset and have no answer inside a character, so `slice` is defined exactly for ranges that
start and stop on character boundaries.

Main statements: what is taken and what is dropped make up the text (`takeBytes_append_dropBytes`), and a cut
after a text's own bytes gives that text back (`takeBytes_append`, `dropBytes_append`), so that a part of a text can
be cut out of it (`slice_append`).
-/

namespace GameScript

/-- The number of bytes of a text. -/
def byteLength : List Char → Nat
  | [] => 0
  | c :: cs => c.utf8Size + byteLength cs

@[simp] theorem byteLength_nil : byteLength [] = 0 := rfl

@[simp] theorem byteLength_cons (c : Char) (cs : List Char) : byteLength (c :: cs) = c.utf8Size + byteLength cs := rfl

@[simp] theorem byteLength_append (cs ds : List Char) : byteLength (cs ++ ds) = byteLength cs + byteLength ds := by
  induction cs with
  | nil => simp
  | cons c cs ih => rw [List.cons_append, byteLength_cons, byteLength_cons, ih, Nat.add_assoc]

theorem byteLength_pos {cs : List Char} (h : cs ≠ []) : 0 < byteLength cs := by
  obtain ⟨c, cs, rfl⟩ := List.exists_cons_of_ne_nil h
  have hc := c.utf8Size_pos
  simp only [byteLength_cons]
  omega

/-- The text after its first `n` bytes. -/
def dropBytes : Nat → List Char → Option (List Char)
  | 0, cs => some cs
  | _ + 1, [] => none
  | n + 1, c :: cs => if c.utf8Size ≤ n + 1 then dropBytes (n + 1 - c.utf8Size) cs else none

/-- The first `n` bytes of a text. -/
def takeBytes : Nat → List Char → Option (List Char)
  | 0, _ => some []
  | _ + 1, [] => none
  | n + 1, c :: cs => if c.utf8Size ≤ n + 1 then (takeBytes (n + 1 - c.utf8Size) cs).map (c :: ·) else none

/-- The characters between two byte offsets. -/
def slice (start stop : Nat) (cs : List Char) : Option (List Char) :=
  if start ≤ stop then (dropBytes start cs).bind (takeBytes (stop - start)) else none

theorem dropBytes_append (cs ds : List Char) : dropBytes (byteLength cs) (cs ++ ds) = some ds := by
  induction cs with
  | nil => cases ds <;> rfl
  | cons c cs ih =>
    have hc := Char.utf8Size_pos c
    obtain ⟨n, hn⟩ : ∃ n, byteLength (c :: cs) = n + 1 := ⟨byteLength (c :: cs) - 1, by simp; omega⟩
    have hle : c.utf8Size ≤ n + 1 := by rw [← hn]; simp
    have hsub : n + 1 - c.utf8Size = byteLength cs := by rw [← hn]; simp
    rw [hn, List.cons_append, dropBytes, if_pos hle, hsub, ih]

theorem takeBytes_append (cs ds : List Char) : takeBytes (byteLength cs) (cs ++ ds) = some cs := by
  induction cs with
  | nil => cases ds <;> rfl
  | cons c cs ih =>
    have hc := Char.utf8Size_pos c
    obtain ⟨n, hn⟩ : ∃ n, byteLength (c :: cs) = n + 1 := ⟨byteLength (c :: cs) - 1, by simp; omega⟩
    have hle : c.utf8Size ≤ n + 1 := by rw [← hn]; simp
    have hsub : n + 1 - c.utf8Size = byteLength cs := by rw [← hn]; simp
    rw [hn, List.cons_append, takeBytes, if_pos hle, hsub, ih]
    rfl

theorem slice_append (before w after : List Char) :
    slice (byteLength before) (byteLength before + byteLength w) (before ++ w ++ after) = some w := by
  rw [List.append_assoc, slice, if_pos (Nat.le_add_right ..), dropBytes_append, Nat.add_sub_cancel_left]
  exact takeBytes_append w after

theorem takeBytes_append_dropBytes {n : Nat} {cs front back : List Char}
    (hf : takeBytes n cs = some front) (hb : dropBytes n cs = some back) : front ++ back = cs := by
  induction cs generalizing n front back with
  | nil =>
    cases n with
    | zero => simp [takeBytes, dropBytes] at hf hb; simp [hf, hb]
    | succ n => simp [takeBytes] at hf
  | cons c cs ih =>
    cases n with
    | zero => simp [takeBytes, dropBytes] at hf hb; simp [hf, hb]
    | succ n =>
      rw [takeBytes] at hf
      rw [dropBytes] at hb
      split at hf
      · rename_i hle
        rw [if_pos hle] at hb
        obtain ⟨front', hf', rfl⟩ := Option.map_eq_some_iff.1 hf
        simp [ih hf' hb]
      · cases hf

end GameScript
