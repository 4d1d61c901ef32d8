import Mathlib.Data.List.Infix
import GameScript.Token.Scan

/-!
# Block comments and their nesting

`CommentTail` is the grammar of what stands after the opener of a block comment: plain characters, whole comments, and
a closer. `blockComment` counts openers and closers instead.

* **It stops where the grammar does** (`blockComment_tail`): from a tail on, it takes that tail and, inside further
  comments, goes on behind it.
* **It stops nowhere else** (`tails_of_closed`): where it finds the last closer, it has taken one tail for each comment
  that was open.
-/

namespace GameScript

/-- Whether a text starts with the opener or the closer of a block comment. -/
def OpensOrCloses (cs : List Char) : Prop := ['/', '*'] <+: cs ∨ ['*', '/'] <+: cs

/-- The text of a block comment after its opener. Each opener in it has a closer of its own before the last one. -/
inductive CommentTail : List Char → Prop
  | close : CommentTail ['*', '/']
  | plain {c : Char} {cs : List Char} (hplain : ¬OpensOrCloses (c :: cs)) (h : CommentTail cs) : CommentTail (c :: cs)
  | nest {inner cs : List Char} (hinner : CommentTail inner) (h : CommentTail cs) :
      CommentTail ('/' :: '*' :: inner ++ cs)

theorem CommentTail.ne_nil {t : List Char} (h : CommentTail t) : t ≠ [] := by
  cases h <;> simp

/-- Whether a text starts so is decided by its first two characters. -/
theorem opensOrCloses_append {c : Char} {t : List Char} (ht : t ≠ []) (rest : List Char) :
    OpensOrCloses (c :: (t ++ rest)) ↔ OpensOrCloses (c :: t) := by
  obtain ⟨d, u, rfl⟩ := List.exists_cons_of_ne_nil ht
  simp [OpensOrCloses, List.cons_prefix_cons]

/-! ## From the grammar to the cut -/

/-- What is cut of a text behind a closer that ends the innermost comment. -/
def blockCommentAfter : (depth : Nat) → List Char → Cut × Bool
  | 0, rest => (⟨[], rest⟩, true)
  | depth + 1, rest => blockComment depth rest

theorem blockComment_close (depth : Nat) (rest : List Char) : blockComment depth ('*' :: '/' :: rest) =
    ((blockCommentAfter depth rest).1.push ['*', '/'], (blockCommentAfter depth rest).2) := by
  cases depth <;> rfl

theorem blockComment_plain {c : Char} {cs : List Char} (h : ¬OpensOrCloses (c :: cs)) (depth : Nat) :
    blockComment depth (c :: cs) = ((blockComment depth cs).1.push [c], (blockComment depth cs).2) := by
  have hno := not_or.1 h
  apply blockComment.eq_5
  · rintro rest rfl rfl
    exact hno.1 ⟨rest, rfl⟩
  · rintro rest - rfl rfl
    exact hno.2 ⟨rest, rfl⟩
  · rintro d rest - rfl rfl
    exact hno.2 ⟨rest, rfl⟩

theorem blockComment_tail {t : List Char} (h : CommentTail t) (depth : Nat) (rest : List Char) :
    blockComment depth (t ++ rest) =
      ((blockCommentAfter depth rest).1.push t, (blockCommentAfter depth rest).2) := by
  induction h generalizing depth rest with
  | close => exact blockComment_close depth rest
  | @plain c cs hplain h ih =>
    have hplain' : ¬OpensOrCloses (c :: (cs ++ rest)) := by rwa [opensOrCloses_append h.ne_nil]
    rw [List.cons_append, blockComment_plain hplain', ih]
    rfl
  | @nest inner cs _ _ ihinner ih =>
    -- the inner comment ends one comment deeper, and what follows it is read at this depth again
    have hinner := ihinner (depth + 1) (cs ++ rest)
    rw [show blockCommentAfter (depth + 1) (cs ++ rest) = blockComment depth (cs ++ rest) from rfl, ih] at hinner
    simp [blockComment, hinner, Cut.push]

/-! ## From the cut to the grammar -/

/-- As many tails as there are open comments, the innermost first: one, and one for each further comment. -/
def CommentTails : (depth : Nat) → List Char → Prop
  | 0, cs => CommentTail cs
  | depth + 1, cs => ∃ t u, cs = t ++ u ∧ CommentTail t ∧ CommentTails depth u

/-- Something that makes a tail longer makes the first of several tails longer. -/
theorem CommentTails.extend {depth : Nat} {cs : List Char} (h : CommentTails depth cs) (front : List Char)
    (hfront : ∀ t u, cs = t ++ u → CommentTail t → CommentTail (front ++ t)) : CommentTails depth (front ++ cs) := by
  cases depth with
  | zero => exact hfront cs [] (by simp) h
  | succ depth =>
    obtain ⟨t, u, rfl, ht, hu⟩ := h
    exact ⟨front ++ t, u, by simp, hfront t u rfl ht, hu⟩

theorem CommentTails.nest {depth : Nat} {cs : List Char} (h : CommentTails (depth + 1) cs) :
    CommentTails depth ('/' :: '*' :: cs) := by
  obtain ⟨t, u, rfl, ht, hu⟩ := h
  exact hu.extend ('/' :: '*' :: t) fun v _ _ hv => .nest ht hv

theorem tails_of_closed (depth : Nat) (cs : List Char) (h : (blockComment depth cs).2 = true) :
    CommentTails depth (blockComment depth cs).1.taken := by
  fun_induction blockComment depth cs with
  | case1 => cases h
  | case2 depth cs cut closed hrec ih =>
    simp only [hrec] at ih
    exact (ih h).nest
  | case3 cs => exact .close
  | case4 depth cs cut closed hrec ih =>
    simp only [hrec] at ih
    exact ⟨['*', '/'], cut.taken, rfl, .close, ih h⟩
  | case5 depth c cs hopen hclose hclose' cut closed hrec ih =>
    simp only [hrec] at ih
    have htaken : cut.taken ++ cut.rest = cs := by
      have hall := blockComment_append depth cs
      rwa [hrec] at hall
    have hplain : ¬OpensOrCloses (c :: cs) := by
      rintro (⟨rest, hrest⟩ | ⟨rest, hrest⟩)
      · cases hrest
        exact hopen rest rfl rfl
      · cases hrest
        cases depth with
        | zero => exact hclose rest rfl rfl rfl
        | succ depth => exact hclose' depth rest rfl rfl rfl
    apply (ih h).extend [c]
    intro t u hcut ht
    have hsplit : cs = t ++ (u ++ cut.rest) := by rw [← htaken, hcut, List.append_assoc]
    rw [hsplit, opensOrCloses_append ht.ne_nil] at hplain
    exact .plain hplain ht

/-- A block comment that is closed takes the text of one comment. -/
theorem commentTail_of_closed {cs : List Char} (h : (blockComment 0 cs).2 = true) :
    CommentTail (blockComment 0 cs).1.taken :=
  tails_of_closed 0 cs h

end GameScript
