import Mathlib.Data.List.Infix
import Mathlib.Order.Bounds.Basic
import GameScript.Proofs.Token.Comments
import GameScript.Token.Lexer

/-!
# Openers and closers

`commentPieces` cuts a text from left to right into openers and closers of block comments and characters that are
neither. Nothing is counted on the way: how far closers are ahead of openers is asked of the pieces (`SurplusAt`).

* **Where a comment ends** (`blockComment_of_isLeast`, `blockComment_of_not_surplusAt`): behind the first closer that
  is ahead of all openers by one more than the number of comments that are open further out; without one, nowhere.
* **What can be put into a comment** (`commentPieces_append_closer`): a closer put behind a text is a piece of its own,
  unless the text ends in a slash that is no part of a closer.
-/

namespace GameScript

/-- What a text in a block comment is made of. -/
inductive CommentPiece
  | opener
  | closer
  | plain (c : Char)
deriving DecidableEq

/-- The characters of a piece. -/
def CommentPiece.text : CommentPiece → List Char
  | opener => ['/', '*']
  | closer => ['*', '/']
  | plain c => [c]

/-- The characters of pieces. -/
def piecesText (ps : List CommentPiece) : List Char := ps.flatMap CommentPiece.text

/-- The pieces of a text, read from left to right. -/
def commentPieces : List Char → List CommentPiece
  | [] => []
  | '/' :: '*' :: cs => .opener :: commentPieces cs
  | '*' :: '/' :: cs => .closer :: commentPieces cs
  | c :: cs => .plain c :: commentPieces cs

theorem commentPieces_plain {c : Char} {cs : List Char} (h : ¬OpensOrCloses (c :: cs)) :
    commentPieces (c :: cs) = .plain c :: commentPieces cs := by
  have hno := not_or.1 h
  apply commentPieces.eq_4
  · rintro rest rfl rfl
    exact hno.1 ⟨rest, rfl⟩
  · rintro rest rfl rfl
    exact hno.2 ⟨rest, rfl⟩

theorem not_opensOrCloses {c : Char} {cs : List Char} (hopen : ∀ rest, c = '/' → cs = '*' :: rest → False)
    (hclose : ∀ rest, c = '*' → cs = '/' :: rest → False) : ¬OpensOrCloses (c :: cs) := by
  rintro (⟨rest, hrest⟩ | ⟨rest, hrest⟩)
  · cases hrest
    exact hopen rest rfl rfl
  · cases hrest
    exact hclose rest rfl rfl

/-- Nothing of a text is lost. -/
theorem piecesText_commentPieces (cs : List Char) : piecesText (commentPieces cs) = cs := by
  fun_induction commentPieces cs with
  | case1 => rfl
  | case2 cs ih => exact congrArg ('/' :: '*' :: ·) ih
  | case3 cs ih => exact congrArg ('*' :: '/' :: ·) ih
  | case4 c cs hopen hclose ih => exact congrArg (c :: ·) ih

/-! ## Counting -/

/-- Piece number `n` is a closer, and up to it there are `k` closers more than openers. -/
def SurplusAt (k : Nat) (ps : List CommentPiece) (n : Nat) : Prop :=
  ps[n]? = some .closer ∧ (ps.take (n + 1)).count .closer = (ps.take (n + 1)).count .opener + k

instance (k : Nat) (ps : List CommentPiece) (n : Nat) : Decidable (SurplusAt k ps n) :=
  inferInstanceAs (Decidable (_ ∧ _))

section Counting

variable {k n : Nat} {ps : List CommentPiece}

theorem SurplusAt.lt_length (h : SurplusAt k ps n) : n < ps.length := (List.getElem?_eq_some_iff.1 h.1).1

theorem surplusAt_closer_zero : SurplusAt k (.closer :: ps) 0 ↔ k = 1 := by
  simp [SurplusAt, eq_comm]

theorem not_surplusAt_zero {p : CommentPiece} (hp : p ≠ .closer) : ¬SurplusAt k (p :: ps) 0 := by
  simp [SurplusAt, hp]

theorem surplusAt_opener_succ : SurplusAt k (.opener :: ps) (n + 1) ↔ SurplusAt (k + 1) ps n := by
  have hcloser : (CommentPiece.opener == .closer) = false := rfl
  simp only [SurplusAt, List.getElem?_cons_succ, List.take_succ_cons, List.count_cons, beq_self_eq_true, hcloser,
    if_true, Bool.false_eq_true, if_false]
  refine and_congr_right fun _ => ?_
  omega

theorem surplusAt_closer_succ : SurplusAt (k + 1) (.closer :: ps) (n + 1) ↔ SurplusAt k ps n := by
  have hopener : (CommentPiece.closer == .opener) = false := rfl
  simp only [SurplusAt, List.getElem?_cons_succ, List.take_succ_cons, List.count_cons, beq_self_eq_true, hopener,
    if_true, Bool.false_eq_true, if_false]
  refine and_congr_right fun _ => ?_
  omega

theorem surplusAt_plain_succ {c : Char} : SurplusAt k (.plain c :: ps) (n + 1) ↔ SurplusAt k ps n := by
  simp [SurplusAt]

/-- The first place of a surplus is found behind a piece that is no such place itself. -/
theorem exists_isLeast_of_cons {p : CommentPiece} {k' : Nat} (hzero : ¬SurplusAt k (p :: ps) 0)
    (hsucc : ∀ n, SurplusAt k (p :: ps) (n + 1) ↔ SurplusAt k' ps n) (h : IsLeast {n | SurplusAt k (p :: ps) n} n) :
    ∃ m, n = m + 1 ∧ IsLeast {n | SurplusAt k' ps n} m := by
  cases n with
  | zero => exact absurd h.1 hzero
  | succ m =>
    refine ⟨m, rfl, (hsucc m).1 h.1, fun i hi => ?_⟩
    have hle := h.2 ((hsucc i).2 hi)
    omega

end Counting

/-! ## Where a comment ends -/

/-- A comment ends behind the first closer that no opener stands for. -/
theorem blockComment_of_isLeast {depth n : Nat} {cs : List Char}
    (h : IsLeast {k | SurplusAt (depth + 1) (commentPieces cs) k} n) :
    blockComment depth cs =
      (⟨piecesText ((commentPieces cs).take (n + 1)), piecesText ((commentPieces cs).drop (n + 1))⟩, true) := by
  fun_induction commentPieces cs generalizing depth n with
  | case1 => exact absurd h.1.1 (by simp)
  | case2 cs ih =>
    obtain ⟨m, rfl, hm⟩ := exists_isLeast_of_cons (not_surplusAt_zero (by decide)) (fun _ => surplusAt_opener_succ) h
    simp [blockComment, ih hm, Cut.push, piecesText, CommentPiece.text]
  | case3 cs ih =>
    cases depth with
    | zero =>
      have hn : n = 0 := Nat.le_zero.1 (h.2 (surplusAt_closer_zero.2 rfl))
      subst hn
      have htext := piecesText_commentPieces cs
      simp only [piecesText] at htext
      simp [blockComment, piecesText, CommentPiece.text, htext]
    | succ depth =>
      have hzero : ¬SurplusAt (depth + 2) (.closer :: commentPieces cs) 0 := by
        rw [surplusAt_closer_zero]
        omega
      obtain ⟨m, rfl, hm⟩ := exists_isLeast_of_cons hzero (fun _ => surplusAt_closer_succ) h
      simp [blockComment, ih hm, Cut.push, piecesText, CommentPiece.text]
  | case4 c cs hopen hclose ih =>
    obtain ⟨m, rfl, hm⟩ := exists_isLeast_of_cons (not_surplusAt_zero (by simp)) (fun _ => surplusAt_plain_succ) h
    rw [blockComment_plain (not_opensOrCloses hopen hclose), ih hm]
    simp [Cut.push, piecesText, CommentPiece.text]

/-- A comment that has no such closer takes the whole text. -/
theorem blockComment_of_not_surplusAt {depth : Nat} {cs : List Char}
    (h : ∀ n, ¬SurplusAt (depth + 1) (commentPieces cs) n) : blockComment depth cs = (⟨cs, []⟩, false) := by
  fun_induction commentPieces cs generalizing depth with
  | case1 => simp [blockComment]
  | case2 cs ih =>
    have hcs := ih fun n hn => h (n + 1) (surplusAt_opener_succ.2 hn)
    simp [blockComment, hcs, Cut.push]
  | case3 cs ih =>
    cases depth with
    | zero => exact absurd (surplusAt_closer_zero.2 rfl) (h 0)
    | succ depth =>
      have hcs := ih fun n hn => h (n + 1) (surplusAt_closer_succ.2 hn)
      simp [blockComment, hcs, Cut.push]
  | case4 c cs hopen hclose ih =>
    have hcs := ih fun n hn => h (n + 1) (surplusAt_plain_succ.2 hn)
    rw [blockComment_plain (not_opensOrCloses hopen hclose), hcs]
    simp [Cut.push]

/-! ## Texts that are put into a comment -/

/-- Every closer has an opener before it, and every opener a closer behind it. -/
def BalancedPieces (ps : List CommentPiece) : Prop :=
  (∀ front ∈ ps.inits, front.count .closer ≤ front.count .opener) ∧ ps.count .closer = ps.count .opener

instance (ps : List CommentPiece) : Decidable (BalancedPieces ps) := inferInstanceAs (Decidable (_ ∧ _))

/-- A text as a block comment. -/
def inComment (cs : List Char) : List Char := '/' :: '*' :: (cs ++ ['*', '/'])

/-- A closer behind a text is a piece of its own, unless the text ends in a slash of its own: with this slash, the
closer makes an opener, and leaves a slash. -/
theorem commentPieces_append_closer (cs : List Char) :
    commentPieces (cs ++ ['*', '/']) = commentPieces cs ++ [.closer] ∨
      ∃ front, commentPieces cs = front ++ [.plain '/'] ∧
        commentPieces (cs ++ ['*', '/']) = front ++ [.opener, .plain '/'] := by
  fun_induction commentPieces cs with
  | case1 => exact .inl rfl
  | case2 cs ih =>
    rcases ih with h | ⟨front, h, h'⟩
    · exact .inl (congrArg (CommentPiece.opener :: ·) h)
    · exact .inr ⟨.opener :: front, congrArg (CommentPiece.opener :: ·) h, congrArg (CommentPiece.opener :: ·) h'⟩
  | case3 cs ih =>
    rcases ih with h | ⟨front, h, h'⟩
    · exact .inl (congrArg (CommentPiece.closer :: ·) h)
    · exact .inr ⟨.closer :: front, congrArg (CommentPiece.closer :: ·) h, congrArg (CommentPiece.closer :: ·) h'⟩
  | case4 c cs hopen hclose ih =>
    cases cs with
    | nil =>
      by_cases hc : c = '/'
      · subst hc
        exact .inr ⟨[], rfl, rfl⟩
      · have hplain : ¬OpensOrCloses (c :: ['*', '/']) := by simp [OpensOrCloses, Ne.symm hc]
        exact .inl (by rw [List.cons_append, List.nil_append, commentPieces_plain hplain]; rfl)
    | cons d cs =>
      have hplain : ¬OpensOrCloses (c :: (d :: cs ++ ['*', '/'])) := by
        rw [opensOrCloses_append (by simp)]
        exact not_opensOrCloses hopen hclose
      rw [List.cons_append, commentPieces_plain hplain]
      rcases ih with h | ⟨front, h, h'⟩
      · exact .inl (congrArg (CommentPiece.plain c :: ·) h)
      · exact .inr ⟨.plain c :: front, congrArg (CommentPiece.plain c :: ·) h, congrArg (CommentPiece.plain c :: ·) h'⟩

section Balance

variable {ps : List CommentPiece}

theorem BalancedPieces.count_take_le (h : BalancedPieces ps) (n : Nat) :
    (ps.take n).count .closer ≤ (ps.take n).count .opener :=
  h.1 _ ((List.mem_inits _ _).2 (List.take_prefix n ps))

/-- The closer behind balanced pieces is the first one that is ahead. -/
theorem BalancedPieces.isLeast_closer (h : BalancedPieces ps) :
    IsLeast {k | SurplusAt 1 (ps ++ [.closer]) k} ps.length := by
  constructor
  · have hcount := h.2
    refine ⟨by simp, ?_⟩
    rw [List.take_of_length_le (by simp), List.count_append, List.count_append, hcount]
    rfl
  · intro n hn
    by_contra hlt
    have hle := h.count_take_le (n + 1)
    have heq := hn.2
    rw [List.take_append_of_le_length (by omega)] at heq
    omega

/-- Where the slash that balanced pieces end in is taken for an opener, no closer is ahead. -/
theorem BalancedPieces.not_surplusAt_opener {front : List CommentPiece} (h : BalancedPieces (front ++ [.plain '/']))
    (n : Nat) : ¬SurplusAt 1 (front ++ [.opener, .plain '/']) n := by
  rintro ⟨hcloser, hcount⟩
  have hlt : n < front.length := by
    by_contra hge
    rw [List.getElem?_append_right (by omega)] at hcloser
    match hi : n - front.length with
    | 0 => simp [hi] at hcloser
    | 1 => simp [hi] at hcloser
    | i + 2 => simp [hi] at hcloser
  have hle := h.count_take_le (n + 1)
  rw [List.take_append_of_le_length (by omega)] at hcount hle
  omega

end Balance

/-! ## Comments as whole texts -/

section Texts

variable {cs after : List Char}

/-- A comment that takes all of a text leaves nothing to be read. -/
theorem tokenize_of_closed (h : blockComment 0 after = (⟨after, []⟩, true)) :
    tokenize ('/' :: '*' :: after) = .ending (byteLength ('/' :: '*' :: after)) := by
  have hscan : scan '/' ('*' :: after) = ⟨⟨'/' :: '*' :: after, []⟩, .trivia⟩ := by
    show scanComment after = _
    simp [scanComment, h, Cut.push]
  rw [tokenize, tokenizeFrom]
  simp [hscan, maxLexErrors, tokenizeFrom]

/-- A comment without an end is an error. -/
theorem errors_of_not_closed (h : (blockComment 0 after).2 = false) : (tokenize ('/' :: '*' :: after)).errors ≠ [] := by
  have hscan : (scan '/' ('*' :: after)).reading = .fault .unterminatedComment 0 2 := by
    show (scanComment after).reading = _
    simp [scanComment, h]
  rw [tokenize, tokenizeFrom]
  simp [hscan, maxLexErrors, Lexed.addError]

theorem commentPieces_inComment :
    commentPieces (inComment cs) = .opener :: commentPieces (cs ++ ['*', '/']) := rfl

/-- Balanced pieces in a comment are passed over exactly when the comment adds nothing to them but its own opener and
closer. -/
theorem tokenize_inComment_iff (h : BalancedPieces (commentPieces cs)) :
    tokenize (inComment cs) = .ending (byteLength (inComment cs)) ↔
      commentPieces (inComment cs) = [.opener] ++ commentPieces cs ++ [.closer] := by
  have htext := piecesText_commentPieces (cs ++ ['*', '/'])
  rcases commentPieces_append_closer cs with hpieces | ⟨front, hfront, hpieces⟩
  · have hclosed : blockComment 0 (cs ++ ['*', '/']) = (⟨cs ++ ['*', '/'], []⟩, true) := by
      have hleast := h.isLeast_closer
      rw [← hpieces] at hleast
      have hlength : (commentPieces (cs ++ ['*', '/'])).length = (commentPieces cs).length + 1 := by simp [hpieces]
      rw [blockComment_of_isLeast hleast, ← hlength, List.take_length, List.drop_length, htext]
      rfl
    rw [commentPieces_inComment, hpieces]
    exact iff_of_true (tokenize_of_closed hclosed) rfl
  · have hopen : blockComment 0 (cs ++ ['*', '/']) = (⟨cs ++ ['*', '/'], []⟩, false) := by
      rw [hfront] at h
      refine blockComment_of_not_surplusAt fun n => ?_
      rw [hpieces]
      exact h.not_surplusAt_opener n
    refine iff_of_false (fun hread => ?_) (fun hjoint => ?_)
    · exact errors_of_not_closed (by rw [hopen]) (congrArg Lexed.errors hread)
    · rw [commentPieces_inComment, hpieces, hfront] at hjoint
      simp at hjoint

end Texts

/-- **Block comments close at their matching end.** Reading a text from left to right cuts it into openers, closers and
other characters. What follows the opener of a block comment is taken up to the first closer at which there are more
closers than openers, by one, and this closer with it; where there is none, all is taken and the comment has no end.
What is taken ends between two characters. So a text in which openers and closers balance is a comment of its own in
between an opener and a closer, exactly when putting it there joins no characters to another opener or closer. -/
theorem comments_close_at_their_match (cs : List Char) :
    piecesText (commentPieces cs) = cs ∧
      (∀ n, IsLeast {k | SurplusAt 1 (commentPieces cs) k} n →
        blockComment 0 cs =
          (⟨piecesText ((commentPieces cs).take (n + 1)), piecesText ((commentPieces cs).drop (n + 1))⟩, true)) ∧
      ((∀ k, ¬SurplusAt 1 (commentPieces cs) k) → blockComment 0 cs = (⟨cs, []⟩, false)) ∧
      takeBytes (byteLength (blockComment 0 cs).1.taken) cs = some (blockComment 0 cs).1.taken ∧
      dropBytes (byteLength (blockComment 0 cs).1.taken) cs = some (blockComment 0 cs).1.rest ∧
      (BalancedPieces (commentPieces cs) →
        (tokenize (inComment cs) = .ending (byteLength (inComment cs)) ↔
          commentPieces (inComment cs) = [.opener] ++ commentPieces cs ++ [.closer])) := by
  have hall := blockComment_append 0 cs
  refine ⟨piecesText_commentPieces cs, fun n hn => blockComment_of_isLeast hn, blockComment_of_not_surplusAt, ?_, ?_,
    tokenize_inComment_iff⟩
  · have htake := takeBytes_append (blockComment 0 cs).1.taken (blockComment 0 cs).1.rest
    rwa [hall] at htake
  · have hdrop := dropBytes_append (blockComment 0 cs).1.taken (blockComment 0 cs).1.rest
    rwa [hall] at hdrop

/-- A slash behind an opener belongs to no closer, and a star in front of a closer to no opener. -/
theorem comments_close_at_their_match_overlapping :
    IsLeast {k | SurplusAt 1 (commentPieces "/*/é*/**/*/".toList) k} 5 ∧
      blockComment 0 "/*/é*/**/*/".toList = (⟨"/*/é*/**/".toList, "*/".toList⟩, true) ∧
      (∀ k, ¬SurplusAt 1 (commentPieces "*é/*/".toList) k) ∧
      blockComment 0 "*é/*/".toList = (⟨"*é/*/".toList, []⟩, false) ∧
      BalancedPieces (commentPieces "/é/**/*".toList) ∧
      tokenize "/*/é/**/**/".toList = .ending 12 := by
  have hleast : IsLeast {k | SurplusAt 1 (commentPieces "/*/é*/**/*/".toList) k} 5 := by
    refine ⟨by decide, fun k hk => ?_⟩
    by_contra hlt
    have hnone : ∀ k < 5, ¬SurplusAt 1 (commentPieces "/*/é*/**/*/".toList) k := by decide
    exact hnone k (by omega) hk
  have hnone : ∀ k, ¬SurplusAt 1 (commentPieces "*é/*/".toList) k := by
    intro k hk
    have hall : ∀ k < 4, ¬SurplusAt 1 (commentPieces "*é/*/".toList) k := by decide
    exact hall k hk.lt_length hk
  have hbalanced : BalancedPieces (commentPieces "/é/**/*".toList) := by decide
  obtain ⟨-, hclosed, -⟩ := comments_close_at_their_match "/*/é*/**/*/".toList
  obtain ⟨-, -, hopen, -⟩ := comments_close_at_their_match "*é/*/".toList
  obtain ⟨-, -, -, -, -, hcomment⟩ := comments_close_at_their_match "/é/**/*".toList
  exact ⟨hleast, hclosed 5 hleast, hnone, hopen hnone, hbalanced, (hcomment hbalanced).2 (by decide)⟩

end GameScript
