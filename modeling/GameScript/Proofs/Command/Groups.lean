import GameScript.Command.Options
import GameScript.Proofs.Token.Spells

/-!
# Options in groups

Arguments are read in groups: an option with its value, or a file. The first word of a group tells where it ends, so
there is at most one way to take arguments apart (`flatMap_words_injective`), and whatever is read is taken apart in this
way (`readFrom_eq_ok_iff`). What a group sets is left alone by groups of other kinds, so it is the last one of each kind
that counts (`foldl_set`).

Main statement: `options_in_any_order`.
-/

namespace GameScript.Command

/-- A text of a count: decimal digits, after a plus sign or not, that make a number of 64 bits. -/
def IsCount (text : String) (n : Nat) : Prop :=
  ∃ digits, IsDigits digits ∧ (text.toList = digits ∨ text.toList = '+' :: digits) ∧ digitsValue digits = n ∧
    n < countBound

/-- The name of a format. -/
def Format.name : Format → String
  | human => "human"
  | json => "json"

/-- Arguments that are read together. -/
inductive Group
  | json
  | format (f : Format)
  | depth (text : String) (n : Nat) (h : IsCount text n)
  | file (name : String) (h : isFlag name = false)

namespace Group

/-- The arguments of a group. -/
def words : Group → List String
  | json => ["--json"]
  | format f => ["--format", f.name]
  | depth text _ _ => ["--max-depth", text]
  | file name _ => [name]

/-- The format that a group asks for. -/
def format? : Group → Option Format
  | json => some .json
  | format f => some f
  | _ => none

/-- The depth that a group asks for. -/
def depth? : Group → Option Nat
  | depth _ n _ => some n
  | _ => none

/-- The file that a group names. -/
def file? : Group → Option String
  | file name _ => some name
  | _ => none

end Group

/-- What groups ask for: the last one of each kind counts. -/
def Options.ofGroups (maxDepth : Nat) (gs : List Group) : Options :=
  ⟨(gs.filterMap Group.file?).getLast?, ((gs.filterMap Group.format?).getLast?).getD .human,
    ((gs.filterMap Group.depth?).getLast?).getD maxDepth⟩

/-! ## Counts -/

section Counts

variable {text : String} {n : Nat}

theorem digitsToNat?_eq_some_iff {digits : List Char} :
    digitsToNat? digits = some n ↔ IsDigits digits ∧ digitsValue digits = n ∧ n < countBound := by
  have hrefused : (digits.isEmpty || !digits.all Char.isDigit || decide (countBound ≤ digitsValue digits)) = false ↔
      IsDigits digits ∧ digitsValue digits < countBound := by
    simp [IsDigits, and_assoc]
  have hread : digitsToNat? digits =
      if digits.isEmpty || !digits.all Char.isDigit || decide (countBound ≤ digitsValue digits) then none
      else some (digitsValue digits) := rfl
  rw [hread, Option.ite_none_left_eq_some, Bool.not_eq_true, hrefused, Option.some.injEq]
  constructor
  · rintro ⟨⟨hdigits, hbound⟩, rfl⟩
    exact ⟨hdigits, rfl, hbound⟩
  · rintro ⟨hdigits, rfl, hbound⟩
    exact ⟨⟨hdigits, hbound⟩, rfl⟩

theorem not_isDigits_plus {digits : List Char} : ¬IsDigits ('+' :: digits) := fun h =>
  absurd (h.2 '+' List.mem_cons_self) (by decide)

theorem readCount?_eq_some_iff : readCount? text = some n ↔ IsCount text n := by
  unfold readCount? IsCount
  split
  · rename_i digits htext
    rw [digitsToNat?_eq_some_iff]
    constructor
    · rintro ⟨hdigits, hvalue, hbound⟩
      exact ⟨digits, hdigits, .inr htext, hvalue, hbound⟩
    · rintro ⟨digits', hdigits, htext' | htext', hvalue, hbound⟩
      · rw [htext] at htext'
        exact absurd (htext' ▸ hdigits) not_isDigits_plus
      · obtain rfl : digits = digits' := List.tail_eq_of_cons_eq (htext.symm.trans htext')
        exact ⟨hdigits, hvalue, hbound⟩
  · rename_i hplus
    rw [digitsToNat?_eq_some_iff]
    constructor
    · rintro ⟨hdigits, hvalue, hbound⟩
      exact ⟨text.toList, hdigits, .inl rfl, hvalue, hbound⟩
    · rintro ⟨digits', hdigits, rfl | htext, hvalue, hbound⟩
      · exact ⟨hdigits, hvalue, hbound⟩
      · exact absurd htext (hplus digits')

end Counts

theorem Format.ofName?_eq_some_iff {name : String} {f : Format} : Format.ofName? name = some f ↔ name = f.name := by
  unfold Format.ofName?
  split
  · cases f <;> simp [Format.name]
  · cases f <;> simp [Format.name]
  · rename_i hhuman hjson
    cases f
    · exact iff_of_false nofun hhuman
    · exact iff_of_false nofun hjson

/-! ## One group after another -/

/-- What options become by a group. -/
def Options.set (opts : Options) : Group → Options
  | .json => { opts with format := .json }
  | .format f => { opts with format := f }
  | .depth _ n _ => { opts with maxDepth := n }
  | .file name _ => { opts with file := some name }

section Reading

variable {opts opts' : Options} {g g' : Group} {gs gs' : List Group} {rest rest' : List String}

/-- What is no option is none of the words that options start with. -/
theorem ne_of_not_isFlag {name : String} (h : isFlag name = false) :
    name ≠ "--json" ∧ name ≠ "--format" ∧ name ≠ "--max-depth" := by
  refine ⟨?_, ?_, ?_⟩ <;> rintro rfl <;> exact absurd h (by decide)

theorem readFrom_words (h : g.file? = none ∨ opts.file = none) :
    Options.readFrom opts (g.words ++ rest) = Options.readFrom (opts.set g) rest := by
  cases g with
  | json => rfl
  | format f => cases f <;> rfl
  | depth text n hn =>
    show Options.readFrom opts ("--max-depth" :: text :: rest) = _
    rw [Options.readFrom, readCount?_eq_some_iff.2 hn]
    rfl
  | file name hname =>
    obtain ⟨hjson, hformat, hdepth⟩ := ne_of_not_isFlag hname
    have hfile : opts.file = none := h.resolve_left nofun
    show Options.readFrom opts (name :: rest) = _
    rw [Options.readFrom.eq_7 _ _ _ hjson (fun h _ => hformat h) (fun _ _ h _ => hformat h) (fun h _ => hdepth h)
      (fun _ _ h _ => hdepth h), hname, hfile]
    rfl

/-- The files that are named, in the options read so far and in the groups to come. -/
def filesOf (opts : Options) (gs : List Group) : List String := opts.file.toList ++ gs.filterMap Group.file?

theorem filesOf_set (h : g.file? = none ∨ opts.file = none) : filesOf (opts.set g) gs = filesOf opts (g :: gs) := by
  cases g with
  | file name hname =>
    have hfile : opts.file = none := h.resolve_left nofun
    simp [filesOf, Options.set, Group.file?, hfile]
  | _ => rfl

theorem none_or_none_of_filesOf (h : (filesOf opts (g :: gs)).length ≤ 1) : g.file? = none ∨ opts.file = none := by
  cases hg : g.file? with
  | none => exact .inl rfl
  | some name =>
    cases hfile : opts.file with
    | none => exact .inr rfl
    | some file =>
      rw [filesOf, hfile, List.filterMap_cons_some hg] at h
      simp at h

/-- Groups are read one after another, if they name no second file. -/
theorem readFrom_flatMap_words (h : (filesOf opts gs).length ≤ 1) :
    Options.readFrom opts (gs.flatMap Group.words) = .ok (gs.foldl Options.set opts) := by
  induction gs generalizing opts with
  | nil => rfl
  | cons g gs ih =>
    have hg := none_or_none_of_filesOf h
    rw [List.flatMap_cons, readFrom_words hg, List.foldl_cons]
    exact ih ((filesOf_set hg).symm ▸ h)

/-- Whatever is read is taken apart into groups. -/
theorem exists_groups_of_readFrom {arguments : List String} (h : Options.readFrom opts arguments = .ok opts') :
    ∃ gs : List Group, arguments = gs.flatMap Group.words ∧ (filesOf opts gs).length ≤ 1 := by
  -- each group that is found in front comes before those that the rest is taken apart into
  have step {opts : Options} {rest : List String} (g : Group) (hg : g.file? = none ∨ opts.file = none)
      (h : ∃ gs : List Group, rest = gs.flatMap Group.words ∧ (filesOf (opts.set g) gs).length ≤ 1) :
      ∃ gs : List Group, g.words ++ rest = gs.flatMap Group.words ∧ (filesOf opts gs).length ≤ 1 := by
    obtain ⟨gs, rfl, hfiles⟩ := h
    exact ⟨g :: gs, rfl, filesOf_set hg ▸ hfiles⟩
  fun_induction Options.readFrom opts arguments with
  | case1 opts => exact ⟨[], rfl, by cases hfile : opts.file <;> simp [filesOf, hfile]⟩
  | case2 opts rest ih => exact step .json (.inl rfl) (ih h)
  | case4 opts value rest f hf ih =>
    obtain rfl := Format.ofName?_eq_some_iff.1 hf
    exact step (.format f) (.inl rfl) (ih h)
  | case7 opts value rest n hn ih => exact step (.depth value n (readCount?_eq_some_iff.1 hn)) (.inl rfl) (ih h)
  | case11 opts name rest _ _ _ _ _ hname hfile ih =>
    exact step (.file name (Bool.not_eq_true _ ▸ hname)) (.inr (Option.not_isSome_iff_eq_none.1 hfile)) (ih h)
  | _ => cases h

theorem foldl_set (gs : List Group) (opts : Options) : gs.foldl Options.set opts =
    ⟨(gs.filterMap Group.file?).getLast?.or opts.file, (gs.filterMap Group.format?).getLast?.getD opts.format,
      (gs.filterMap Group.depth?).getLast?.getD opts.maxDepth⟩ := by
  induction gs generalizing opts with
  | nil => rfl
  | cons g gs ih =>
    rw [List.foldl_cons, ih]
    cases g <;> simp [Options.set, Group.file?, Group.format?, Group.depth?, List.getLast?_cons]

theorem read_flatMap_words (maxDepth : Nat) (h : (gs.filterMap Group.file?).length ≤ 1) :
    Options.read maxDepth (gs.flatMap Group.words) = .ok (.ofGroups maxDepth gs) := by
  have hread : Options.readFrom ⟨none, .human, maxDepth⟩ (gs.flatMap Group.words) =
      .ok (gs.foldl Options.set ⟨none, .human, maxDepth⟩) := readFrom_flatMap_words h
  rw [Options.read, hread, foldl_set, Options.ofGroups, Option.or_none]

end Reading

/-! ## One way to take arguments apart -/

section Apart

variable {g g' : Group} {gs gs' : List Group} {rest rest' : List String}

theorem IsCount.unique {text : String} {m n : Nat} (hm : IsCount text m) (hn : IsCount text n) : m = n :=
  Option.some.inj ((readCount?_eq_some_iff.2 hm).symm.trans (readCount?_eq_some_iff.2 hn))

/-- The first word tells which group it is, and so how many more there are. -/
theorem words_append_inj (h : g.words ++ rest = g'.words ++ rest') : g = g' ∧ rest = rest' := by
  cases g <;> cases g' <;> simp only [Group.words, List.cons_append, List.nil_append, List.cons.injEq] at h
  case json.json => exact ⟨rfl, h.2⟩
  case format.format f f' =>
    obtain rfl : f = f' := Option.some.inj
      ((Format.ofName?_eq_some_iff.2 rfl).symm.trans (Format.ofName?_eq_some_iff.2 h.2.1))
    exact ⟨rfl, h.2.2⟩
  case depth.depth text n hn text' n' hn' =>
    obtain ⟨-, rfl, hrest⟩ := h
    obtain rfl := hn.unique hn'
    exact ⟨rfl, hrest⟩
  case file.file name hname name' hname' =>
    obtain ⟨rfl, hrest⟩ := h
    exact ⟨rfl, hrest⟩
  all_goals
    obtain ⟨hhead, -⟩ := h
    first
    | exact absurd hhead (by decide)
    | subst hhead
      exact absurd ‹isFlag _ = false› (by decide)

theorem flatMap_words_injective (h : gs.flatMap Group.words = gs'.flatMap Group.words) : gs = gs' := by
  induction gs generalizing gs' with
  | nil =>
    cases gs' with
    | nil => rfl
    | cons g' gs' => cases g' <;> cases h
  | cons g gs ih =>
    cases gs' with
    | nil => cases g <;> cases h
    | cons g' gs' =>
      obtain ⟨rfl, hrest⟩ := words_append_inj h
      rw [ih hrest]

end Apart

/-- **Options come in any order.** Arguments are read exactly when they are groups one after another of which at most
one names a file, and then they ask for what the last group of each kind says; there is one way to take them apart.
So groups may stand in any order in which those that ask for a format say the same in turn, and those that ask for a
depth. -/
theorem options_in_any_order (maxDepth : Nat) :
    (∀ (arguments : List String) (opts : Options), Options.read maxDepth arguments = .ok opts ↔
      ∃ gs : List Group, arguments = gs.flatMap Group.words ∧ (gs.filterMap Group.file?).length ≤ 1 ∧
        opts = .ofGroups maxDepth gs) ∧
      (∀ gs gs' : List Group, gs.flatMap Group.words = gs'.flatMap Group.words → gs = gs') ∧
      ∀ gs gs' : List Group, (gs.filterMap Group.file?).length ≤ 1 → gs.Perm gs' →
        gs.filterMap Group.format? = gs'.filterMap Group.format? →
        gs.filterMap Group.depth? = gs'.filterMap Group.depth? →
        Options.read maxDepth (gs.flatMap Group.words) = Options.read maxDepth (gs'.flatMap Group.words) := by
  refine ⟨fun arguments opts => ⟨fun h => ?_, ?_⟩, fun gs gs' => flatMap_words_injective,
    fun gs gs' hfile hperm hformat hdepth => ?_⟩
  · obtain ⟨gs, rfl, hfiles⟩ := exists_groups_of_readFrom h
    have hfiles : (gs.filterMap Group.file?).length ≤ 1 := hfiles
    rw [read_flatMap_words maxDepth hfiles] at h
    exact ⟨gs, rfl, hfiles, (Except.ok.inj h).symm⟩
  · rintro ⟨gs, rfl, hfiles, rfl⟩
    exact read_flatMap_words maxDepth hfiles
  · have hfiles : gs.filterMap Group.file? = gs'.filterMap Group.file? := by
      have hperm := hperm.filterMap Group.file?
      match hnames : gs.filterMap Group.file?, hfile with
      | [], _ => exact (List.nil_perm.1 (hnames ▸ hperm)).symm
      | [_], _ => exact List.singleton_perm.1 (hnames ▸ hperm)
    rw [read_flatMap_words maxDepth hfile, read_flatMap_words maxDepth (hfiles ▸ hfile), Options.ofGroups,
      Options.ofGroups, hfiles, hformat, hdepth]

/-- The groups of `--json --max-depth 7 game.gse --max-depth +012`. -/
def someGroups : List Group :=
  [.json, .depth "7" 7 (readCount?_eq_some_iff.1 (by decide)), .file "game.gse" (by decide),
    .depth "+012" 12 (readCount?_eq_some_iff.1 (by decide))]

/-- The same groups, the first one of them last. -/
def turnedGroups : List Group :=
  [.depth "7" 7 (readCount?_eq_some_iff.1 (by decide)), .file "game.gse" (by decide),
    .depth "+012" 12 (readCount?_eq_some_iff.1 (by decide)), .json]

theorem options_in_any_order_turned :
    (someGroups.filterMap Group.file?).length ≤ 1 ∧ someGroups.Perm turnedGroups ∧
      Options.read 200 (someGroups.flatMap Group.words) = Options.read 200 (turnedGroups.flatMap Group.words) ∧
      Options.read 200 ["--max-depth", "7", "game.gse", "--max-depth", "+012", "--json"] =
        .ok ⟨some "game.gse", .json, 12⟩ := by
  have hfile : (someGroups.filterMap Group.file?).length ≤ 1 := Nat.le_refl 1
  have hperm : ([Group.json] ++ someGroups.tail).Perm (someGroups.tail ++ [Group.json]) := List.perm_append_comm
  obtain ⟨hread, -, hturned⟩ := options_in_any_order 200
  exact ⟨hfile, hperm, hturned _ _ hfile hperm rfl rfl, (hread _ _).2 ⟨turnedGroups, rfl, Nat.le_refl 1, rfl⟩⟩

end GameScript.Command
