import GameScript.Proofs.Run.Places
import GameScript.Proofs.Run.Sound
import Mathlib.Data.List.Forall2

/-!
# Memories that match

Two memories may hold the same under other identities. A `Link` says which cells of one match which of the other, and
may leave out cells of either. The memories match when linked cells have matching contents, closures that differ in the
places of their bodies included, and are held alike from outside: by the host or by cells that are left out
(`Pairing.Matched`). Then linked cells are alive together (`Matched.isAlive_iff`), what is looked up or read matches,
and what is changed in the same way matches still, by a link that has grown by new cells alone and with all cells that
it leaves out as they were (`Pairing.GrowsInto`).
-/

namespace GameScript

/-- Which cells of one memory match which of another. -/
abbrev Link := Cell → Cell → Prop

/-- The cells of the first memory that a link speaks of. -/
def Link.left (R : Link) : Set Cell := {c | ∃ d, R c d}

/-- The cells of the second memory that a link speaks of. -/
def Link.right (R : Link) : Set Cell := {d | ∃ c, R c d}

/-- A link and one more pair of cells. -/
def Link.add (R : Link) (c d : Cell) : Link := fun x y => x = c ∧ y = d ∨ R x y

theorem Link.le_add (R : Link) (c d : Cell) : R ≤ R.add c d := fun _ _ h => .inr h

theorem Link.left_add (R : Link) (c d : Cell) : (R.add c d).left = insert c R.left := by
  ext b
  constructor
  · rintro ⟨e, ⟨rfl, -⟩ | h⟩
    · exact .inl rfl
    · exact .inr ⟨e, h⟩
  · rintro (rfl | ⟨e, h⟩)
    · exact ⟨d, .inl ⟨rfl, rfl⟩⟩
    · exact ⟨e, .inr h⟩

theorem Link.right_add (R : Link) (c d : Cell) : (R.add c d).right = insert d R.right := by
  ext e
  constructor
  · rintro ⟨b, ⟨-, rfl⟩ | h⟩
    · exact .inl rfl
    · exact .inr ⟨b, h⟩
  · rintro (rfl | ⟨b, h⟩)
    · exact ⟨c, .inl ⟨rfl, rfl⟩⟩
    · exact ⟨b, .inr h⟩

/-- A pair of cells that a one-to-one link leaves out may be linked. -/
theorem Link.biUnique_add {R : Link} {c d : Cell} (hR : Relator.BiUnique R) (hc : c ∉ R.left) (hd : d ∉ R.right) :
    Relator.BiUnique (R.add c d) := by
  constructor
  · rintro a b e (⟨rfl, rfl⟩ | ha) (⟨rfl, he⟩ | hb)
    · rfl
    · exact absurd ⟨_, hb⟩ hd
    · exact absurd ⟨_, ha⟩ (he ▸ hd)
    · exact hR.1 ha hb
  · rintro a b e (⟨rfl, rfl⟩ | hb) (⟨ha, rfl⟩ | he)
    · rfl
    · exact absurd ⟨_, he⟩ hc
    · exact absurd ⟨_, hb⟩ (ha ▸ hc)
    · exact hR.2 hb he

/-! ## Values and contents -/

/-- References to the same property of objects that match. -/
structure Reference.Matches (R : Link) (r r' : Reference) : Prop where
  object : R (.object r.object) (.object r'.object)
  key : r.key = r'.key
  anchored : r.anchored = r'.anchored

/-- Values that are the same, or name cells that match. -/
inductive Value.Matches (R : Link) : Value → Value → Prop
  | same {v : Value} (h : v.lead? = none) : Value.Matches R v v
  | object {o p : ObjectId} (h : R (.object o) (.object p)) : Value.Matches R (.object o) (.object p)
  | closure {f g : ClosureId} (h : R (.closure f) (.closure g)) : Value.Matches R (.closure f) (.closure g)
  | reference {r r' : Reference} (h : r.Matches R r') : Value.Matches R (.reference r) (.reference r')

/-- Entries with the same names in the same order and with values that match. -/
abbrev Entries.Matches (R : Link) : Entries Value → Entries Value → Prop :=
  List.Forall₂ fun a b => a.1 = b.1 ∧ a.2.Matches R b.2

/-- What is in a cell. -/
inductive Content
  | object (properties : Entries Value)
  | scope (s : ScopeCell)
  | closure (f : Closure)

/-- What is in a cell. -/
def Memory.content (m : Memory) : Cell → Content
  | .object o => .object (m.properties o)
  | .scope s => .scope (m.scope s)
  | .closure f => .closure (m.closure f)

/-- The cells that a content keeps alive. -/
def Content.holds : Content → List Cell
  | .object properties => Value.cells (properties.map Prod.snd)
  | .scope s => (s.parent.map Cell.scope).toList ++ Value.cells (s.bindings.map Prod.snd)
  | .closure f => [.scope f.scope]

theorem Memory.holds_eq (m : Memory) (c : Cell) : m.holds c = (m.content c).holds := by cases c <;> rfl

/-- A content without places. -/
def Content.eraseSpans : Content → Content
  | .closure f => .closure f.eraseSpans
  | x => x

theorem Memory.content_eraseSpans (m : Memory) (c : Cell) : m.eraseSpans.content c = (m.content c).eraseSpans := by
  cases c with
  | closure f => exact congrArg Content.closure (closure_eraseSpans f)
  | _ => rfl

/-- Contents of the same shape with values that match, and closures with the same parameters whose bodies differ in
places alone. -/
inductive Content.Matches (R : Link) : Content → Content → Prop
  | object {es fs : Entries Value} (h : es.Matches R fs) : Content.Matches R (.object es) (.object fs)
  | scope {s t : ScopeCell} (hbindings : s.bindings.Matches R t.bindings)
      (hparent : Option.Rel (fun p q => R (.scope p) (.scope q)) s.parent t.parent) (hdepth : s.depth = t.depth) :
      Content.Matches R (.scope s) (.scope t)
  | closure {f g : Closure} (hparameters : f.parameters = g.parameters) (hbody : f.body.eraseSpans = g.body.eraseSpans)
      (hscope : R (.scope f.scope) (.scope g.scope)) : Content.Matches R (.closure f) (.closure g)

section Values

variable {R S : Link} {v w : Value} {es fs : Entries Value}

theorem Reference.Matches.mono {r r' : Reference} (h : r.Matches R r') (hle : R ≤ S) : r.Matches S r' :=
  ⟨hle _ _ h.object, h.key, h.anchored⟩

theorem Value.Matches.mono (h : v.Matches R w) (hle : R ≤ S) : v.Matches S w := by
  cases h with
  | same h => exact .same h
  | object h => exact .object (hle _ _ h)
  | closure h => exact .closure (hle _ _ h)
  | reference h => exact .reference (h.mono hle)

theorem Value.IsScalar.matches (h : v.IsScalar) : v.Matches R v := .same (by cases v <;> first | rfl | cases h)

theorem Value.Matches.type_eq (h : v.Matches R w) : v.type = w.type := by cases h <;> rfl

theorem Value.Matches.lead? (h : v.Matches R w) : Option.Rel R v.lead? w.lead? := by
  cases h with
  | same h =>
    rw [h]
    exact .none
  | object h | closure h => exact .some h
  | reference h => exact .some h.object

theorem Value.Matches.cell? (h : v.Matches R w) : Option.Rel R v.cell? w.cell? := by
  cases h with
  | same h => cases v <;> first | exact .none | cases h
  | object h | closure h => exact .some h
  | @reference r r' h =>
    show Option.Rel R (if r.anchored then _ else _) (if r'.anchored then _ else _)
    rw [h.anchored]
    split
    · exact .some h.object
    · exact .none

/-- Values that match keep cells alive that match. -/
theorem Value.forall₂_cells {vs ws : List Value} (h : List.Forall₂ (Value.Matches R) vs ws) :
    List.Forall₂ R (Value.cells vs) (Value.cells ws) :=
  List.rel_filterMap (fun _ _ hv => hv.cell?) h

theorem Entries.Matches.mono (h : es.Matches R fs) (hle : R ≤ S) : es.Matches S fs :=
  h.imp fun _ _ hab => ⟨hab.1, hab.2.mono hle⟩

theorem Entries.Matches.get? (h : es.Matches R fs) (key : String) :
    Option.Rel (Value.Matches R) (es.get? key) (fs.get? key) := by
  induction h with
  | nil => exact .none
  | @cons a b _ _ hab _ ih =>
    obtain ⟨k, v⟩ := a
    obtain ⟨k', w⟩ := b
    obtain ⟨rfl, hvw⟩ := hab
    rw [Entries.get?_cons, Entries.get?_cons]
    split
    · exact .some hvw
    · exact ih

theorem Entries.Matches.put (h : es.Matches R fs) (key : String) (hvw : v.Matches R w) :
    (es.put key v).Matches R (fs.put key w) := by
  induction h with
  | nil => exact .cons ⟨rfl, hvw⟩ .nil
  | @cons a b _ _ hab hrest ih =>
    obtain ⟨k, v⟩ := a
    obtain ⟨k', w⟩ := b
    obtain ⟨rfl, hold⟩ := hab
    unfold Entries.put
    split
    · exact .cons ⟨rfl, hvw⟩ hrest
    · exact .cons ⟨rfl, hold⟩ ih

theorem Content.Matches.mono {x y : Content} (h : x.Matches R y) (hle : R ≤ S) : x.Matches S y := by
  cases h with
  | object h => exact .object (Entries.Matches.mono h hle)
  | @scope s t hbindings hparent hdepth =>
    refine .scope (Entries.Matches.mono hbindings hle) ?_ hdepth
    obtain ⟨_, p, _⟩ := s
    obtain ⟨_, q, _⟩ := t
    cases hparent with
    | none => exact .none
    | some h => exact .some (hle _ _ h)
  | closure hparameters hbody hscope => exact .closure hparameters hbody (hle _ _ hscope)

theorem Closure.of_eraseSpans {f g : Closure} (h : f.eraseSpans = g.eraseSpans) :
    f.parameters = g.parameters ∧ f.body.eraseSpans = g.body.eraseSpans ∧ f.scope = g.scope := by
  simpa [Closure.eraseSpans] using h

/-- Places make no difference. -/
theorem Content.Matches.congr {x x' y y' : Content} (h : x.Matches R y) (hx : x.eraseSpans = x'.eraseSpans)
    (hy : y.eraseSpans = y'.eraseSpans) : x'.Matches R y' := by
  cases h with
  | object h =>
    cases x' <;> cases hx
    cases y' <;> cases hy
    exact .object h
  | scope hbindings hparent hdepth =>
    cases x' <;> cases hx
    cases y' <;> cases hy
    exact .scope hbindings hparent hdepth
  | @closure f g hparameters hbody hscope =>
    match x', y', hx, hy with
    | .closure f', .closure g', hx, hy =>
      obtain ⟨hparametersLeft, hbodyLeft, hscopeLeft⟩ := Closure.of_eraseSpans (Content.closure.inj hx)
      obtain ⟨hparametersRight, hbodyRight, hscopeRight⟩ := Closure.of_eraseSpans (Content.closure.inj hy)
      refine .closure ?_ ?_ ?_
      · rw [← hparametersLeft, hparameters, hparametersRight]
      · rw [← hbodyLeft, hbody, hbodyRight]
      · rwa [← hscopeLeft, ← hscopeRight]

/-- Contents that match hold cells that match. -/
theorem Content.Matches.holds {x y : Content} (h : x.Matches R y) : List.Forall₂ R x.holds y.holds := by
  have hcells {es fs : Entries Value} (h : es.Matches R fs) :
      List.Forall₂ R (Value.cells (es.map Prod.snd)) (Value.cells (fs.map Prod.snd)) :=
    Value.forall₂_cells (List.rel_map (fun _ _ hab => hab.2) h)
  cases h with
  | object h => exact hcells h
  | @scope s t hbindings hparent _ =>
    refine List.rel_append ?_ (hcells hbindings)
    obtain ⟨_, p, _⟩ := s
    obtain ⟨_, q, _⟩ := t
    cases hparent with
    | none => exact .nil
    | some h => exact .cons h .nil
  | closure _ _ hscope => exact .cons hscope .nil

end Values

/-! ## What is beyond a set of cells -/

namespace Memory

/-- Two memories have the same cells beyond two sets of cells, and these hold and are held as they were. -/
structure SameBeyond (m : Memory) (K : Set Cell) (m' : Memory) (K' : Set Cell) : Prop where
  made : ∀ c, c ∈ m.made ∧ c ∉ K ↔ c ∈ m'.made ∧ c ∉ K'
  holds : ∀ c ∈ m.made, c ∉ K → m'.holds c = m.holds c
  held : ∀ c ∈ m.made, c ∉ K → (c ∈ m'.held ↔ c ∈ m.held)

/-- A living cell beyond a set of cells keeps a cell alive. -/
def KeptBeyond (m : Memory) (K : Set Cell) (c : Cell) : Prop := ∃ d, d ∉ K ∧ m.isAlive d = true ∧ c ∈ m.holds d

/-- A cell is held from outside, or kept alive by a living cell beyond a set of cells. -/
def HeldBeyond (m : Memory) (K : Set Cell) (c : Cell) : Prop := c ∈ m.held ∨ m.KeptBeyond K c

variable {m m' m'' : Memory} {K K' K'' : Set Cell} {c : Cell}

theorem SameBeyond.refl (m : Memory) (K : Set Cell) : m.SameBeyond K m K :=
  ⟨fun _ => Iff.rfl, fun _ _ _ => rfl, fun _ _ _ => Iff.rfl⟩

theorem SameBeyond.symm (h : m.SameBeyond K m' K') : m'.SameBeyond K' m K := by
  have hback {c : Cell} (hc : c ∈ m'.made) (hK : c ∉ K') : c ∈ m.made ∧ c ∉ K := (h.made c).2 ⟨hc, hK⟩
  exact ⟨fun c => (h.made c).symm, fun c hc hK => (h.holds c (hback hc hK).1 (hback hc hK).2).symm,
    fun c hc hK => (h.held c (hback hc hK).1 (hback hc hK).2).symm⟩

theorem SameBeyond.trans (h : m.SameBeyond K m' K') (h' : m'.SameBeyond K' m'' K'') : m.SameBeyond K m'' K'' where
  made c := (h.made c).trans (h'.made c)
  holds c hc hK :=
    have hc' := (h.made c).1 ⟨hc, hK⟩
    (h'.holds c hc'.1 hc'.2).trans (h.holds c hc hK)
  held c hc hK :=
    have hc' := (h.made c).1 ⟨hc, hK⟩
    (h'.held c hc'.1 hc'.2).trans (h.held c hc hK)

theorem SameBeyond.holding {cs : List Cell} (hcs : ∀ c ∈ cs, c ∈ K) : m.SameBeyond K (m.holding cs) K := by
  refine ⟨fun _ => Iff.rfl, fun _ _ _ => rfl, fun c _ hc => ?_⟩
  exact List.mem_append.trans (or_iff_right fun hmem => hc (hcs c hmem))

/-- What lives beyond a set of cells that hold only each other lives by what is beyond it. -/
theorem SameBeyond.isAlive (h : m.SameBeyond K m' K') (hm : m.Intact) (hK : ∀ c ∈ K, ∀ d ∈ m.holds c, d ∈ K)
    (hc : c ∉ K) (halive : m.isAlive c = true) : m'.isAlive c = true := by
  have hsupported : m'.Supported {c | c ∉ K ∧ m.isAlive c = true} := by
    rintro c ⟨hc, halive⟩
    have hmade := hm.mem_made_of_isAlive halive
    refine ⟨((h.made c).1 ⟨hmade, hc⟩).1, (hm.isAlive_iff.1 halive).imp (h.held c hmade hc).2 ?_⟩
    rintro ⟨d, hd, hcd⟩
    have hdK : d ∉ K := fun hdK => hc (hK d hdK c hcd)
    refine ⟨d, ⟨hdK, hd⟩, ?_⟩
    rwa [h.holds d (hm.mem_made_of_isAlive hd) hdK]
  exact hsupported.isAlive ⟨hc, halive⟩

theorem SameBeyond.keptBeyond (h : m.SameBeyond K m' K') (hm : m.Intact) (hK : ∀ c ∈ K, ∀ d ∈ m.holds c, d ∈ K)
    (hc : m.KeptBeyond K c) : m'.KeptBeyond K' c := by
  obtain ⟨d, hd, halive, hcd⟩ := hc
  have hmade := hm.mem_made_of_isAlive halive
  refine ⟨d, ((h.made d).1 ⟨hmade, hd⟩).2, h.isAlive hm hK hd halive, ?_⟩
  rwa [h.holds d hmade hd]

theorem SameBeyond.keptBeyond_iff (h : m.SameBeyond K m' K') (hm : m.Intact) (hm' : m'.Intact)
    (hK : ∀ c ∈ K, ∀ d ∈ m.holds c, d ∈ K) (hK' : ∀ c ∈ K', ∀ d ∈ m'.holds c, d ∈ K') :
    m'.KeptBeyond K' c ↔ m.KeptBeyond K c := ⟨h.symm.keptBeyond hm' hK', h.keptBeyond hm hK⟩

/-- What has not been made is not held by anything. -/
theorem Intact.not_heldBeyond (hm : m.Intact) (hc : c ∉ m.made) : ¬m.HeldBeyond K c := by
  rintro (hheld | ⟨d, -, halive, hcd⟩)
  · exact hc (hm.held c hheld)
  · exact hc (hm.mem_made (hm.mem_made_of_isAlive halive) hcd)

end Memory

/-! ## Cells that are alive together -/

section Alive

variable {R : Link} {m n : Memory} {c d : Cell}

theorem Link.mem_left {cs ds : List Cell} (h : List.Forall₂ R cs ds) : ∀ c ∈ cs, c ∈ R.left := by
  induction h with
  | nil => exact nofun
  | cons h _ ih => exact List.forall_mem_cons.2 ⟨⟨_, h⟩, ih⟩

theorem Link.mem_right {cs ds : List Cell} (h : List.Forall₂ R cs ds) : ∀ d ∈ ds, d ∈ R.right :=
  Link.mem_left (R := flip R) (List.Forall₂.flip h)

/-- What is linked to a living cell lives: what is linked to living cells, and what lives beyond the link, keep each
other alive. -/
theorem isAlive_of_link (hm : m.Intact) (hn : n.Intact) (hunique : Relator.BiUnique R)
    (hmade : ∀ c d, R c d → d ∈ n.made) (hholds : ∀ c d, R c d → List.Forall₂ R (m.holds c) (n.holds d))
    (hroots : ∀ c d, R c d → m.HeldBeyond R.left c → n.HeldBeyond R.right d)
    (h : R c d) (halive : m.isAlive c = true) : n.isAlive d = true := by
  have hsupported : n.Supported {d | (∃ c, R c d ∧ m.isAlive c = true) ∨ d ∉ R.right ∧ n.isAlive d = true} := by
    rintro d (⟨c, hcd, halive⟩ | ⟨hd, halive⟩)
    · refine ⟨hmade c d hcd, ?_⟩
      have hroot (h : m.HeldBeyond R.left c) : d ∈ n.held ∨
          ∃ e ∈ {d | (∃ c, R c d ∧ m.isAlive c = true) ∨ d ∉ R.right ∧ n.isAlive d = true}, d ∈ n.holds e :=
        (hroots c d hcd h).imp_right fun ⟨e, he, halive, hde⟩ => ⟨e, .inr ⟨he, halive⟩, hde⟩
      rcases hm.isAlive_iff.1 halive with hheld | ⟨b, hb, hcb⟩
      · exact hroot (.inl hheld)
      · by_cases hlinked : b ∈ R.left
        · obtain ⟨e, hbe⟩ := hlinked
          exact .inr ⟨e, .inl ⟨b, hbe, hb⟩, (List.rel_mem hunique hcd (hholds b e hbe)).1 hcb⟩
        · exact hroot (.inr ⟨b, hlinked, hb, hcb⟩)
    · refine ⟨hn.mem_made_of_isAlive halive, (hn.isAlive_iff.1 halive).imp_right fun ⟨e, he, hde⟩ => ?_⟩
      have hbeyond : e ∉ R.right := fun ⟨b, hbe⟩ => hd (Link.mem_right (hholds b e hbe) d hde)
      exact ⟨e, .inr ⟨hbeyond, he⟩, hde⟩
  exact hsupported.isAlive (.inl ⟨c, h, halive⟩)

end Alive

/-! ## Pairings -/

/-- Two memories and a link between them. -/
structure Pairing where
  left : Memory
  right : Memory
  link : Link

namespace Pairing

/-- The cells that the link leaves out are the same in both pairings, and the link has kept its pairs. -/
structure GrowsInto (x y : Pairing) : Prop where
  link : x.link ≤ y.link
  left : x.left.SameBeyond x.link.left y.left y.link.left
  right : x.right.SameBeyond x.link.right y.right y.link.right

/-- Memories that match: the link is one-to-one between cells that have been made, their contents match, and they are
held alike from outside or by cells that the link leaves out. -/
structure Matched (x : Pairing) : Prop where
  intactLeft : x.left.Intact
  intactRight : x.right.Intact
  unique : Relator.BiUnique x.link
  made : ∀ c d, x.link c d → c ∈ x.left.made ∧ d ∈ x.right.made
  content : ∀ c d, x.link c d → (x.left.content c).Matches x.link (x.right.content d)
  roots : ∀ c d, x.link c d → (x.left.HeldBeyond x.link.left c ↔ x.right.HeldBeyond x.link.right d)

/-- The memories have grown and match. -/
structure Becomes (x y : Pairing) : Prop extends x.GrowsInto y where
  matched : y.Matched

variable {x y z : Pairing} {c d : Cell}

theorem GrowsInto.trans (h : x.GrowsInto y) (h' : y.GrowsInto z) : x.GrowsInto z :=
  ⟨h.link.trans h'.link, h.left.trans h'.left, h.right.trans h'.right⟩

theorem Becomes.trans (h : x.Becomes y) (h' : y.Becomes z) : x.Becomes z :=
  ⟨h.toGrowsInto.trans h'.toGrowsInto, h'.matched⟩

namespace Matched

variable (hx : x.Matched)

include hx

theorem refl : x.Becomes x := ⟨⟨le_rfl, .refl _ _, .refl _ _⟩, hx⟩

theorem holds (h : x.link c d) : List.Forall₂ x.link (x.left.holds c) (x.right.holds d) := by
  rw [Memory.holds_eq, Memory.holds_eq]
  exact (hx.content c d h).holds

/-- Linked cells hold only linked cells. -/
theorem left_holds : ∀ c ∈ x.link.left, ∀ e ∈ x.left.holds c, e ∈ x.link.left :=
  fun _ ⟨_, hcd⟩ => Link.mem_left (hx.holds hcd)

theorem right_holds : ∀ d ∈ x.link.right, ∀ e ∈ x.right.holds d, e ∈ x.link.right :=
  fun _ ⟨_, hcd⟩ => Link.mem_right (hx.holds hcd)

/-- Linked cells are alive together. -/
theorem isAlive_iff (h : x.link c d) : x.left.isAlive c = true ↔ x.right.isAlive d = true := by
  constructor
  · exact isAlive_of_link hx.intactLeft hx.intactRight hx.unique (fun c d h => (hx.made c d h).2)
      (fun _ _ => hx.holds) (fun c d h => (hx.roots c d h).1) h
  · exact isAlive_of_link (R := flip x.link) hx.intactRight hx.intactLeft
      ⟨fun _ _ _ h h' => hx.unique.2 h h', fun _ _ _ h h' => hx.unique.1 h h'⟩ (fun d c h => (hx.made c d h).1)
      (fun _ _ h => (hx.holds h).flip) (fun d c h => (hx.roots c d h).2) h

end Matched

/-! ## Changes of memory -/

theorem GrowsInto.made_left (h : x.GrowsInto y) (hmade : ∀ c d, y.link c d → c ∈ y.left.made ∧ d ∈ y.right.made) :
    x.left.made ⊆ y.left.made := by
  intro c hc
  by_cases hlinked : c ∈ x.link.left
  · obtain ⟨d, hcd⟩ := hlinked
    exact (hmade c d (h.link _ _ hcd)).1
  · exact ((h.left.made c).1 ⟨hc, hlinked⟩).1

theorem GrowsInto.made_right (h : x.GrowsInto y) (hmade : ∀ c d, y.link c d → c ∈ y.left.made ∧ d ∈ y.right.made) :
    x.right.made ⊆ y.right.made := by
  intro d hd
  by_cases hlinked : d ∈ x.link.right
  · obtain ⟨c, hcd⟩ := hlinked
    exact (hmade c d (h.link _ _ hcd)).2
  · exact ((h.right.made d).1 ⟨hd, hlinked⟩).1

/-- Memories into which matching ones have grown match when their contents do and the same is held. Cells that have been
linked before are held beyond the link as they were, and cells that are new are not. -/
theorem Matched.grow (hx : x.Matched) (h : x.GrowsInto y) (hheld : y.left.held = x.left.held)
    (hheld' : y.right.held = x.right.held) (hclosed : y.left.Closed y.left.made)
    (hclosed' : y.right.Closed y.right.made) (hunique : Relator.BiUnique y.link)
    (hmade : ∀ c d, y.link c d → c ∈ y.left.made ∧ d ∈ y.right.made)
    (hcontent : ∀ c d, y.link c d → (y.left.content c).Matches y.link (y.right.content d)) : x.Becomes y := by
  have hleft : y.left.Intact := ⟨hclosed, fun c hc => h.made_left hmade (hx.intactLeft.held c (hheld ▸ hc))⟩
  have hright : y.right.Intact := ⟨hclosed', fun c hc => h.made_right hmade (hx.intactRight.held c (hheld' ▸ hc))⟩
  have hholds {c d : Cell} (hcd : y.link c d) : List.Forall₂ y.link (y.left.holds c) (y.right.holds d) := by
    rw [Memory.holds_eq, Memory.holds_eq]
    exact (hcontent c d hcd).holds
  refine ⟨h, hleft, hright, hunique, hmade, hcontent, fun c d hcd => ?_⟩
  have hroots : y.left.HeldBeyond y.link.left c ↔ x.left.HeldBeyond x.link.left c :=
    or_congr (by rw [hheld]) (h.left.keptBeyond_iff hx.intactLeft hleft hx.left_holds
      fun _ ⟨_, hcd⟩ => Link.mem_left (hholds hcd))
  have hroots' : y.right.HeldBeyond y.link.right d ↔ x.right.HeldBeyond x.link.right d :=
    or_congr (by rw [hheld']) (h.right.keptBeyond_iff hx.intactRight hright hx.right_holds
      fun _ ⟨_, hcd⟩ => Link.mem_right (hholds hcd))
  rw [hroots, hroots']
  by_cases hlinked : x.link c d
  · exact hx.roots c d hlinked
  · -- what is linked now and was made before was linked before, to the same cell
    refine iff_of_false (hx.intactLeft.not_heldBeyond fun hc => ?_) (hx.intactRight.not_heldBeyond fun hd => ?_)
    · have hold : c ∈ x.link.left := by_contra fun hnew => ((h.left.made c).1 ⟨hc, hnew⟩).2 ⟨d, hcd⟩
      obtain ⟨e, hce⟩ := hold
      exact hlinked (hunique.2 (h.link _ _ hce) hcd ▸ hce)
    · have hold : d ∈ x.link.right := by_contra fun hnew => ((h.right.made d).1 ⟨hd, hnew⟩).2 ⟨c, hcd⟩
      obtain ⟨e, hed⟩ := hold
      exact hlinked (hunique.1 (h.link _ _ hed) hcd ▸ hed)

/-! ### Held cells -/

/-- The memories of a pairing with more cells held. -/
def holding (x : Pairing) (cs ds : List Cell) : Pairing := ⟨x.left.holding cs, x.right.holding ds, x.link⟩

/-- The memories of a pairing with the same held as in another one. -/
def heldAs (y x : Pairing) : Pairing :=
  ⟨{ y.left with held := x.left.held }, { y.right with held := x.right.held }, y.link⟩

/-- Linked cells may be held, and let go. -/
theorem Matched.holding (hx : x.Matched) {cs ds : List Cell} (h : List.Forall₂ x.link cs ds) :
    x.Becomes (x.holding cs ds) ∧ (x.holding cs ds).Becomes x := by
  have hleft : x.left.SameBeyond x.link.left (x.left.holding cs) x.link.left := .holding (Link.mem_left h)
  have hright : x.right.SameBeyond x.link.right (x.right.holding ds) x.link.right := .holding (Link.mem_right h)
  have hintact : (x.left.holding cs).Intact := by
    refine ⟨hx.intactLeft.closed, fun c hc => (List.mem_append.1 hc).elim (fun hc => ?_) (hx.intactLeft.held c)⟩
    obtain ⟨d, hcd⟩ := Link.mem_left h c hc
    exact (hx.made c d hcd).1
  have hintact' : (x.right.holding ds).Intact := by
    refine ⟨hx.intactRight.closed, fun d hd => (List.mem_append.1 hd).elim (fun hd => ?_) (hx.intactRight.held d)⟩
    obtain ⟨c, hcd⟩ := Link.mem_right h d hd
    exact (hx.made c d hcd).2
  refine ⟨⟨⟨le_rfl, hleft, hright⟩, hintact, hintact', hx.unique, hx.made, hx.content, fun c d hcd => ?_⟩,
    ⟨le_rfl, hleft.symm, hright.symm⟩, hx⟩
  have hcells : c ∈ cs ↔ d ∈ ds := List.rel_mem hx.unique hcd h
  have hkept := hleft.keptBeyond_iff hx.intactLeft hintact hx.left_holds hx.left_holds (c := c)
  have hkept' := hright.keptBeyond_iff hx.intactRight hintact' hx.right_holds hx.right_holds (c := d)
  have hroots := hx.roots c d hcd
  simp only [Memory.HeldBeyond, Pairing.holding, Memory.holding, List.mem_append] at hkept hkept' hroots ⊢
  rw [hkept, hkept', or_assoc, or_assoc, hcells, hroots]

/-- Letting go what was held in between. -/
theorem Becomes.released (h : x.Becomes y) (hx : x.Matched) : x.Becomes (y.heldAs x) := by
  refine hx.grow ⟨h.link, ⟨h.left.made, h.left.holds, fun _ _ _ => Iff.rfl⟩,
    ⟨h.right.made, h.right.holds, fun _ _ _ => Iff.rfl⟩⟩ rfl rfl ?_ ?_ h.matched.unique h.matched.made h.matched.content
  · exact h.matched.intactLeft.closed
  · exact h.matched.intactRight.closed

/-! ### Changed cells -/

end Pairing

/-- One cell of a memory has been changed, and nothing else. -/
structure Memory.Changed (m : Memory) (c : Cell) (m' : Memory) : Prop where
  made : m'.made = m.made
  content : ∀ d, d ≠ c → m'.content d = m.content d
  held : m'.held = m.held
  closed : m'.Closed m.made

/-- A cell of a memory is new, and nothing else. -/
structure Memory.Added (m : Memory) (c : Cell) (m' : Memory) : Prop where
  made : m'.made = insert c m.made
  new : c ∉ m.made
  content : ∀ d ∈ m.made, m'.content d = m.content d
  held : m'.held = m.held
  closed : m'.Closed (insert c m.made)

section Changes

variable {m m' : Memory} {K : Set Cell} {c : Cell}

theorem Memory.Changed.sameBeyond (h : m.Changed c m') (hc : c ∈ K) : m.SameBeyond K m' K := by
  refine ⟨fun d => by rw [h.made], fun d _ hd => ?_, fun d _ _ => by rw [h.held]⟩
  have hne : d ≠ c := fun he => hd (he ▸ hc)
  rw [holds_eq, holds_eq, h.content d hne]

theorem Memory.Added.sameBeyond (h : m.Added c m') : m.SameBeyond K m' (insert c K) := by
  refine ⟨fun d => ?_, fun d hd _ => by rw [holds_eq, holds_eq, h.content d hd], fun d _ _ => by rw [h.held]⟩
  rw [h.made]
  constructor
  · rintro ⟨hd, hK⟩
    exact ⟨.inr hd, fun hmem => hmem.elim (fun hdc => h.new (hdc ▸ hd)) hK⟩
  · rintro ⟨hd, hK⟩
    exact ⟨hd.resolve_left fun hdc => hK (.inl hdc), fun hmem => hK (.inr hmem)⟩

section Links

variable {n n' : Memory} {R : Link} {a b d : Cell}

/-- Where linked cells have been changed and match still, all linked cells match. -/
theorem Memory.Changed.content_matches (hm : m.Changed c m') (hn : n.Changed d n') (hR : Relator.BiUnique R)
    (hcd : R c d) (hcontent : ∀ a b, R a b → (m.content a).Matches R (n.content b))
    (hnew : (m'.content c).Matches R (n'.content d)) (hab : R a b) : (m'.content a).Matches R (n'.content b) := by
  by_cases hac : a = c
  · subst hac
    obtain rfl := hR.2 hab hcd
    exact hnew
  · have hbd : b ≠ d := fun hbd => hac (hR.1 (hbd ▸ hab) hcd)
    rw [hm.content a hac, hn.content b hbd]
    exact hcontent a b hab

variable (hm : m.Added c m') (hn : n.Added d n') (hmade : ∀ a b, R a b → a ∈ m.made ∧ b ∈ n.made)

include hm hn hmade

theorem Memory.Added.biUnique_add (hR : Relator.BiUnique R) : Relator.BiUnique (R.add c d) :=
  Link.biUnique_add hR (fun ⟨_, h⟩ => hm.new (hmade _ _ h).1) fun ⟨_, h⟩ => hn.new (hmade _ _ h).2

theorem Memory.Added.made_add (hab : R.add c d a b) : a ∈ m'.made ∧ b ∈ n'.made := by
  rw [hm.made, hn.made]
  obtain ⟨rfl, rfl⟩ | hab := hab
  · exact ⟨.inl rfl, .inl rfl⟩
  · exact ⟨.inr (hmade a b hab).1, .inr (hmade a b hab).2⟩

/-- Where new cells match, all linked cells match when these are linked, too. -/
theorem Memory.Added.content_matches (hcontent : ∀ a b, R a b → (m.content a).Matches R (n.content b))
    (hnew : (m'.content c).Matches (R.add c d) (n'.content d)) (hab : R.add c d a b) :
    (m'.content a).Matches (R.add c d) (n'.content b) := by
  obtain ⟨rfl, rfl⟩ | hab := hab
  · exact hnew
  · rw [hm.content a (hmade a b hab).1, hn.content b (hmade a b hab).2]
    exact (hcontent a b hab).mono (R.le_add c d)

end Links

variable {o : ObjectId} {s : ScopeId} {key name : String} {v : Value}

theorem Memory.changed_setProperty (hm : m.Intact) (hv : v.Inside m.made) :
    m.Changed (.object o) (m.setProperty o key v) := by
  refine ⟨made_setProperty, fun d hd => ?_, rfl, hm.closed.setProperty hv⟩
  cases d with
  | object p => exact congrArg Content.object (properties_setProperty_of_ne fun hp => hd (hp ▸ rfl))
  | _ => rfl

theorem Memory.changed_bind (hm : m.Intact) (hv : v.Inside m.made) : m.Changed (.scope s) (m.bind s name v) := by
  refine ⟨made_bind, fun d hd => ?_, rfl, hm.closed.bind hv⟩
  cases d with
  | scope t => exact congrArg Content.scope (scope_bind_of_ne fun ht => hd (ht ▸ rfl))
  | _ => rfl

theorem Memory.added_newObject (hm : m.Intact) : m.Added (.object (m.newObject []).1) (m.newObject []).2 := by
  refine ⟨made_newObject, Nat.lt_irrefl _, fun d hd => ?_, rfl, hm.closed.newObject⟩
  cases d with
  | object p => exact congrArg Content.object (properties_newObject_of_hasObject hd)
  | _ => rfl

theorem Memory.added_newScope (hm : m.Intact) (hs : .scope s ∈ m.made) :
    m.Added (.scope (m.newScope (some s)).1) (m.newScope (some s)).2 := by
  refine ⟨made_newScope, Nat.lt_irrefl _, fun d hd => ?_, rfl, hm.closed.newScope hs⟩
  cases d with
  | scope t => exact congrArg Content.scope (scope_newScope_of_hasScope hd)
  | _ => rfl

theorem Memory.added_newClosure (hm : m.Intact) {f : Closure} (hs : .scope f.scope ∈ m.made) :
    m.Added (.closure (m.newClosure f).1) (m.newClosure f).2 := by
  refine ⟨made_newClosure, Nat.lt_irrefl _, fun d hd => ?_, rfl, hm.closed.newClosure hs⟩
  cases d with
  | closure g => exact congrArg Content.closure (closure_newClosure_of_hasClosure hd)
  | _ => rfl

end Changes

namespace Pairing

variable {x y : Pairing} {c d : Cell} {m n : Memory}

/-- Linked cells may be changed to have other contents that match. -/
theorem Matched.change (hx : x.Matched) (hcd : x.link c d) (hm : x.left.Changed c m) (hn : x.right.Changed d n)
    (hcontent : (m.content c).Matches x.link (n.content d)) : x.Becomes ⟨m, n, x.link⟩ := by
  refine hx.grow ⟨le_rfl, hm.sameBeyond ⟨d, hcd⟩, hn.sameBeyond ⟨c, hcd⟩⟩ hm.held hn.held (hm.made ▸ hm.closed)
    (hn.made ▸ hn.closed) hx.unique (fun a b hab => ?_) fun a b hab => ?_
  · exact ⟨hm.made ▸ (hx.made a b hab).1, hn.made ▸ (hx.made a b hab).2⟩
  · exact hm.content_matches hn hx.unique hcd hx.content hcontent hab

/-- New cells whose contents match may be linked. -/
theorem Matched.add (hx : x.Matched) (hm : x.left.Added c m) (hn : x.right.Added d n)
    (hcontent : (m.content c).Matches (x.link.add c d) (n.content d)) : x.Becomes ⟨m, n, x.link.add c d⟩ := by
  have hleft : x.left.SameBeyond x.link.left m (x.link.add c d).left := x.link.left_add c d ▸ hm.sameBeyond
  have hright : x.right.SameBeyond x.link.right n (x.link.add c d).right := x.link.right_add c d ▸ hn.sameBeyond
  refine hx.grow ⟨x.link.le_add c d, hleft, hright⟩ hm.held hn.held (hm.made ▸ hm.closed) (hn.made ▸ hn.closed)
    (hm.biUnique_add hn hx.made hx.unique) (fun a b hab => hm.made_add hn hx.made hab) fun a b hab => ?_
  exact hm.content_matches hn hx.made hx.content hcontent hab

end Pairing

/-! ## Places -/

section Places

variable {m m' n n' : Memory} {R : Link}

theorem Memory.made_eraseSpans : m.eraseSpans.made = m.made := by
  ext c
  cases c with
  | closure f =>
    show f.index < (m.closures.map Closure.eraseSpans).size ↔ f.index < m.closures.size
    rw [Array.size_map]
  | _ => rfl

theorem Memory.leads_eraseSpans : m.eraseSpans.leads = m.leads := by
  funext c
  cases c with
  | closure f =>
    simp only [leads, closure_eraseSpans]
    rfl
  | _ => rfl

theorem Memory.Alike.sameBeyond (h : m.Alike m') (K : Set Cell) : m.SameBeyond K m' K := by
  refine ⟨fun c => ?_, fun c _ _ => ?_, fun c _ _ => by rw [Alike.held h]⟩
  · rw [h.congr fun _ => made_eraseSpans]
  · rw [h.congr fun _ => holds_eraseSpans]

theorem Memory.Alike.closed (h : m.Alike m') (hm : m.Closed m.made) : m'.Closed m'.made := by
  unfold Closed
  rw [← h.congr fun _ => made_eraseSpans, ← h.congr fun _ => leads_eraseSpans]
  exact hm

/-- Memories match in the same way when they are replaced by ones that differ in places alone. -/
theorem Pairing.Becomes.congr {x : Pairing} (h : x.Becomes ⟨m, n, R⟩) (hm : m.Alike m') (hn : n.Alike n') :
    x.Becomes ⟨m', n', R⟩ := by
  have hgrows : GrowsInto ⟨m, n, R⟩ ⟨m', n', R⟩ := ⟨le_rfl, hm.sameBeyond _, hn.sameBeyond _⟩
  refine h.trans (h.matched.grow hgrows hm.held.symm hn.held.symm (hm.closed h.matched.intactLeft.closed)
    (hn.closed h.matched.intactRight.closed) h.matched.unique (fun c d hcd => ?_) fun c d hcd => ?_)
  · show c ∈ m'.made ∧ d ∈ n'.made
    rw [← hm.congr fun _ => Memory.made_eraseSpans, ← hn.congr fun _ => Memory.made_eraseSpans]
    exact h.matched.made c d hcd
  · refine (h.matched.content c d hcd).congr ?_ ?_
    · show (m.content c).eraseSpans = (m'.content c).eraseSpans
      rw [← Memory.content_eraseSpans, ← Memory.content_eraseSpans, hm.eq]
    · show (n.content d).eraseSpans = (n'.content d).eraseSpans
      rw [← Memory.content_eraseSpans, ← Memory.content_eraseSpans, hn.eq]

end Places

end GameScript
