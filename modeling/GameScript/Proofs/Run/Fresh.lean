import GameScript.Proofs.Run.Paired

/-!
# Memories with new objects and closures

A memory has grown into another one when new objects and closures have been made, and nothing else has been done to what
there was: it has the contents that it had, and what is new or is held keeps nothing alive that was dead
(`Memory.Grown`). Then what there was is alive in both or in neither (`Grown.isAlive_iff`).

When a memory grows twice, it may grow in the same way but for the identities of what is new. A `Link` says then which
new cells correspond, and what there was corresponds to itself (`Memory.Twins`). Values that match by it and fit the
memory that has grown are twins (`Value.Twin`); what is looked up or read with twins are twins or the same error
(`Twins.lookup`, `Twins.resolve`), and what is made or is written to new objects keeps the memories twins
(`Twins.newObject`, `Twins.newClosure`, `Twins.setProperty`).
-/

namespace GameScript

/-! ## What fits a memory that grows -/

/-- A value that keeps no cell of a memory alive that is dead there, and that names a new cell only if it keeps it
alive. -/
structure Value.Fits (m : Memory) (v : Value) : Prop where
  alive : ∀ c, v.cell? = some c → c ∈ m.made → m.isAlive c = true
  fresh : ∀ c, v.lead? = some c → c ∉ m.made → v.cell? = some c

/-- The content of a new object or closure that keeps no cell of a memory alive that is dead there. -/
def Content.Fits (m : Memory) : Content → Prop
  | .object properties => ∀ p ∈ properties, p.2.Fits m
  | .scope _ => False
  | .closure f => m.isAlive (.scope f.scope) = true

section Fits

variable {m : Memory} {v : Value} {c : Cell}

theorem Value.fits_of_lead?_eq_none (h : v.lead? = none) : v.Fits m := by
  refine ⟨fun c hc => ?_, fun c hc => ?_⟩
  · have hlead := Value.lead?_of_cell? hc
    rw [h] at hlead
    cases hlead
  · rw [h] at hc
    cases hc

theorem Value.IsScalar.fits (h : v.IsScalar) : v.Fits m :=
  fits_of_lead?_eq_none (by cases v <;> first | rfl | exact h.elim)

theorem Value.Inside.fits (h : v.Inside m.made) (halive : ∀ c, v.cell? = some c → m.isAlive c = true) : v.Fits m :=
  ⟨fun c hc _ => halive c hc, fun c hc hnew => absurd (h c hc) hnew⟩

theorem Value.Fits.isAlive (h : v.Fits m) (hc : c ∈ Value.cells [v]) (hmade : c ∈ m.made) : m.isAlive c = true := by
  obtain ⟨u, hu, hcell⟩ := List.mem_filterMap.1 hc
  rw [List.mem_singleton.1 hu] at hcell
  exact h.alive c hcell hmade

/-- A value that keeps a new cell alive fits. -/
theorem Value.fits_of_new (hcell : v.cell? = v.lead?) (hnew : ∀ c, v.lead? = some c → c ∉ m.made) : v.Fits m :=
  ⟨fun c hc hmade => absurd hmade (hnew c (hcell ▸ hc)), fun _ hc _ => hcell ▸ hc⟩

/-- What an unanchored reference names was there before. -/
theorem Value.Fits.inside_of_unanchored {r : Reference} (h : (Value.reference r).Fits m) (hr : r.anchored = false) :
    (Value.reference r).Inside m.made := by
  intro c hc
  by_contra hnew
  have hcell := h.fresh c hc hnew
  rw [Value.cell?, hr] at hcell
  cases hcell

/-- A reference to an object that fits does so if it keeps a new object alive. -/
theorem Value.Fits.reference {o : ObjectId} {key : String} {anchored : Bool} (ho : (Value.object o).Fits m)
    (hold : anchored = false → .object o ∈ m.made) : (Value.reference ⟨o, key, anchored⟩).Fits m := by
  cases anchored with
  | true => exact ⟨ho.alive, ho.fresh⟩
  | false =>
    refine ⟨nofun, fun c hc hnew => absurd ?_ hnew⟩
    obtain rfl : .object o = c := Option.some.inj hc
    exact hold rfl

theorem Content.Fits.isAlive {x : Content} (h : x.Fits m) (hc : c ∈ x.holds) (hmade : c ∈ m.made) :
    m.isAlive c = true := by
  cases x with
  | object properties =>
    obtain ⟨v, hv, hcell⟩ := List.mem_filterMap.1 hc
    obtain ⟨p, hp, rfl⟩ := List.mem_map.1 hv
    exact (h p hp).alive c hcell hmade
  | scope s => exact h.elim
  | closure f =>
    obtain rfl : c = .scope f.scope := List.mem_singleton.1 hc
    exact h

end Fits

/-! ## Memories that have grown -/

/-- A memory has become another one by new objects and closures and by more that is held. -/
structure Memory.Grown (m k : Memory) : Prop where
  before : m.Intact
  intact : k.Intact
  scopes : k.scopes = m.scopes
  made : m.made ⊆ k.made
  content : ∀ c ∈ m.made, k.content c = m.content c
  fresh : ∀ c ∈ k.made, c ∉ m.made → (k.content c).Fits m
  held : ∀ c ∈ k.held, c ∈ m.made → m.isAlive c = true
  keeps : m.held ⊆ k.held

namespace Memory

section Grown

variable {m k n : Memory} {c : Cell} {o : ObjectId} {s : ScopeId} {key : String} {v : Value}

theorem Grown.refl (hm : m.Intact) : m.Grown m :=
  ⟨hm, hm, rfl, subset_rfl, fun _ _ => rfl, fun _ hc hnew => absurd hc hnew,
    fun _ hc _ => hm.isAlive_of_mem_held hc, fun _ hc => hc⟩

theorem Grown.holds_eq (h : m.Grown k) (hc : c ∈ m.made) : k.holds c = m.holds c := by
  rw [Memory.holds_eq, Memory.holds_eq, h.content c hc]

/-- What there was is alive in both memories or in neither. -/
theorem Grown.isAlive_iff (h : m.Grown k) (hc : c ∈ m.made) : k.isAlive c = true ↔ m.isAlive c = true := by
  have hold {c : Cell} (halive : m.isAlive c = true) :
      c ∈ m.held ∨ ∃ d, d ∈ m.made ∧ m.isAlive d = true ∧ c ∈ m.holds d :=
    (h.before.isAlive_iff.1 halive).imp_right fun ⟨d, hd, hcd⟩ => ⟨d, h.before.mem_made_of_isAlive hd, hd, hcd⟩
  constructor
  · intro halive
    -- the cells of `m` that are alive in either memory support each other: those that are new hold only living ones
    have hsupported : m.Supported {c | c ∈ m.made ∧ (k.isAlive c = true ∨ m.isAlive c = true)} := by
      rintro c ⟨hc, halive⟩
      have hback (halive : m.isAlive c = true) :
          c ∈ m.held ∨ ∃ d ∈ {c | c ∈ m.made ∧ (k.isAlive c = true ∨ m.isAlive c = true)}, c ∈ m.holds d :=
        (hold halive).imp_right fun ⟨d, hd, hdalive, hcd⟩ => ⟨d, ⟨hd, .inr hdalive⟩, hcd⟩
      refine ⟨hc, halive.elim (fun halive => ?_) hback⟩
      rcases h.intact.isAlive_iff.1 halive with hheld | ⟨d, hd, hcd⟩
      · exact hback (h.held c hheld hc)
      · by_cases hmade : d ∈ m.made
        · exact .inr ⟨d, ⟨hmade, .inl hd⟩, h.holds_eq hmade ▸ hcd⟩
        · have hfits := h.fresh d (h.intact.mem_made_of_isAlive hd) hmade
          exact hback (hfits.isAlive (Memory.holds_eq k d ▸ hcd) hc)
    exact hsupported.isAlive ⟨hc, .inl halive⟩
  · intro halive
    have hsupported : k.Supported {c | m.isAlive c = true} := by
      intro c halive
      refine ⟨h.made (h.before.mem_made_of_isAlive halive), (hold halive).imp (fun hc => h.keeps hc) ?_⟩
      rintro ⟨d, hd, hdalive, hcd⟩
      exact ⟨d, hdalive, h.holds_eq hd ▸ hcd⟩
    exact hsupported.isAlive halive

/-! ### What is read -/

theorem Grown.lookup_eq (h : m.Grown k) (s : ScopeId) (name : String) : k.lookup s name = m.lookup s name := by
  have hscope : k.scope = m.scope := by
    funext t
    rw [Memory.scope, h.scopes, Memory.scope]
  have hchain (bound : Nat) (t : ScopeId) : k.chainUpTo bound t = m.chainUpTo bound t := by
    induction bound generalizing t with
    | zero => rfl
    | succ bound ih =>
      unfold chainUpTo
      rw [hscope]
      split
      · rfl
      · rw [ih]
  rw [Memory.lookup, Memory.chain, hscope, hchain, Memory.lookup, Memory.chain]

theorem Grown.properties_eq (h : m.Grown k) (ho : .object o ∈ m.made) : k.properties o = m.properties o :=
  Content.object.inj (h.content _ ho)

/-- A property of an object that is new or alive fits. -/
theorem Grown.fits_property (h : m.Grown k) (ho : .object o ∈ k.made)
    (halive : .object o ∈ m.made → m.isAlive (.object o) = true) (hv : k.property? o key = some v) : v.Fits m := by
  by_cases hmade : .object o ∈ m.made
  · rw [property?, h.properties_eq hmade] at hv
    refine (h.before.closed.inside_property hmade hv).fits fun c hc => ?_
    refine h.before.isAlive_of_mem_holds (halive hmade) (List.mem_filterMap.2 ⟨v, ?_, hc⟩)
    exact List.mem_map_of_mem (f := Prod.snd) (Entries.mem_of_get? hv)
  · exact h.fresh _ ho hmade _ (Entries.mem_of_get? hv)

/-- What is read from what there was is what there was. -/
theorem Grown.inside_resolve (h : m.Grown k) {u : Value} (hv : v.Inside m.made) (hu : k.resolve v = .ok u) :
    u.Inside m.made := by
  cases v with
  | reference r =>
    have ho : .object r.object ∈ m.made := hv _ rfl
    have hread := eq_of_read hu
    rw [property?, h.properties_eq ho] at hread
    cases hp : (m.properties r.object).get? r.key with
    | none =>
      rw [hp] at hread
      obtain rfl : Value.undefined = u := hread
      intro c hc
      cases hc
    | some w =>
      rw [hp] at hread
      obtain rfl : w = u := hread
      exact h.before.closed.inside_property ho hp
  | _ =>
    cases hu
    exact hv

/-! ### What is made, written and held -/

theorem Grown.add (h : m.Grown k) (hadd : k.Added c n) (hscopes : n.scopes = k.scopes) (hfits : (n.content c).Fits m) :
    m.Grown n where
  before := h.before
  intact := ⟨hadd.made ▸ hadd.closed, fun d hd => hadd.made ▸ .inr (h.intact.held d (hadd.held ▸ hd))⟩
  scopes := hscopes.trans h.scopes
  made d hd := hadd.made ▸ .inr (h.made hd)
  content d hd := (hadd.content d (h.made hd)).trans (h.content d hd)
  fresh d hd hnew := by
    by_cases hdc : d = c
    · exact hdc ▸ hfits
    · have hmade : d ∈ k.made := (hadd.made ▸ hd : d ∈ insert c k.made).resolve_left hdc
      rw [hadd.content d hmade]
      exact h.fresh d hmade hnew
  held d hd := h.held d (hadd.held ▸ hd)
  keeps d hd := hadd.held ▸ h.keeps hd

theorem Grown.change (h : m.Grown k) (hchange : k.Changed c n) (hscopes : n.scopes = k.scopes) (hc : c ∉ m.made)
    (hfits : (n.content c).Fits m) : m.Grown n where
  before := h.before
  intact := ⟨hchange.made ▸ hchange.closed, fun d hd => hchange.made ▸ h.intact.held d (hchange.held ▸ hd)⟩
  scopes := hscopes.trans h.scopes
  made d hd := hchange.made ▸ h.made hd
  content d hd := (hchange.content d fun hdc => hc (hdc ▸ hd)).trans (h.content d hd)
  fresh d hd hnew := by
    by_cases hdc : d = c
    · exact hdc ▸ hfits
    · rw [hchange.content d hdc]
      exact h.fresh d (hchange.made ▸ hd) hnew
  held d hd := h.held d (hchange.held ▸ hd)
  keeps d hd := hchange.held ▸ h.keeps hd

/-- What is held may be replaced, as long as that keeps alive what lived and nothing more. -/
theorem Grown.holdingOnly (h : m.Grown k) {cells : List Cell} (hmade : ∀ c ∈ cells, c ∈ k.made)
    (halive : ∀ c ∈ cells, c ∈ m.made → m.isAlive c = true) (hkeeps : m.held ⊆ cells) :
    m.Grown { k with held := cells } :=
  ⟨h.before, ⟨h.intact.closed, hmade⟩, h.scopes, h.made, h.content, h.fresh, halive, hkeeps⟩

theorem Grown.holding (h : m.Grown k) {cells : List Cell} (hmade : ∀ c ∈ cells, c ∈ k.made)
    (halive : ∀ c ∈ cells, c ∈ m.made → m.isAlive c = true) : m.Grown (k.holding cells) := by
  refine h.holdingOnly (fun c hc => ?_) (fun c hc => ?_) fun c hc => List.mem_append_right _ (h.keeps hc)
  · exact (List.mem_append.1 hc).elim (hmade c) (h.intact.held c)
  · exact (List.mem_append.1 hc).elim (halive c) (h.held c)

/-- What is held besides may be let go. -/
theorem Grown.released (h : m.Grown n) (hk : m.Grown k) (hsub : k.held ⊆ n.held) :
    m.Grown { n with held := k.held } :=
  h.holdingOnly (fun c hc => h.intact.held c (hsub hc)) hk.held hk.keeps

end Grown

/-! ## Memories that have grown in the same way -/

/-- Two memories that have grown from one are the same by a link, in which what there was corresponds to itself. -/
structure SameButFresh (m : Memory) (R : Link) (k k' : Memory) : Prop where
  unique : Relator.BiUnique R
  old : ∀ c ∈ m.made, R c c
  content : ∀ c d, R c d → (k.content c).Matches R (k'.content d)

/-- A memory has grown into two that are the same by a link of cells that have been made. -/
structure Twins (m : Memory) (R : Link) (k k' : Memory) : Prop extends m.SameButFresh R k k' where
  left : m.Grown k
  right : m.Grown k'
  made : ∀ c d, R c d → c ∈ k.made ∧ d ∈ k'.made

end Memory

/-- Values that match and fit a memory that has grown. -/
structure Value.Twin (m : Memory) (R : Link) (v w : Value) : Prop where
  linked : v.Matches R w
  fits : v.Fits m

theorem Value.Twin.mono {m : Memory} {R S : Link} {v w : Value} (h : v.Twin m R w) (hle : R ≤ S) : v.Twin m S w :=
  ⟨h.linked.mono hle, h.fits⟩

theorem Value.IsScalar.twin {m : Memory} {R : Link} {v : Value} (h : v.IsScalar) : v.Twin m R v := ⟨h.matches, h.fits⟩

theorem Value.Inside.matches_self {K : Set Cell} {R : Link} {v : Value} (hR : ∀ c ∈ K, R c c) (hv : v.Inside K) :
    v.Matches R v := by
  cases v with
  | object o => exact .object (hR _ (hv _ rfl))
  | closure f => exact .closure (hR _ (hv _ rfl))
  | reference r => exact .reference ⟨hR _ (hv _ rfl), rfl, rfl⟩
  | _ => exact .same rfl

namespace Memory

section Twins

variable {m k k' n n' : Memory} {R S : Link} {c d : Cell} {o p : ObjectId} {s : ScopeId} {v w : Value}

/-- The content of a cell matches itself by a link that has what it leads to correspond to itself. -/
theorem Closed.content_matches_self {K : Set Cell} (h : m.Closed K) (hR : ∀ c ∈ K, R c c) (hc : c ∈ K) :
    (m.content c).Matches R (m.content c) := by
  have hentries {es : Entries Value} (hes : ∀ e ∈ es, e.2.Inside K) : es.Matches R es :=
    List.forall₂_same.2 fun e he => ⟨rfl, (hes e he).matches_self hR⟩
  cases c with
  | object o =>
    exact .object (hentries fun e he d hd => h _ hc d (mem_leads_object.2 ⟨e, he, hd⟩))
  | scope s =>
    refine .scope (hentries fun e he d hd => h _ hc d (mem_leads_scope.2 (.inr ⟨e, he, hd⟩))) ?_ rfl
    cases hp : (m.scope s).parent with
    | none => exact .none
    | some p => exact .some (hR _ (h.parent hc hp))
  | closure f => exact .closure rfl rfl (hR _ (h.scope hc))

/-- Before anything is made, a memory and what it has grown into are twins by what there was. -/
theorem Grown.twins (h : m.Grown k) (h' : m.Grown k') : m.Twins (fun c d => c ∈ m.made ∧ c = d) k k' := by
  refine ⟨⟨⟨?_, ?_⟩, fun c hc => ⟨hc, rfl⟩, ?_⟩, h, h', ?_⟩
  · rintro c d e ⟨-, rfl⟩ ⟨-, rfl⟩
    rfl
  · rintro c d e ⟨-, rfl⟩ ⟨-, rfl⟩
    rfl
  · rintro c d ⟨hc, rfl⟩
    rw [h.content c hc, h'.content c hc]
    exact h.before.closed.content_matches_self (fun c hc => ⟨hc, rfl⟩) hc
  · rintro c d ⟨hc, rfl⟩
    exact ⟨h.made hc, h'.made hc⟩

theorem SameButFresh.eq (h : m.SameButFresh R k k') (hcd : R c d) (hc : c ∈ m.made) : c = d :=
  h.unique.2 (h.old c hc) hcd

theorem SameButFresh.mem_made_iff (h : m.SameButFresh R k k') (hcd : R c d) : c ∈ m.made ↔ d ∈ m.made :=
  ⟨fun hc => h.eq hcd hc ▸ hc, fun hd => h.unique.1 (h.old d hd) hcd ▸ hd⟩

variable (h : m.Twins R k k')

include h

/-- The other one of two twins fits as well. -/
theorem Twins.fits_right (hv : v.Twin m R w) : w.Fits m := by
  have hcell := hv.linked.cell?
  have hlead := hv.linked.lead?
  constructor
  · intro d hd hmade
    rw [hd] at hcell
    generalize hc : v.cell? = c at hcell
    cases hcell with
    | @some c _ hcd =>
      have hold := (h.mem_made_iff hcd).2 hmade
      exact h.eq hcd hold ▸ hv.fits.alive c hc hold
  · intro d hd hnew
    rw [hd] at hlead
    generalize hc : v.lead? = c at hlead
    cases hlead with
    | @some c _ hcd =>
      rw [hv.fits.fresh c hc fun hold => hnew ((h.mem_made_iff hcd).1 hold)] at hcell
      generalize w.cell? = e at hcell
      cases hcell with
      | some hce => rw [h.unique.2 hce hcd]

/-! ### What is held -/

/-- What twins keep alive has been made. -/
theorem Twins.made_of_cells (hv : v.Twin m R w) :
    (∀ c ∈ Value.cells [v], c ∈ k.made) ∧ ∀ d ∈ Value.cells [w], d ∈ k'.made := by
  have hlinked := Value.forall₂_cells (.cons hv.linked .nil)
  constructor
  · intro c hc
    obtain ⟨d, hcd⟩ := Link.mem_left hlinked c hc
    exact (h.made c d hcd).1
  · intro d hd
    obtain ⟨c, hcd⟩ := Link.mem_right hlinked d hd
    exact (h.made c d hcd).2

/-- Twins may be held. -/
theorem Twins.holding (hv : v.Twin m R w) :
    m.Twins R (k.holding (Value.cells [v])) (k'.holding (Value.cells [w])) := by
  obtain ⟨hmade, hmade'⟩ := h.made_of_cells hv
  exact ⟨⟨h.unique, h.old, h.content⟩, h.left.holding hmade fun c hc => hv.fits.isAlive hc,
    h.right.holding hmade' fun d hd => (h.fits_right hv).isAlive hd, h.made⟩

theorem Twins.released (hn : m.Twins S n n') (hsub : k.held ⊆ n.held) (hsub' : k'.held ⊆ n'.held) :
    m.Twins S { n with held := k.held } { n' with held := k'.held } :=
  ⟨⟨hn.unique, hn.old, hn.content⟩, hn.left.released h.left hsub, hn.right.released h.right hsub', hn.made⟩

/-! ### What is read -/

/-- A name stands for the same value, of what there was. -/
theorem Twins.lookup (hs : m.isAlive (.scope s) = true) (name : String) :
    Agrees (fun v w => v.Twin m R w ∧ v.Inside m.made) (k.lookup s name) (k'.lookup s name) := by
  rw [h.left.lookup_eq, h.right.lookup_eq]
  cases hv : m.lookup s name with
  | error e => exact rfl
  | ok v =>
    have hinside := h.left.before.inside_lookup hs hv
    exact ⟨⟨hinside.matches_self h.old, hinside.fits fun _ hc => h.left.before.isAlive_of_lookup hs hv hc⟩, hinside⟩

/-- Objects that correspond have properties that match. -/
theorem Twins.properties (ho : R (.object o) (.object p)) : (k.properties o).Matches R (k'.properties p) := by
  cases h.content _ _ ho with
  | object h => exact h

/-- The object of a reference is alive for both twins or for none. -/
theorem Twins.target {r q : Reference} (hr : (Value.reference r).Twin m R (.reference q)) :
    Agrees (fun o p => o = r.object ∧ p = q.object ∧ (.object o ∈ m.made → m.isAlive (.object o) = true))
      (k.target r) (k'.target q) := by
  obtain ⟨hmatches, hfits⟩ := hr
  cases hmatches with
  | same h => cases h
  | reference hrq =>
    unfold Memory.target
    rw [← hrq.anchored, ← hrq.key]
    cases hanchored : r.anchored with
    | true => exact ⟨rfl, rfl, hfits.alive _ (by rw [Value.cell?, hanchored]; rfl)⟩
    | false =>
      -- it was there before, and on what there was both memories agree
      have hmade : .object r.object ∈ m.made := hfits.inside_of_unanchored hanchored _ rfl
      rw [← h.eq hrq.object hmade, Bool.eq_iff_iff.2 (h.left.isAlive_iff hmade),
        Bool.eq_iff_iff.2 (h.right.isAlive_iff hmade)]
      cases halive : m.isAlive (.object r.object) with
      | true => exact ⟨rfl, rfl, fun _ => halive⟩
      | false => exact rfl

/-- What twins stand for are twins. -/
theorem Twins.resolve (hv : v.Twin m R w) : Agrees (Value.Twin m R) (k.resolve v) (k'.resolve w) := by
  obtain ⟨hmatches, hfits⟩ := hv
  cases hmatches with
  | @same v hlead => cases v <;> first | exact ⟨.same rfl, hfits⟩ | cases hlead
  | object ho => exact ⟨.object ho, hfits⟩
  | closure hf => exact ⟨.closure hf, hfits⟩
  | @reference r q hrq =>
    refine (h.target ⟨.reference hrq, hfits⟩).bind ?_
    rintro o p ⟨rfl, rfl, halive⟩
    have hproperty := Entries.Matches.get? (h.properties hrq.object) r.key
    show Value.Twin m R ((k.property? r.object r.key).getD .undefined) ((k'.property? q.object q.key).getD .undefined)
    rw [← hrq.key, property?, property?]
    generalize hu : (k.properties r.object).get? r.key = u, (k'.properties q.object).get? r.key = u' at hproperty
    cases hproperty with
    | none => exact Value.IsScalar.twin trivial
    | some huu' => exact ⟨huu', h.left.fits_property (h.made _ _ hrq.object).1 halive hu⟩

/-- What a value of what there was stands for was there. -/
theorem Twins.resolve_inside (hv : v.Twin m R w) : Agrees
    (fun a b => a.Twin m R b ∧ (v.Inside m.made → a.Inside m.made)) (k.resolve v) (k'.resolve w) := by
  have hresolve := h.resolve hv
  cases hu : k.resolve v with
  | error e =>
    rw [hu] at hresolve
    cases hu' : k'.resolve w <;> rw [hu'] at hresolve <;> exact hresolve
  | ok u =>
    rw [hu] at hresolve
    cases hu' : k'.resolve w with
    | error e =>
      rw [hu'] at hresolve
      exact hresolve
    | ok u' =>
      rw [hu'] at hresolve
      exact ⟨hresolve, fun hinside => h.left.inside_resolve hinside hu⟩

/-! ### What is made and written -/

/-- New cells with contents that match correspond. -/
theorem Twins.add (hadd : k.Added c n) (hadd' : k'.Added d n') (hscopes : n.scopes = k.scopes)
    (hscopes' : n'.scopes = k'.scopes) (hfits : (n.content c).Fits m) (hfits' : (n'.content d).Fits m)
    (hcontent : (n.content c).Matches (R.add c d) (n'.content d)) : m.Twins (R.add c d) n n' where
  unique := hadd.biUnique_add hadd' h.made h.unique
  old c hc := .inr (h.old c hc)
  content _ _ := hadd.content_matches hadd' h.made h.content hcontent
  left := h.left.add hadd hscopes hfits
  right := h.right.add hadd' hscopes' hfits'
  made _ _ := hadd.made_add hadd' h.made

theorem Twins.newObject : ∃ S, R ≤ S ∧ m.Twins S (k.newObject []).2 (k'.newObject []).2 ∧
    S (.object (k.newObject []).1) (.object (k'.newObject []).1) ∧ .object (k.newObject []).1 ∉ m.made := by
  have hadd := added_newObject h.left.intact
  have hadd' := added_newObject h.right.intact
  have hcontent {m : Memory} : (m.newObject []).2.content (.object (m.newObject []).1) = .object [] :=
    congrArg Content.object properties_newObject
  refine ⟨_, R.le_add _ _, h.add hadd hadd' rfl rfl ?_ ?_ ?_, .inl ⟨rfl, rfl⟩, fun hold => hadd.new (h.left.made hold)⟩
  · exact hcontent ▸ List.forall_mem_nil _
  · exact hcontent ▸ List.forall_mem_nil _
  · rw [hcontent, hcontent]
    exact .object .nil

theorem Twins.newClosure {f : Closure} (hs : m.isAlive (.scope f.scope) = true) :
    ∃ S, R ≤ S ∧ m.Twins S (k.newClosure f).2 (k'.newClosure f).2 ∧
      S (.closure (k.newClosure f).1) (.closure (k'.newClosure f).1) ∧ .closure (k.newClosure f).1 ∉ m.made := by
  have hmade := h.left.before.mem_made_of_isAlive hs
  have hadd := added_newClosure h.left.intact (h.left.made hmade)
  have hadd' := added_newClosure h.right.intact (h.right.made hmade)
  have hcontent {m : Memory} : (m.newClosure f).2.content (.closure (m.newClosure f).1) = .closure f :=
    congrArg Content.closure closure_newClosure
  refine ⟨_, R.le_add _ _, h.add hadd hadd' rfl rfl ?_ ?_ ?_, .inl ⟨rfl, rfl⟩, fun hold => hadd.new (h.left.made hold)⟩
  · exact hcontent ▸ hs
  · exact hcontent ▸ hs
  · rw [hcontent, hcontent]
    exact .closure rfl rfl (.inr (h.old _ hmade))

/-- Twins may be written to new objects that correspond. -/
theorem Twins.setProperty (ho : R (.object o) (.object p)) (hnew : .object o ∉ m.made) (key : String)
    (hv : v.Twin m R w) : m.Twins R (k.setProperty o key v) (k'.setProperty p key w) := by
  obtain ⟨hinside, hinside'⟩ := hv.linked.inside h.made
  obtain ⟨hmade, hmade'⟩ := h.made _ _ ho
  have hchange : k.Changed (.object o) (k.setProperty o key v) := changed_setProperty h.left.intact hinside
  have hchange' : k'.Changed (.object p) (k'.setProperty p key w) := changed_setProperty h.right.intact hinside'
  have hput {k : Memory} {o : ObjectId} {v : Value} (hk : m.Grown k) (hmade : .object o ∈ k.made)
      (hnew : .object o ∉ m.made) (hv : v.Fits m) : ((k.setProperty o key v).content (.object o)).Fits m := by
    intro e he
    rcases mem_properties_setProperty he with he | ⟨-, rfl⟩
    · exact hk.fresh _ hmade hnew e he
    · exact hv
  refine ⟨⟨h.unique, h.old, fun _ _ => hchange.content_matches hchange' h.unique ho h.content ?_⟩,
    h.left.change hchange rfl hnew (hput h.left hmade hnew hv.fits),
    h.right.change hchange' rfl (fun hold => hnew ((h.mem_made_iff ho).2 hold)) ?_, ?_⟩
  · rw [content, content, properties_setProperty hmade, properties_setProperty hmade']
    exact .object (Entries.Matches.put (h.properties ho) key hv.linked)
  · exact hput h.right hmade' (fun hold => hnew ((h.mem_made_iff ho).2 hold)) (h.fits_right hv)
  · rw [hchange.made, hchange'.made]
    exact h.made

end Twins

end Memory

end GameScript
