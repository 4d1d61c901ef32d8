import GameScript.Proofs.Run.Leads
import GameScript.Run.Liveness

/-!
# What is alive, as a law

`isAlive` is worked out by a search and a process of elimination. What it comes to is a law of its own: in an `Intact`
memory, where only cells that have been made are held or named, a cell is alive exactly when it is held from outside or
by a cell that is alive (`isAlive_iff`). Of the sets of cells that obey this law the living cells are the largest
(`Supported.isAlive`): cells that hold each other keep each other alive. In memories that hold the same and are held
alike, the same cells are alive (`isAlive_congr`).
-/

namespace GameScript

theorem Value.lead?_of_cell? {v : Value} {c : Cell} (h : v.cell? = some c) : v.lead? = some c := by
  cases v with
  | reference r =>
    simp only [Value.cell?] at h
    split at h
    · exact h
    · cases h
  | _ => exact h

namespace Memory

variable {m : Memory} {K : Set Cell} {c d : Cell}

/-! ## Cells that have been made -/

/-- Whether a cell has been made. -/
def Has (m : Memory) : Cell → Prop
  | .object o => m.HasObject o
  | .scope s => m.HasScope s
  | .closure c => m.HasClosure c

/-- The cells that have been made. -/
def made (m : Memory) : Set Cell := {c | m.Has c}

theorem mem_cells : c ∈ m.cells ↔ c ∈ m.made := by
  show c ∈ m.cells ↔ m.Has c
  rcases c with ⟨⟨i⟩⟩ | ⟨⟨i⟩⟩ | ⟨⟨i⟩⟩ <;> simp [cells, Has, HasObject, HasScope, HasClosure]

theorem length_cells : m.cells.length = m.cellCount := by simp [cells, cellCount, Nat.add_assoc]

/-- What values name and what is held has been made. -/
structure Intact (m : Memory) : Prop where
  closed : m.Closed m.made
  held : ∀ c ∈ m.held, c ∈ m.made

/-- What a cell holds it leads to. -/
theorem mem_leads_of_mem_holds (h : d ∈ m.holds c) : d ∈ m.leads c := by
  cases c with
  | object o =>
    obtain ⟨v, hv, hd⟩ := List.mem_filterMap.1 h
    obtain ⟨p, hp, rfl⟩ := List.mem_map.1 hv
    exact mem_leads_object.2 ⟨p, hp, Value.lead?_of_cell? hd⟩
  | scope s =>
    rcases List.mem_append.1 h with h | h
    · exact List.mem_append_left _ h
    · obtain ⟨v, hv, hd⟩ := List.mem_filterMap.1 h
      obtain ⟨b, hb, rfl⟩ := List.mem_map.1 hv
      exact mem_leads_scope.2 (.inr ⟨b, hb, Value.lead?_of_cell? hd⟩)
  | closure f => exact h

theorem Intact.mem_made (h : m.Intact) (hc : c ∈ m.made) (hd : d ∈ m.holds c) : d ∈ m.made :=
  h.closed c hc d (mem_leads_of_mem_holds hd)

/-! ## Memories that hold the same -/

section Congruence

variable {n : Memory}

theorem explore_congr (h : n.holds = m.holds) (target : Option Cell) (bound : Nat) (work : List Cell)
    (seen : Std.HashSet Cell) : n.explore target bound work seen = m.explore target bound work seen := by
  induction bound generalizing work seen with
  | zero => rfl
  | succ bound ih =>
    cases work with
    | nil => rfl
    | cons c work => simp only [explore, h, ih]

theorem settle_congr (hholds : n.holds = m.holds) (hheld : n.held = m.held) (bound : Nat) (cs : List Cell) :
    n.settle bound cs = m.settle bound cs := by
  have hretain (cs : List Cell) : n.retain cs = m.retain cs := by rw [retain, hholds, hheld, retain]
  induction bound generalizing cs with
  | zero => rfl
  | succ bound ih => simp only [settle, hretain, ih]

/-- What is alive depends on which cells there are, on what they hold and on what is held from outside. -/
theorem isAlive_congr (hholds : n.holds = m.holds) (hheld : n.held = m.held) (hcells : n.cells = m.cells) :
    n.isAlive = m.isAlive := by
  have hcount : n.cellCount = m.cellCount := by rw [← length_cells, hcells, length_cells]
  funext c
  simp only [isAlive, reach, survivors, explore_congr hholds, settle_congr hholds hheld, hcount, hcells, hheld]

end Congruence

/-! ## Cells that keep each other alive -/

/-- Cells that have been made, each held from outside or by another one of them. -/
def Supported (m : Memory) (K : Set Cell) : Prop := ∀ c ∈ K, c ∈ m.made ∧ (c ∈ m.held ∨ ∃ d ∈ K, c ∈ m.holds d)

theorem mem_retain {cs : List Cell} :
    c ∈ m.retain cs ↔ c ∈ cs ∧ (c ∈ m.held ∨ ∃ d ∈ cs, c ∈ m.holds d) := by
  simp [retain, Std.HashSet.contains_ofList]

/-- What the process of elimination leaves is supported: it does not stop before nothing is shed. -/
theorem supported_settle (bound : Nat) {cs : List Cell} (hbound : cs.length ≤ bound) (hcs : ∀ c ∈ cs, c ∈ m.made) :
    m.Supported {c | c ∈ m.settle bound cs} := by
  induction bound generalizing cs with
  | zero =>
    obtain rfl := List.length_eq_zero_iff.1 (Nat.le_zero.1 hbound)
    exact fun c hc => absurd hc List.not_mem_nil
  | succ bound ih =>
    have hsub : (m.retain cs).Sublist cs := List.filter_sublist
    unfold settle
    dsimp only
    split
    · rename_i hlength
      have hretain : m.retain cs = cs := hsub.eq_of_length hlength
      intro c hc
      have hc' : c ∈ m.retain cs := hretain.symm ▸ hc
      exact ⟨hcs c hc, (mem_retain.1 hc').2⟩
    · rename_i hlength
      have hle := hsub.length_le
      exact ih (by omega) fun c hc => hcs c (hsub.subset hc)

/-- Nothing that is supported is ever shed. -/
theorem Supported.subset_settle (h : m.Supported K) (bound : Nat) {cs : List Cell} (hcs : ∀ c ∈ K, c ∈ cs) :
    ∀ c ∈ K, c ∈ m.settle bound cs := by
  induction bound generalizing cs with
  | zero => exact hcs
  | succ bound ih =>
    unfold settle
    dsimp only
    split
    · exact hcs
    · refine ih fun c hc => mem_retain.2 ⟨hcs c hc, ?_⟩
      exact (h c hc).2.imp_right fun ⟨d, hd, hcd⟩ => ⟨d, hcs d hd, hcd⟩

theorem supported_survivors : m.Supported {c | c ∈ m.survivors} :=
  supported_settle _ length_cells.le fun _ => mem_cells.1

theorem Supported.mem_survivors (h : m.Supported K) (hc : c ∈ K) : c ∈ m.survivors :=
  h.subset_settle _ (fun c hc => mem_cells.2 (h c hc).1) c hc

/-! ## The search -/

theorem discover_subset {cs work work' : List Cell} {seen seen' : Std.HashSet Cell} (hcs : ∀ c ∈ cs, c ∈ K)
    (hwork : ∀ c ∈ work, c ∈ K) (hseen : ∀ c ∈ seen, c ∈ K) (h : discover cs seen work = (work', seen')) :
    (∀ c ∈ work', c ∈ K) ∧ ∀ c ∈ seen', c ∈ K := by
  induction cs generalizing seen work with
  | nil =>
    cases h
    exact ⟨hwork, hseen⟩
  | cons c cs ih =>
    have hrest := fun d hd => hcs d (List.mem_cons_of_mem _ hd)
    unfold discover at h
    split at h
    · exact ih hrest hwork hseen h
    · refine ih hrest (fun d hd => ?_) (fun d hd => ?_) h
      · rcases List.mem_cons.1 hd with rfl | hd
        · exact hcs _ List.mem_cons_self
        · exact hwork d hd
      · rcases Std.HashSet.mem_insert.1 hd with hd | hd
        · exact eq_of_beq hd ▸ hcs _ List.mem_cons_self
        · exact hseen d hd

/-- The search stays within every set that holds members only. -/
theorem explore_subset (hK : ∀ c ∈ K, ∀ d ∈ m.holds c, d ∈ K) (target : Option Cell) (bound : Nat) {work : List Cell}
    {seen : Std.HashSet Cell} (hwork : ∀ c ∈ work, c ∈ K) (hseen : ∀ c ∈ seen, c ∈ K) :
    ∀ c ∈ m.explore target bound work seen, c ∈ K := by
  induction bound generalizing work seen with
  | zero => exact hseen
  | succ bound ih =>
    cases work with
    | nil => exact hseen
    | cons c work =>
      unfold explore
      split
      · exact hseen
      · have hfound := discover_subset (hK c (hwork c List.mem_cons_self))
          (fun d hd => hwork d (List.mem_cons_of_mem _ hd)) hseen rfl
        exact ih hfound.1 hfound.2

theorem reach_subset (hK : ∀ c ∈ K, ∀ d ∈ m.holds c, d ∈ K) (target : Option Cell) {start : List Cell}
    (hstart : ∀ c ∈ start, c ∈ K) : ∀ c ∈ m.reach target start, c ∈ K := by
  have hfound : (∀ c ∈ (discover start ∅ []).1, c ∈ K) ∧ ∀ c ∈ (discover start ∅ []).2, c ∈ K :=
    discover_subset hstart (fun _ h => absurd h List.not_mem_nil) (fun _ h => absurd h Std.HashSet.not_mem_empty) rfl
  exact explore_subset hK target _ (fun c hc => hfound.1 c (List.mem_reverse.1 hc)) hfound.2

/-! ## The law -/

/-- Of the sets of cells that keep each other alive the living cells contain every one. -/
theorem Supported.isAlive (h : m.Supported K) (hc : c ∈ K) : m.isAlive c = true := by
  simp [Memory.isAlive, h.mem_survivors hc]

variable (h : m.Intact)

include h

theorem Intact.mem_survivors_iff :
    c ∈ m.survivors ↔ c ∈ m.held ∨ ∃ d ∈ m.survivors, c ∈ m.holds d := by
  constructor
  · exact fun hc => (supported_survivors c hc).2
  · intro hc
    have hmade : c ∈ m.made := by
      rcases hc with hc | ⟨d, hd, hcd⟩
      · exact h.held c hc
      · exact h.mem_made (supported_survivors d hd).1 hcd
    have hinsert : m.Supported (insert c {d | d ∈ m.survivors}) := by
      rintro e (rfl | he)
      · exact ⟨hmade, hc.imp_right fun ⟨d, hd, hcd⟩ => ⟨d, .inr hd, hcd⟩⟩
      · obtain ⟨hmade, hheld⟩ := supported_survivors e he
        exact ⟨hmade, hheld.imp_right fun ⟨d, hd, hed⟩ => ⟨d, .inr hd, hed⟩⟩
    exact hinsert.mem_survivors (.inl rfl)

theorem Intact.isAlive_iff_mem_survivors : m.isAlive c = true ↔ c ∈ m.survivors := by
  have hreach : c ∈ m.reach (some c) m.held → c ∈ m.survivors :=
    reach_subset (K := {d | d ∈ m.survivors}) (fun c hc d hd => h.mem_survivors_iff.2 (.inr ⟨c, hc, hd⟩)) _
      (fun c hc => h.mem_survivors_iff.2 (.inl hc)) c
  simpa [Memory.isAlive, Std.HashSet.contains_iff_mem] using hreach

/-- A cell is alive exactly when it is held from outside or by a cell that is alive. -/
theorem Intact.isAlive_iff : m.isAlive c = true ↔ c ∈ m.held ∨ ∃ d, m.isAlive d = true ∧ c ∈ m.holds d := by
  simp only [h.isAlive_iff_mem_survivors]
  exact h.mem_survivors_iff

theorem Intact.mem_made_of_isAlive (hc : m.isAlive c = true) : c ∈ m.made :=
  (supported_survivors c (h.isAlive_iff_mem_survivors.1 hc)).1

theorem Intact.isAlive_of_mem_held (hc : c ∈ m.held) : m.isAlive c = true := h.isAlive_iff.2 (.inl hc)

theorem Intact.isAlive_of_mem_holds (hc : m.isAlive c = true) (hd : d ∈ m.holds c) : m.isAlive d = true :=
  h.isAlive_iff.2 (.inr ⟨c, hc, hd⟩)

end Memory

end GameScript
