import GameScript.Proofs.Run.Lifetimes
import GameScript.Proofs.Run.Outcomes
import GameScript.Run.Display
import Mathlib

/-!
# Which values have a text

Showing a value goes from an object to its properties, unless it is inside that object already, and from a reference to
what it names, however often it has been there (`Memory.Shows`). Objects that hold themselves or each other do no
harm: a path is no longer than there are objects. References do: following them never comes to an end where they lead
back to one of them (`Memory.OnRing`), and only there, since they name no more values than there are properties.

So a value has a text exactly when no ring of references is entered, and then the bound that `render?` works with is
enough for it. Main statement: `text_iff_no_ring`.
-/

namespace GameScript

namespace Memory

/-- What showing a value inside the objects of a path goes on with. -/
inductive Shows (m : Memory) : List ObjectId × Value → List ObjectId × Value → Prop
  | reference {path : List ObjectId} {r : Reference} {v : Value} (h : m.read r = .ok v) :
      Shows m (path, .reference r) (path, v)
  | property {path : List ObjectId} {o : ObjectId} {key : String} {v : Value} (hpath : o ∉ path)
      (h : (key, v) ∈ m.properties o) : Shows m (path, .object o) (o :: path, v)

/-- A value is a reference to another one. -/
def Leads (m : Memory) (v w : Value) : Prop := ∃ r, v = .reference r ∧ m.read r = .ok w

/-- Following references leads from a value back to it. -/
def OnRing (m : Memory) (v : Value) : Prop := Relation.TransGen m.Leads v v

/-- Showing a value inside the objects of a path comes to a ring of references. -/
def MeetsRing (m : Memory) (path : List ObjectId) (v : Value) : Prop :=
  ∃ y, Relation.ReflTransGen m.Shows (path, v) y ∧ m.OnRing y.2

variable {m : Memory} {path : List ObjectId} {v w : Value} {bound : Nat} {quoted : Bool}

/-! ## One step -/

theorem isSome_mapM_iff {α β : Type} {f : α → Option β} {as : List α} :
    (as.mapM f).isSome ↔ ∀ a ∈ as, (f a).isSome := by
  induction as with
  | nil => simp
  | cons a as ih =>
    cases ha : f a <;> cases has : as.mapM f <;> simp_all [List.mapM_cons]

/-- What is found by going through a list is found again by whatever finds the same at each place. -/
theorem mapM_eq_some_of_forall {α β : Type} {f g : α → Option β} {as : List α} {bs : List β}
    (h : ∀ a ∈ as, ∀ b, f a = some b → g a = some b) (hf : as.mapM f = some bs) : as.mapM g = some bs := by
  induction as generalizing bs with
  | nil => exact hf
  | cons a as ih =>
    rw [List.mapM_cons] at hf ⊢
    cases ha : f a with
    | none => simp [ha] at hf
    | some b =>
      cases has : as.mapM f with
      | none => simp [ha, has] at hf
      | some bs' =>
        rw [h a List.mem_cons_self b ha, ih (fun a' ha' => h a' (List.mem_cons_of_mem _ ha')) has]
        simpa [ha, has] using hf

/-- Whether there is a text does not depend on quotes. -/
theorem isSome_renderIn_quoted (quoted quoted' : Bool) :
    (m.renderIn bound path quoted v).isSome = (m.renderIn bound path quoted' v).isSome := by
  induction bound generalizing v with
  | zero => rfl
  | succ bound ih =>
    cases v with
    | reference r =>
      simp only [renderIn]
      cases m.read r with
      | ok w => exact ih
      | error e => rfl
    | _ => rfl

/-- A value has a text when all that it is shown with have one. -/
theorem isSome_renderIn_succ : (m.renderIn (bound + 1) path quoted v).isSome ↔
    ∀ y, m.Shows (path, v) y → (m.renderIn bound y.1 quoted y.2).isSome := by
  cases v with
  | reference r =>
    simp only [renderIn]
    cases hr : m.read r with
    | ok w =>
      refine ⟨fun h y hy => ?_, fun h => h _ (.reference hr)⟩
      cases hy with
      | reference hw =>
        obtain rfl := Except.ok.inj (hr.symm.trans hw)
        exact h
    | error e =>
      refine iff_of_true rfl fun y hy => ?_
      cases hy with
      | reference hw => cases hr.symm.trans hw
  | object o =>
    simp only [renderIn, List.contains_eq_mem, decide_eq_true_eq]
    by_cases ho : o ∈ path
    · rw [if_pos ho]
      refine iff_of_true rfl fun y hy => ?_
      cases hy with
      | property hpath => exact absurd ho hpath
    · rw [if_neg ho]
      have hentries : (∀ y, m.Shows (path, .object o) y → (m.renderIn bound y.1 quoted y.2).isSome) ↔
          ∀ e ∈ m.properties o, (m.renderIn bound (o :: path) true e.2).isSome := by
        constructor
        · intro h e he
          rw [isSome_renderIn_quoted true quoted]
          exact h _ (.property ho he)
        · intro h y hy
          cases hy with
          | property _ he =>
            rw [isSome_renderIn_quoted quoted true]
            exact h _ he
      rw [hentries]
      split
      · rename_i hempty
        simp [List.isEmpty_iff.1 hempty]
      · simp [Option.isSome_bind, isSome_mapM_iff]
  | _ => exact iff_of_true rfl nofun

/-- A text that is found is found with a higher bound, too. -/
theorem renderIn_succ {text : String} (h : m.renderIn bound path quoted v = some text) :
    m.renderIn (bound + 1) path quoted v = some text := by
  induction bound generalizing path quoted v text with
  | zero => cases h
  | succ bound ih =>
    cases v with
    | reference r =>
      simp only [renderIn] at h ⊢
      cases hr : m.read r with
      | ok w =>
        rw [hr] at h
        exact ih h
      | error e =>
        rw [hr] at h
        exact h
    | object o =>
      rw [renderIn] at h ⊢
      simp only at h ⊢
      split
      · rename_i ho
        rwa [if_pos ho] at h
      rename_i ho
      rw [if_neg ho] at h
      split
      · rename_i hempty
        rwa [if_pos hempty] at h
      rename_i hempty
      rw [if_neg hempty] at h
      obtain ⟨parts, hparts, htext⟩ := Option.bind_eq_some_iff.1 h
      refine Option.bind_eq_some_iff.2 ⟨parts, mapM_eq_some_of_forall ?_ hparts, htext⟩
      rintro ⟨key, w⟩ - part hpart
      obtain ⟨shown, hshown, hkey⟩ := Option.bind_eq_some_iff.1 hpart
      exact Option.bind_eq_some_iff.2 ⟨shown, ih hshown, hkey⟩
    | _ => exact h

theorem renderIn_le {text : String} {bound' : Nat} (hle : bound ≤ bound')
    (h : m.renderIn bound path quoted v = some text) : m.renderIn bound' path quoted v = some text := by
  induction hle with
  | refl => exact h
  | step _ ih => exact renderIn_succ ih

theorem isSome_renderIn_le {bound' : Nat} (hle : bound ≤ bound') (h : (m.renderIn bound path quoted v).isSome) :
    (m.renderIn bound' path quoted v).isSome := by
  obtain ⟨text, htext⟩ := Option.isSome_iff_exists.1 h
  rw [renderIn_le hle htext]
  rfl

/-! ## Rings -/

theorem Leads.shows (h : m.Leads v w) (path : List ObjectId) : m.Shows (path, v) (path, w) := by
  obtain ⟨r, rfl, hr⟩ := h
  exact .reference hr

/-- On a ring, showing a value comes back to it. -/
theorem OnRing.shows (h : m.OnRing v) (path : List ObjectId) :
    Relation.TransGen m.Shows (path, v) (path, v) :=
  Relation.TransGen.lift (path, ·) (fun _ _ h => Leads.shows h path) _ _ h

/-- Where a text is found, showing the value ends. -/
theorem acc_of_isSome (h : (m.renderIn bound path quoted v).isSome) : Acc (flip m.Shows) (path, v) := by
  induction bound generalizing path v with
  | zero => cases h
  | succ bound ih => exact ⟨_, fun y hy => ih (isSome_renderIn_succ.1 h y hy)⟩

/-- What a relation ends from is not related to itself. -/
theorem not_rel_of_acc {α : Type} {r : α → α → Prop} {a : α} (h : Acc r a) : ¬r a a := by
  induction h with
  | intro a _ ih => exact fun ha => ih a ha ha

/-- Where showing a value ends, no ring is met. -/
theorem not_meetsRing_of_acc (h : Acc (flip m.Shows) (path, v)) : ¬m.MeetsRing path v := by
  rintro ⟨y, hreach, hring⟩
  have hacc : Acc (flip m.Shows) y := by
    clear hring
    induction hreach with
    | refl => exact h
    | tail _ hstep ih => exact ih.inv hstep
  exact not_rel_of_acc hacc.transGen (Relation.transGen_swap.1 (hring.shows y.1))

theorem not_meetsRing_of_shows {y : List ObjectId × Value} (h : ¬m.MeetsRing path v)
    (hy : m.Shows (path, v) y) : ¬m.MeetsRing y.1 y.2 :=
  fun ⟨z, hz, hring⟩ => h ⟨z, .head hy hz, hring⟩

theorem not_onRing_of_not_meetsRing (h : ¬m.MeetsRing path v) : ¬m.OnRing v := fun hv => h ⟨_, .refl, hv⟩

/-! ## The bound -/

/-- How many properties there are. -/
def propertyCount (m : Memory) : Nat := (m.objects.toList.map List.length).sum

theorem renderBound_eq (m : Memory) : m.renderBound = (m.objects.size + 1) * (m.propertyCount + 3) := by
  have hfold : ∀ (ps : List (Entries Value)) (n : Nat),
      ps.foldl (fun n ps => n + ps.length) n = n + (ps.map List.length).sum := by
    intro ps
    induction ps with
    | nil => simp
    | cons p ps ih =>
      intro n
      rw [List.foldl_cons, ih, List.map_cons, List.sum_cons, Nat.add_assoc]
  rw [renderBound, ← Array.foldl_toList, hfold, Nat.zero_add, propertyCount]

/-- What references can name: nothing, and the values of properties. -/
def nameable (m : Memory) : List Value := .undefined :: m.objects.toList.flatMap (·.map Prod.snd)

theorem length_nameable (m : Memory) : m.nameable.length = m.propertyCount + 1 := by
  simp [nameable, propertyCount, List.length_flatMap]

theorem mem_objects_of_mem_properties {o : ObjectId} {key : String} (h : (key, v) ∈ m.properties o) :
    o.index < m.objects.size ∧ m.properties o ∈ m.objects.toList := by
  unfold properties at h ⊢
  by_cases ho : o.index < m.objects.size
  · simp [Array.getD, ho]
  · simp [Array.getD, ho] at h

theorem Leads.mem_nameable (h : m.Leads v w) : w ∈ m.nameable := by
  obtain ⟨r, rfl, hr⟩ := h
  obtain ⟨o, -, hw⟩ := exists_of_bind_eq_ok hr
  obtain rfl : (m.property? o r.key).getD .undefined = w := Except.ok.inj hw
  cases hvalue : m.property? o r.key with
  | none => exact List.mem_cons_self
  | some u =>
    have hmem := Entries.mem_of_get? hvalue
    refine List.mem_cons_of_mem _ (List.mem_flatMap.2 ⟨_, (mem_objects_of_mem_properties hmem).2, ?_⟩)
    exact List.mem_map.2 ⟨_, hmem, rfl⟩

/-- Some values, each of which leads to `v`, and no two of which are the same. -/
structure Trail (m : Memory) (vs : List Value) (v : Value) : Prop where
  nodup : vs.Nodup
  nameable : vs ⊆ m.nameable
  leads : ∀ u ∈ vs, Relation.ReflTransGen m.Leads u v

/-- Where no ring is met, each value on the way is new. -/
theorem Trail.cons {vs : List Value} (h : m.Trail vs v) (hvw : m.Leads v w) (hring : ¬m.OnRing w) :
    m.Trail (w :: vs) w where
  nodup := List.nodup_cons.2 ⟨fun hw => hring (Relation.TransGen.tail' (h.leads w hw) hvw), h.nodup⟩
  nameable := List.cons_subset.2 ⟨hvw.mem_nameable, h.nameable⟩
  leads := List.forall_mem_cons.2 ⟨.refl, fun u hu => (h.leads u hu).tail hvw⟩

theorem Trail.length_le {vs : List Value} (h : m.Trail vs v) : vs.length ≤ m.propertyCount + 1 := by
  rw [← length_nameable]
  exact (h.nodup.subperm h.nameable).length_le

/-- Objects that are inside each other: each has been made, and none comes twice. -/
structure IsPath (m : Memory) (path : List ObjectId) : Prop where
  nodup : path.Nodup
  inside : ∀ o ∈ path, o.index < m.objects.size

theorem IsPath.length_le (h : m.IsPath path) : path.length ≤ m.objects.size := by
  have hnodup : (path.map ObjectId.index).Nodup := h.nodup.map fun ⟨_⟩ ⟨_⟩ h => congrArg ObjectId.mk h
  have hsub : path.map ObjectId.index ⊆ List.range m.objects.size := by
    intro n hn
    obtain ⟨o, ho, rfl⟩ := List.mem_map.1 hn
    exact List.mem_range.2 (h.inside o ho)
  simpa using (hnodup.subperm hsub).length_le

theorem IsPath.cons {o : ObjectId} {key : String} (h : m.IsPath path) (ho : o ∉ path)
    (hw : (key, w) ∈ m.properties o) : m.IsPath (o :: path) where
  nodup := List.nodup_cons.2 ⟨ho, h.nodup⟩
  inside := List.forall_mem_cons.2 ⟨(mem_objects_of_mem_properties hw).1, h.inside⟩

/-- Inside one object, a text is found when one is for all properties of another one: `steps` references can still be
followed before a value would come twice. -/
theorem isSome_renderIn_along {vs : List Value} {steps : Nat} (htrail : m.Trail vs v)
    (hsteps : steps + vs.length = m.propertyCount + 2) (h : ¬m.MeetsRing path v)
    (hinner : ∀ o key w, o ∉ path → (key, w) ∈ m.properties o → ¬m.MeetsRing (o :: path) w →
      (m.renderIn bound (o :: path) quoted w).isSome) :
    (m.renderIn (bound + steps + 1) path quoted v).isSome := by
  induction steps generalizing v vs with
  | zero =>
    have := htrail.length_le
    omega
  | succ steps ih =>
    refine isSome_renderIn_succ.2 fun y hy => ?_
    have hrest := not_meetsRing_of_shows h hy
    cases hy with
    | reference hr =>
      have hnext := htrail.cons ⟨_, rfl, hr⟩ (not_onRing_of_not_meetsRing hrest)
      exact ih hnext (by rw [List.length_cons]; omega) hrest
    | property ho hw => exact isSome_renderIn_le (Nat.le_add_right ..) (hinner _ _ _ ho hw hrest)

/-- Off all rings a text is found: there are no more objects inside each other than objects, and in each no more steps
from reference to reference than values to name. -/
theorem isSome_renderIn_of_not_meetsRing {depth : Nat} (hpath : m.IsPath path)
    (hdepth : depth + path.length = m.objects.size + 1) (h : ¬m.MeetsRing path v) :
    (m.renderIn (depth * (m.propertyCount + 3)) path quoted v).isSome := by
  induction depth generalizing path v with
  | zero =>
    have := hpath.length_le
    omega
  | succ depth ih =>
    have htrail : m.Trail [] v := ⟨.nil, List.nil_subset _, nofun⟩
    have halong : (m.renderIn (depth * (m.propertyCount + 3) + (m.propertyCount + 2) + 1) path quoted v).isSome :=
      isSome_renderIn_along htrail rfl h fun o key w ho hw hrest =>
        ih (hpath.cons ho hw) (by rw [List.length_cons]; omega) hrest
    rw [Nat.add_mul, Nat.one_mul]
    exact halong

/-- **Texts end off rings.** Showing a value comes to an end exactly when it meets no ring of references. Then the value
has a text, whatever objects hold themselves or each other; and no bound gives another text, or gives one where there
is none. -/
theorem text_iff_no_ring (m : Memory) (v : Value) :
    (Acc (flip m.Shows) ([], v) ↔ ¬m.MeetsRing [] v) ∧ ((m.render? v).isSome ↔ ¬m.MeetsRing [] v) ∧
      ∀ bound, m.renderIn bound [] false v = none ∨ m.renderIn bound [] false v = m.render? v := by
  have hfound : ¬m.MeetsRing [] v → (m.render? v).isSome := fun h => by
    rw [render?, renderBound_eq]
    exact isSome_renderIn_of_not_meetsRing ⟨.nil, nofun⟩ rfl h
  refine ⟨⟨not_meetsRing_of_acc, fun h => acc_of_isSome (hfound h)⟩,
    ⟨fun h => not_meetsRing_of_acc (acc_of_isSome h), hfound⟩, fun bound => ?_⟩
  cases htext : m.renderIn bound [] false v with
  | none => exact .inl rfl
  | some text =>
    obtain ⟨text', htext'⟩ : ∃ text', m.render? v = some text' :=
      Option.isSome_iff_exists.1 (hfound (not_meetsRing_of_acc (acc_of_isSome (Option.isSome_of_eq_some htext))))
    have hmax := renderIn_le (Nat.le_max_left bound m.renderBound) htext
    have hmax' := renderIn_le (Nat.le_max_right bound m.renderBound) htext'
    exact .inr (htext'.trans (hmax'.symm.trans hmax)).symm

/-- An object whose property `a` is a reference to itself. -/
def selfNaming : Memory where
  objects := #[[("a", .reference ⟨⟨0⟩, "a", false⟩)]]
  held := [.object ⟨0⟩]

/-- An object that holds a reference to the reference is on a ring and has no text: following it never ends. -/
theorem no_text_of_selfNaming : selfNaming.MeetsRing [] (.object ⟨0⟩) ∧
    ∀ bound, selfNaming.renderIn bound [] false (.object ⟨0⟩) = none := by
  let r : Reference := ⟨⟨0⟩, "a", false⟩
  have halive : selfNaming.isAlive (.object ⟨0⟩) = true :=
    Supported.isAlive (K := {.object ⟨0⟩}) (by rintro _ rfl; exact ⟨Nat.one_pos, .inl (List.mem_singleton_self _)⟩) rfl
  have hread : selfNaming.read r = .ok (.reference r) := by
    rw [read, target, show r.object = ⟨0⟩ from rfl, halive, Bool.or_true]
    rfl
  have hmeets : selfNaming.MeetsRing [] (.object ⟨0⟩) :=
    ⟨_, .single (.property nofun (List.mem_singleton_self _)), .single ⟨r, rfl, hread⟩⟩
  refine ⟨hmeets, fun bound => ?_⟩
  cases htext : selfNaming.renderIn bound [] false (.object ⟨0⟩) with
  | none => rfl
  | some text => exact absurd hmeets (not_meetsRing_of_acc (acc_of_isSome (Option.isSome_of_eq_some htext)))

end Memory

end GameScript
