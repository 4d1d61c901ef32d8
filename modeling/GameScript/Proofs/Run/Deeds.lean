import GameScript.Run.Frame
import Mathlib.Data.List.Induction

/-!
# What is done to objects

Objects are made empty, and then their properties are set, one after another: nothing else is ever done to them
(`Deed`). What objects are like after some deeds follows from what they were like before: each has the entries that it
had, and those that were put into it (`Performed.entries`). So the keys of an object are never reordered and never go
away (`Entries.keys_prefix_putAll`), none is there twice (`Entries.nodup_putAll`), and a property has the value that was
written last (`Entries.get?_putAll`).
-/

namespace GameScript

namespace Entries

variable {α : Type}

/-- Gives names values, one after another. -/
def putAll (es : Entries α) (writes : List (String × α)) : Entries α := writes.foldl (fun es w => es.put w.1 w.2) es

/-- The value that a name is given last. -/
def last? (writes : List (String × α)) (key : String) : Option α := get? writes.reverse key

theorem putAll_append (es : Entries α) (ws ws' : List (String × α)) :
    es.putAll (ws ++ ws') = (es.putAll ws).putAll ws' := List.foldl_append

theorem keys_prefix_put (es : Entries α) (key : String) (value : α) : es.keys <+: (es.put key value).keys := by
  rw [keys_put]
  split
  · exact List.prefix_rfl
  · exact List.prefix_append _ _

/-- Writes leave the names where they are, and put new ones behind them. -/
theorem keys_prefix_putAll (es : Entries α) (ws : List (String × α)) : es.keys <+: (es.putAll ws).keys := by
  induction ws generalizing es with
  | nil => exact List.prefix_rfl
  | cons w ws ih => exact (keys_prefix_put es w.1 w.2).trans (ih _)

theorem nodup_putAll {es : Entries α} (h : es.keys.Nodup) (ws : List (String × α)) : (es.putAll ws).keys.Nodup := by
  induction ws generalizing es with
  | nil => exact h
  | cons w ws ih => exact ih (nodup_put h w.1 w.2)

/-- A name has the value that it is given last, or else the one that it had. -/
theorem get?_putAll (es : Entries α) (ws : List (String × α)) (key : String) :
    (es.putAll ws).get? key = (last? ws key).or (es.get? key) := by
  induction ws using List.reverseRecOn with
  | nil => rfl
  | append_singleton ws w ih =>
    rw [putAll_append, last?, List.reverse_append, List.reverse_singleton, List.singleton_append, get?_cons]
    show ((es.putAll ws).put w.1 w.2).get? key = _
    rw [get?_put, ih]
    split <;> rfl

/-- The names of what is written from the beginning are in the order in which they come first. -/
theorem keys_putAll_nil (ws : List (String × α)) : (putAll [] ws).keys = (ws.map Prod.fst).eraseDups := by
  induction ws using List.reverseRecOn with
  | nil => rfl
  | append_singleton ws w ih =>
    rw [putAll_append, List.map_append, List.eraseDups_append, ← ih]
    show ((putAll [] ws).put w.1 w.2).keys = _
    have hmem : w.1 ∈ (putAll [] ws).keys ↔ w.1 ∈ ws.map Prod.fst := by rw [ih, List.mem_eraseDups]
    rw [keys_put]
    by_cases h : w.1 ∈ ws.map Prod.fst
    · rw [if_pos (hmem.2 h)]
      simp [List.removeAll, h]
    · rw [if_neg fun h' => h (hmem.1 h')]
      simp [List.removeAll, h, List.eraseDups_cons]

end Entries

/-- What is done to objects: one is made, which is empty, or a property of one is set. -/
inductive Deed
  | made
  | set (o : ObjectId) (key : String) (value : Value)

namespace Deed

/-- What is put into an object by a deed. -/
def writes (o : ObjectId) : Deed → List (String × Value)
  | made => []
  | set p key value => if p = o then [(key, value)] else []

/-- What is put into an object by deeds, in order. -/
def allWrites (o : ObjectId) (ds : List Deed) : List (String × Value) := ds.flatMap (writes o)

end Deed

/-- Objects have become others by deeds, in order. A property is set only of what there is. -/
inductive Performed : Array (Entries Value) → List Deed → Array (Entries Value) → Prop
  | done {h : Array (Entries Value)} : Performed h [] h
  | made {h h' : Array (Entries Value)} {ds : List Deed} (hrest : Performed (h.push []) ds h') :
    Performed h (.made :: ds) h'
  | set {h h' : Array (Entries Value)} {ds : List Deed} {o : ObjectId} {key : String} {value : Value}
    (ho : o.index < h.size) (hrest : Performed (h.modify o.index (·.put key value)) ds h') :
    Performed h (.set o key value :: ds) h'

namespace Performed

variable {h h' h'' : Array (Entries Value)} {ds ds' : List Deed} {o : ObjectId} {key : String} {value : Value}

theorem trans (hds : Performed h ds h') (hds' : Performed h' ds' h'') : Performed h (ds ++ ds') h'' := by
  induction hds with
  | done => exact hds'
  | made _ ih => exact .made (ih hds')
  | set ho _ ih => exact .set ho (ih hds')

/-- What there is stays. -/
theorem size_le (hds : Performed h ds h') : h.size ≤ h'.size := by
  induction hds with
  | done => exact Nat.le_refl _
  | made _ ih => exact Nat.le_trans (Nat.le_succ _) (by simpa using ih)
  | set _ _ ih => simpa using ih

/-- Every object has what it had, and then what is put into it. What there is not yet is like something empty. -/
theorem entries (hds : Performed h ds h') (o : ObjectId) :
    h'.getD o.index [] = Entries.putAll (h.getD o.index []) (Deed.allWrites o ds) := by
  induction hds with
  | done => rfl
  | @made h _ _ _ ih =>
    have hsame : (h.push []).getD o.index [] = h.getD o.index [] := by
      simp only [Array.getD_eq_getD_getElem?, Array.getElem?_push]
      split
      · rename_i hi
        simp [hi]
      · rfl
    rw [ih, hsame]
    rfl
  | @set h _ ds p key value hp _ ih =>
    rw [ih]
    by_cases hpo : p = o
    · subst hpo
      have hput : (h.modify p.index (·.put key value)).getD p.index [] = (h.getD p.index []).put key value := by
        simp [Array.getD_eq_getD_getElem?, Array.getElem_modify, hp]
      have hwrites : Deed.allWrites p (.set p key value :: ds) = (key, value) :: Deed.allWrites p ds := by
        simp [Deed.allWrites, Deed.writes]
      rw [hput, hwrites]
      rfl
    · have hi : p.index ≠ o.index := fun he => hpo (congrArg ObjectId.mk he)
      have hsame : (h.modify p.index (·.put key value)).getD o.index [] = h.getD o.index [] := by
        simp [Array.getD_eq_getD_getElem?, Array.getElem?_modify, hi]
      have hwrites : Deed.allWrites o (.set p key value :: ds) = Deed.allWrites o ds := by
        simp [Deed.allWrites, Deed.writes, hpo]
      rw [hsame, hwrites]

/-- So it is in memory. -/
theorem properties {m m' : Memory} (hds : Performed m.objects ds m'.objects) (o : ObjectId) :
    m'.properties o = (m.properties o).putAll (Deed.allWrites o ds) := hds.entries o

end Performed

end GameScript
