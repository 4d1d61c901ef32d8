/-!
# Ordered entries

A map from names to values as a list of pairs, in the order in which the names were first written. The view of such a
list is `get?`.

Main statements: what is written is read back and nothing else changes (`get?_put`), writing keeps the order of the
names and puts a new one last (`keys_put`), and no name comes twice (`nodup_put`).
-/

namespace GameScript

/-- Names with values, in order. -/
abbrev Entries (α : Type) := List (String × α)

namespace Entries

variable {α : Type}

/-- The names, in order. -/
def keys (es : Entries α) : List String := es.map Prod.fst

/-- The value of a name. -/
def get? : Entries α → String → Option α
  | [], _ => none
  | (k, v) :: es, key => if key = k then some v else get? es key

/-- Whether a name has a value. -/
def has (es : Entries α) (key : String) : Bool := (es.get? key).isSome

/-- Gives a name a value; a new name goes to the end. -/
def put : Entries α → String → α → Entries α
  | [], key, value => [(key, value)]
  | (k, v) :: es, key, value => if k = key then (k, value) :: es else (k, v) :: put es key value

@[simp] theorem get?_nil (key : String) : get? ([] : Entries α) key = none := rfl

theorem get?_cons (k : String) (v : α) (es : Entries α) (key : String) :
    get? ((k, v) :: es) key = if key = k then some v else get? es key := rfl

theorem get?_put (es : Entries α) (key : String) (value : α) (other : String) :
    get? (put es key value) other = if other = key then some value else get? es other := by
  induction es with
  | nil => simp [put, get?_cons]
  | cons e es ih =>
    obtain ⟨k, v⟩ := e
    unfold put
    split
    · rename_i h
      subst h
      simp only [get?_cons]
      split <;> rfl
    · rename_i h
      simp only [get?_cons, ih]
      by_cases ho : other = k
      · subst ho; simp [h]
      · simp [ho]

theorem mem_of_get? {es : Entries α} {key : String} {value : α} (h : get? es key = some value) : (key, value) ∈ es := by
  induction es with
  | nil => cases h
  | cons e es ih =>
    obtain ⟨k, v⟩ := e
    rw [get?_cons] at h
    split at h
    · rename_i hk
      cases h
      exact hk ▸ List.mem_cons_self
    · exact List.mem_cons_of_mem _ (ih h)

theorem mem_of_mem_put {es : Entries α} {key : String} {value : α} {e : String × α} (h : e ∈ put es key value) :
    e ∈ es ∨ e = (key, value) := by
  induction es with
  | nil => exact .inr (List.mem_singleton.1 h)
  | cons f es ih =>
    obtain ⟨k, v⟩ := f
    unfold put at h
    split at h
    · rename_i hk
      rcases List.mem_cons.1 h with rfl | h
      · exact .inr (by rw [hk])
      · exact .inl (List.mem_cons_of_mem _ h)
    · rcases List.mem_cons.1 h with rfl | h
      · exact .inl List.mem_cons_self
      · exact (ih h).imp_left (List.mem_cons_of_mem _)

theorem get?_eq_none_iff {es : Entries α} {key : String} : get? es key = none ↔ key ∉ keys es := by
  induction es with
  | nil => simp [keys]
  | cons e es ih =>
    obtain ⟨k, v⟩ := e
    rw [get?_cons]
    by_cases h : key = k
    · simp [h, keys]
    · simpa [h, keys] using ih

theorem keys_put (es : Entries α) (key : String) (value : α) :
    keys (put es key value) = if key ∈ keys es then keys es else keys es ++ [key] := by
  induction es with
  | nil => simp [put, keys]
  | cons e es ih =>
    obtain ⟨k, v⟩ := e
    simp only [keys, List.map_cons] at ih ⊢
    unfold put
    by_cases h : k = key
    · simp [h]
    · have h' : key ≠ k := fun he => h he.symm
      simp only [h, if_false, List.map_cons, ih, List.mem_cons, h', false_or]
      split <;> rename_i hk <;> simp [hk]

theorem nodup_put {es : Entries α} (h : (keys es).Nodup) (key : String) (value : α) :
    (keys (put es key value)).Nodup := by
  rw [keys_put]
  split
  · exact h
  · rename_i hk
    exact List.nodup_append.2 ⟨h, by simp, fun a ha b hb => by
      simp only [List.mem_singleton] at hb
      subst hb
      exact fun he => hk (he ▸ ha)⟩

end Entries

end GameScript
