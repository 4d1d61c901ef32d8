import GameScript.Proofs.Run.Rings

/-!
# The text of a value is its unfolding

What is shown of a value is a `Picture`: a piece of text, an object inside itself, or an object with a picture for each
of its entries. `Memory.Unfolds` says which picture a value has inside the objects of a path; it knows no bound, and
nothing of what has been shown elsewhere. Keys lead from the root of a picture to its parts (`Picture.at?`), as they lead
from a value through objects to others (`Memory.Passes`), and the part at the end of a way is the picture of the value
there (`Unfolds.at_passes`): so it depends on the objects of the way alone whether an object is cut short.

Where no property holds a reference, no ring of references can be entered, and every value has a picture and a text.

Main statement: `text_is_unfolding`.
-/

namespace GameScript

/-- What is shown of a value. -/
inductive Picture
  | piece (text : String)
  | again
  | object (entries : List (String × Picture))

namespace Picture

mutual

/-- The text of a picture. -/
def text : Picture → String
  | piece t => t
  | again => "\x7b...\x7d"
  | object [] => "\x7b\x7d"
  | object (e :: es) => "\x7b " ++ ", ".intercalate (texts (e :: es)) ++ " \x7d"

/-- The texts of entries. -/
def texts : Entries Picture → List String
  | [] => []
  | (key, p) :: es => (key ++ ": " ++ p.text) :: texts es

end

/-- The part of a picture to which keys lead. -/
def at? : Picture → List String → Option Picture
  | p, [] => some p
  | object es, key :: keys => (Entries.get? es key).bind (at? · keys)
  | _, _ :: _ => none

theorem at?_append (p : Picture) (keys : List String) (key : String) :
    p.at? (keys ++ [key]) = (p.at? keys).bind (at? · [key]) := by
  induction keys generalizing p with
  | nil => rfl
  | cons k keys ih =>
    cases p with
    | object es =>
      simp only [List.cons_append, at?]
      cases Entries.get? es k with
      | none => rfl
      | some q => exact ih q
    | piece t => rfl
    | again => rfl

theorem at?_object (es : Entries Picture) (key : String) : (object es).at? [key] = Entries.get? es key := by
  simp only [at?]
  cases Entries.get? es key <;> rfl

end Picture

namespace Memory

mutual

/-- A value has a picture inside the objects of a path. A string at the top is raw, inside objects it is in quotes; a
reference is shown as what it names; an object of the path is shown as being there again, and every other one with all
its entries in order. -/
inductive Unfolds (m : Memory) : List ObjectId → Value → Picture → Prop
  | undefined {path : List ObjectId} : Unfolds m path .undefined (.piece "undefined")
  | bool {path : List ObjectId} {b : Bool} : Unfolds m path (.bool b) (.piece (if b then "true" else "false"))
  | int {path : List ObjectId} {n : Int64} : Unfolds m path (.int n) (.piece (toString n.toInt))
  | float {path : List ObjectId} {x : Float} : Unfolds m path (.float x) (.piece (scriptFloat.write x))
  | raw {s : String} : Unfolds m [] (.string s) (.piece s)
  | quoted {o : ObjectId} {path : List ObjectId} {s : String} :
      Unfolds m (o :: path) (.string s) (.piece (Text.quote s))
  | again {path : List ObjectId} {o : ObjectId} (h : o ∈ path) : Unfolds m path (.object o) .again
  | object {path : List ObjectId} {o : ObjectId} {es : Entries Picture} (h : o ∉ path)
      (hes : UnfoldsAll m (o :: path) (m.properties o) es) : Unfolds m path (.object o) (.object es)
  | named {path : List ObjectId} {r : Reference} {v : Value} {p : Picture} (h : m.read r = .ok v)
      (hp : Unfolds m path v p) : Unfolds m path (.reference r) p
  | dangling {path : List ObjectId} {r : Reference} {e : RuntimeError} (h : m.read r = .error e) :
      Unfolds m path (.reference r) (.piece ("[dangling ." ++ r.key ++ "]"))
  | closure {path : List ObjectId} {c : ClosureId} : Unfolds m path (.closure c) (.piece "[function]")
  | native {path : List ObjectId} {n : NativeId} : Unfolds m path (.native n) (.piece "[native]")

/-- Entries have pictures inside the objects of a path: the same keys in the same order, each with the picture of its
value. -/
inductive UnfoldsAll (m : Memory) : List ObjectId → Entries Value → Entries Picture → Prop
  | nil {path : List ObjectId} : UnfoldsAll m path [] []
  | cons {path : List ObjectId} {key : String} {v : Value} {p : Picture} {vs : Entries Value} {ps : Entries Picture}
      (h : Unfolds m path v p) (hrest : UnfoldsAll m path vs ps) : UnfoldsAll m path ((key, v) :: vs) ((key, p) :: ps)

end

/-- Keys lead from a value through the objects of a path, the innermost first, to a value. -/
inductive Passes (m : Memory) (root : Value) : List String → List ObjectId → Value → Prop
  | root {v : Value} (h : m.resolve root = .ok v) : Passes m root [] [] v
  | property {keys : List String} {path : List ObjectId} {o : ObjectId} {key : String} {v : Value}
      (h : Passes m root keys path (.object o)) (hv : m.property? o key = some v) :
      Passes m root (keys ++ [key]) (o :: path) v

variable {m : Memory}

/-! ## Pictures -/

mutual

/-- A value has one picture. -/
theorem Unfolds.unique {path : List ObjectId} {v : Value} {p q : Picture} :
    m.Unfolds path v p → m.Unfolds path v q → p = q
  | .object ho hes, .object _ hes' => congrArg Picture.object (hes.unique hes')
  | .object ho _, .again ho' | .again ho', .object ho _ => absurd ho' ho
  | .named hr hp, .named hr' hp' => by
    obtain rfl := Except.ok.inj (hr.symm.trans hr')
    exact hp.unique hp'
  | .named hr _, .dangling hr' | .dangling hr', .named hr _ => by cases hr.symm.trans hr'
  | .undefined, .undefined | .bool, .bool | .int, .int | .float, .float | .raw, .raw | .quoted, .quoted
  | .again _, .again _ | .dangling _, .dangling _ | .closure, .closure | .native, .native => rfl

theorem UnfoldsAll.unique {path : List ObjectId} {vs : Entries Value} {ps qs : Entries Picture} :
    m.UnfoldsAll path vs ps → m.UnfoldsAll path vs qs → ps = qs
  | .nil, .nil => rfl
  | .cons h hrest, .cons h' hrest' => by rw [h.unique h', hrest.unique hrest']

end

variable {path : List ObjectId} {v : Value} {p : Picture} {vs : Entries Value} {ps : Entries Picture}

theorem UnfoldsAll.keys (h : m.UnfoldsAll path vs ps) : Entries.keys ps = Entries.keys vs := by
  induction vs generalizing ps with
  | nil =>
    cases h
    rfl
  | cons _ _ ih =>
    cases h with
    | cons _ hrest => exact congrArg _ (ih hrest)

/-- The picture of the value of a key. -/
theorem UnfoldsAll.get {key : String} (h : m.UnfoldsAll path vs ps) (hv : vs.get? key = some v) :
    ∃ p, ps.get? key = some p ∧ m.Unfolds path v p := by
  induction vs generalizing ps with
  | nil => cases hv
  | cons e vs ih =>
    cases h with
    | cons h hrest =>
      rw [Entries.get?_cons] at hv ⊢
      split
      · rename_i hkey
        rw [if_pos hkey] at hv
        obtain rfl := Option.some.inj hv
        exact ⟨_, rfl, h⟩
      · rename_i hkey
        rw [if_neg hkey] at hv
        exact ih hrest hv

/-- The part at the end of a way on which no object comes twice is the picture of the value there, inside the objects of
the way. -/
theorem Unfolds.at_passes {root : Value} {keys : List String} (h : m.Unfolds [] root p)
    (hway : m.Passes root keys path v) (hnodup : path.Nodup) : ∃ q, p.at? keys = some q ∧ m.Unfolds path v q := by
  induction hway with
  | root hv =>
    refine ⟨p, rfl, ?_⟩
    cases h with
    | named hr hp =>
      obtain rfl := Except.ok.inj (hr.symm.trans hv)
      exact hp
    | dangling hr => cases hr.symm.trans hv
    | _ =>
      cases hv
      constructor <;> assumption
  | @property keys path o key v _ hv ih =>
    obtain ⟨hnew, hnodup⟩ := List.nodup_cons.1 hnodup
    obtain ⟨q, hq, hpicture⟩ := ih hnodup
    cases hpicture with
    | again ho => exact absurd ho hnew
    | object _ hes =>
      obtain ⟨q', hq', hpicture'⟩ := hes.get hv
      exact ⟨q', by rw [Picture.at?_append, hq, Option.bind_some, Picture.at?_object, hq'], hpicture'⟩

/-! ## Texts -/

/-- Entries whose values have pictures have pictures, and the texts of these. -/
theorem exists_unfoldsAll {bound : Nat} {parts : List String}
    (h : ∀ {v text}, m.renderIn bound path true v = some text → ∃ p, m.Unfolds path v p ∧ p.text = text)
    (hparts : (vs.mapM fun (key, value) => do return key ++ ": " ++ (← renderIn m bound path true value)) = some parts) :
    ∃ ps, m.UnfoldsAll path vs ps ∧ Picture.texts ps = parts := by
  induction vs generalizing parts with
  | nil =>
    cases hparts
    exact ⟨[], .nil, rfl⟩
  | cons e vs ih =>
    obtain ⟨key, w⟩ := e
    rw [List.mapM_cons] at hparts
    obtain ⟨part, hpart, hparts⟩ := Option.bind_eq_some_iff.1 hparts
    obtain ⟨shown, hshown, hkey⟩ := Option.bind_eq_some_iff.1 hpart
    obtain ⟨rest, hrest, hcons⟩ := Option.bind_eq_some_iff.1 hparts
    obtain ⟨p, hp, rfl⟩ := h hshown
    obtain ⟨ps, hps, rfl⟩ := ih hrest
    refine ⟨(key, p) :: ps, .cons hp hps, ?_⟩
    rw [Picture.texts]
    exact (congrArg (· :: _) (Option.some.inj hkey)).trans (Option.some.inj hcons)

/-- The text of a value is that of a picture which it has. -/
theorem exists_unfolds {bound : Nat} {text : String} (h : m.renderIn bound path (!path.isEmpty) v = some text) :
    ∃ p, m.Unfolds path v p ∧ p.text = text := by
  induction bound generalizing path v text with
  | zero => cases h
  | succ bound ih =>
    cases v with
    | undefined => exact ⟨_, .undefined, Option.some.inj h⟩
    | bool b => exact ⟨_, .bool, Option.some.inj h⟩
    | int n => exact ⟨_, .int, Option.some.inj h⟩
    | float x => exact ⟨_, .float, Option.some.inj h⟩
    | closure c => exact ⟨_, .closure, Option.some.inj h⟩
    | native n => exact ⟨_, .native, Option.some.inj h⟩
    | string s =>
      cases path with
      | nil => exact ⟨_, .raw, Option.some.inj h⟩
      | cons o path => exact ⟨_, .quoted, Option.some.inj h⟩
    | reference r =>
      simp only [renderIn] at h
      cases hr : m.read r with
      | ok w =>
        rw [hr] at h
        obtain ⟨p, hp, htext⟩ := ih h
        exact ⟨p, .named hr hp, htext⟩
      | error e =>
        rw [hr] at h
        exact ⟨_, .dangling hr, Option.some.inj h⟩
    | object o =>
      simp only [renderIn, List.contains_eq_mem, decide_eq_true_eq] at h
      by_cases ho : o ∈ path
      · rw [if_pos ho] at h
        exact ⟨.again, .again ho, Option.some.inj h⟩
      · rw [if_neg ho] at h
        cases hes : m.properties o with
        | nil =>
          rw [hes] at h
          exact ⟨.object [], .object ho (hes ▸ .nil), Option.some.inj h⟩
        | cons e es =>
          rw [hes] at h
          obtain ⟨parts, hparts, htext⟩ := Option.bind_eq_some_iff.1 h
          obtain ⟨ps, hps, rfl⟩ := exists_unfoldsAll ih hparts
          refine ⟨.object ps, .object ho (hes ▸ hps), ?_⟩
          cases hps
          exact Option.some.inj htext

/-- Where no property holds a reference, references do not lead on to references. -/
theorem not_meetsRing_of_properties (h : ∀ o, ∀ e ∈ m.properties o, e.2.type ≠ .reference) :
    ¬m.MeetsRing path v := by
  have hplain {v w : Value} (hvw : m.Leads v w) : w.type ≠ .reference := by
    obtain ⟨r, rfl, hr⟩ := hvw
    obtain ⟨o, -, hw⟩ := exists_of_bind_eq_ok hr
    obtain rfl : (m.property? o r.key).getD .undefined = w := Except.ok.inj hw
    cases hvalue : m.property? o r.key with
    | none => simp [Value.type]
    | some u => exact h o _ (Entries.mem_of_get? hvalue)
  rintro ⟨y, -, hring⟩
  obtain ⟨w, -, hlast⟩ := Relation.TransGen.tail'_iff.1 hring
  obtain ⟨u, ⟨r, hr, -⟩, -⟩ := Relation.TransGen.head'_iff.1 hring
  exact hplain hlast (by rw [hr]; rfl)

/-- **A text is an unfolding.** Where no property holds a reference, every value has a text, that of the one picture it
unfolds to. Wherever keys lead to an object, the picture is cut short there exactly if the object is on the way to it;
else it is shown with all its keys in order, however often it is shown elsewhere. -/
theorem text_is_unfolding (m : Memory) (v : Value) (h : ∀ o, ∀ e ∈ m.properties o, e.2.type ≠ .reference) :
    ∃ p, (∀ q, m.Unfolds [] v q ↔ q = p) ∧ m.render? v = some p.text ∧
      ∀ keys path o, m.Passes v keys path (.object o) → path.Nodup →
        (p.at? keys = some .again ↔ o ∈ path) ∧
        (o ∉ path → ∃ es, p.at? keys = some (.object es) ∧ Entries.keys es = (m.properties o).keys ∧
          ∀ key w, m.property? o key = some w → ∃ q, p.at? (keys ++ [key]) = some q ∧ m.Unfolds (o :: path) w q) := by
  have hsome : (m.render? v).isSome := by
    rw [render?, renderBound_eq]
    exact isSome_renderIn_of_not_meetsRing ⟨.nil, List.forall_mem_nil _⟩ rfl (not_meetsRing_of_properties h)
  obtain ⟨text, htext⟩ := Option.isSome_iff_exists.1 hsome
  obtain ⟨p, hp, rfl⟩ := exists_unfolds htext
  refine ⟨p, fun q => ⟨fun hq => hq.unique hp, fun hq => hq ▸ hp⟩, htext, fun keys path o hway hnodup => ?_⟩
  obtain ⟨q, hq, hpicture⟩ := hp.at_passes hway hnodup
  rw [hq]
  cases hpicture with
  | again ho => exact ⟨iff_of_true rfl ho, fun hno => absurd ho hno⟩
  | object ho hes =>
    refine ⟨iff_of_false (by simp) ho, fun _ => ⟨_, rfl, hes.keys, fun key w hw => ?_⟩⟩
    exact hp.at_passes (hway.property hw) (List.nodup_cons.2 ⟨ho, hnodup⟩)

/-- An object with another one twice, and with itself. -/
def sharing : Memory where
  objects := #[[("left", .object ⟨1⟩), ("right", .object ⟨1⟩), ("self", .object ⟨0⟩)], [("s", .string "hi")]]

/-- An object that is there twice is shown in full both times, and one inside itself is cut short. -/
theorem text_of_sharing :
    sharing.render? (.object ⟨0⟩) =
      some "\x7b left: \x7b s: \"hi\" \x7d, right: \x7b s: \"hi\" \x7d, self: \x7b...\x7d \x7d" ∧
    ∃ p, (∀ q, sharing.Unfolds [] (.object ⟨0⟩) q ↔ q = p) ∧ p.at? ["self"] = some .again ∧
      (∃ es, p.at? ["left"] = some (.object es) ∧ Entries.keys es = ["s"]) ∧
      ∃ es, p.at? ["right"] = some (.object es) ∧ Entries.keys es = ["s"] := by
  have hplain : ∀ o, ∀ e ∈ sharing.properties o, e.2.type ≠ .reference := by
    rintro ⟨_ | _ | n⟩ e he
    · revert e
      decide
    · revert e
      decide
    · cases he
  have hway (key : String) {o : ObjectId} (h : sharing.property? ⟨0⟩ key = some (.object o)) :
      sharing.Passes (.object ⟨0⟩) [key] [⟨0⟩] (.object o) := .property (.root rfl) h
  obtain ⟨p, hunique, -, hparts⟩ := text_is_unfolding sharing (.object ⟨0⟩) hplain
  have hnodup : [(⟨0⟩ : ObjectId)].Nodup := List.nodup_singleton _
  obtain ⟨left, hleft, hkeys, -⟩ := (hparts _ _ _ (hway "left" rfl) hnodup).2 (by decide)
  obtain ⟨right, hright, hkeys', -⟩ := (hparts _ _ _ (hway "right" rfl) hnodup).2 (by decide)
  refine ⟨by rfl, p, hunique, ?_, ⟨left, hleft, hkeys⟩, right, hright, hkeys'⟩
  exact (hparts _ _ _ (hway "self" rfl) hnodup).1.2 (List.mem_singleton_self _)

end Memory

end GameScript
