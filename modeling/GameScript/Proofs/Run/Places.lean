import GameScript.Proofs.Run.Course
import GameScript.Proofs.Run.Lifetimes
import GameScript.Proofs.Tree.Printer
import GameScript.Run.Frame

/-!
# Memory without places

Closures keep their bodies, and bodies keep the places of the script that they come from. Two memories are `Alike` when
they differ in such places alone. No operation on memory sees them: what is looked up, read or found to be alive is the
same in both (`isAlive_eraseSpans`, `resolve_eraseSpans` and their sisters), and what is changed in the same way stays
alike (`write_eraseSpans`, `newFunctionScope_eraseSpans`).
-/

namespace GameScript

/-- A closure without places. -/
def Closure.eraseSpans (f : Closure) : Closure := { f with body := f.body.eraseSpans }

namespace Memory

/-- Memory without places. -/
def eraseSpans (m : Memory) : Memory := { m with closures := m.closures.map Closure.eraseSpans }

/-- Memories that differ in places alone. -/
def Alike (m n : Memory) : Prop := m.eraseSpans = n.eraseSpans

variable {m n : Memory} {s : ScopeId} {name : String} {v : Value} {r : Reference}

theorem Alike.eq (h : m.Alike n) : m.eraseSpans = n.eraseSpans := h

theorem Alike.refl (m : Memory) : m.Alike m := rfl

theorem Alike.symm (h : m.Alike n) : n.Alike m := Eq.symm h

theorem Alike.trans {k : Memory} (h : m.Alike n) (h' : n.Alike k) : m.Alike k := Eq.trans h h'

theorem Alike.held (h : m.Alike n) : m.held = n.held := (congrArg Memory.held h.eq :)

/-- What is the same without places is the same in memories that are alike. -/
theorem Alike.congr {α : Type} {f : Memory → α} (hf : ∀ m : Memory, f m.eraseSpans = f m) (h : m.Alike n) :
    f m = f n := by
  rw [← hf m, h.eq, hf]

theorem Alike.withHeld (h : m.Alike n) (held : List Cell) :
    Alike { m with held := held } { n with held := held } :=
  (congrArg (fun k : Memory => { k with held := held }) h.eq :)

theorem Alike.holding (h : m.Alike n) (cells : List Cell) : (m.holding cells).Alike (n.holding cells) :=
  show m.eraseSpans.holding cells = n.eraseSpans.holding cells by rw [h.eq]

/-! ## What is seen -/

theorem closure_eraseSpans (c : ClosureId) : m.eraseSpans.closure c = (m.closure c).eraseSpans := by
  simp only [closure, eraseSpans, Array.getD_eq_getD_getElem?, Array.getElem?_map]
  cases m.closures[c.index]? <;> rfl

theorem holds_eraseSpans : m.eraseSpans.holds = m.holds := by
  funext c
  cases c with
  | closure f =>
    simp only [holds, closure_eraseSpans]
    rfl
  | _ => rfl

theorem isAlive_eraseSpans (c : Cell) : m.eraseSpans.isAlive c = m.isAlive c :=
  congrFun (isAlive_congr holds_eraseSpans rfl (by simp [cells, eraseSpans])) c

theorem chain_eraseSpans : m.eraseSpans.chain s = m.chain s :=
  chainUpTo_congr (m := m) (n := m.eraseSpans) (fun _ => rfl) _ s

theorem lookup_eraseSpans : m.eraseSpans.lookup s name = m.lookup s name := by
  rw [lookup, chain_eraseSpans, lookup]
  rfl

theorem binder?_eraseSpans : m.eraseSpans.binder? s name = m.binder? s name := by
  rw [binder?, chain_eraseSpans, binder?]
  rfl

theorem target_eraseSpans : m.eraseSpans.target r = m.target r := by rw [target, isAlive_eraseSpans, target]

theorem read_eraseSpans : m.eraseSpans.read r = m.read r := by
  rw [read, target_eraseSpans, read]
  rfl

theorem resolve_eraseSpans : m.eraseSpans.resolve v = m.resolve v := by
  cases v with
  | reference r => exact read_eraseSpans
  | _ => rfl

theorem targetRead_eraseSpans (t : Target) : t.read m.eraseSpans s = t.read m s := by
  cases t with
  | declare name => rfl
  | existing name =>
    rw [Target.read, Target.read, lookup_eraseSpans, show m.eraseSpans.resolve = m.resolve from
      funext fun _ => resolve_eraseSpans]
  | property r => exact read_eraseSpans

theorem Alike.targetRead (h : m.Alike n) (t : Target) : t.read m s = t.read n s :=
  h.congr (f := (t.read · s)) fun _ => targetRead_eraseSpans t

theorem Alike.closure (h : m.Alike n) (c : ClosureId) : (m.closure c).eraseSpans = (n.closure c).eraseSpans := by
  rw [← closure_eraseSpans, ← closure_eraseSpans, h.eq]

/-! ## What is changed -/

theorem Alike.setProperty (h : m.Alike n) (o : ObjectId) (key : String) (v : Value) :
    (m.setProperty o key v).Alike (n.setProperty o key v) :=
  show m.eraseSpans.setProperty o key v = n.eraseSpans.setProperty o key v by rw [h.eq]

theorem Alike.newObject (h : m.Alike n) (es : Entries Value) :
    (m.newObject es).1 = (n.newObject es).1 ∧ (m.newObject es).2.Alike (n.newObject es).2 :=
  have he : m.eraseSpans.newObject es = n.eraseSpans.newObject es := by rw [h.eq]
  ⟨(congrArg Prod.fst he :), (congrArg Prod.snd he :)⟩

theorem Alike.newScope (h : m.Alike n) (parent : Option ScopeId) :
    (m.newScope parent).1 = (n.newScope parent).1 ∧ (m.newScope parent).2.Alike (n.newScope parent).2 :=
  have he : m.eraseSpans.newScope parent = n.eraseSpans.newScope parent := by rw [h.eq]
  ⟨(congrArg Prod.fst he :), (congrArg Prod.snd he :)⟩

theorem Alike.newClosure (h : m.Alike n) {f g : Closure} (hfg : f.eraseSpans = g.eraseSpans) :
    (m.newClosure f).1 = (n.newClosure g).1 ∧ (m.newClosure f).2.Alike (n.newClosure g).2 := by
  have hsize : m.closures.size = n.closures.size := by
    simpa [eraseSpans] using congrArg (fun k : Memory => k.closures.size) h.eq
  have hpush (k : Memory) (f : Closure) :
      (k.newClosure f).2.eraseSpans = (k.eraseSpans.newClosure f.eraseSpans).2 := by
    simp [Memory.newClosure, eraseSpans]
  refine ⟨congrArg ClosureId.mk hsize, ?_⟩
  show (m.newClosure f).2.eraseSpans = (n.newClosure g).2.eraseSpans
  rw [hpush, hpush, hfg, h.eq]

theorem declare_eraseSpans :
    (m.declare s name v).map eraseSpans = m.eraseSpans.declare s name v := by
  have hlocal : m.eraseSpans.hasLocal s name = m.hasLocal s name := rfl
  unfold declare
  rw [hlocal]
  split <;> rfl

theorem update_eraseSpans : (m.update s name v).map eraseSpans = m.eraseSpans.update s name v := by
  unfold update
  rw [binder?_eraseSpans]
  split <;> rfl

theorem write_eraseSpans : (m.write r v).map eraseSpans = m.eraseSpans.write r v := by
  unfold write
  rw [target_eraseSpans]
  cases m.target r <;> rfl

theorem targetWrite_eraseSpans (t : Target) : (t.write v s m).map eraseSpans = t.write v s m.eraseSpans := by
  cases t with
  | declare name => exact declare_eraseSpans
  | existing name => exact update_eraseSpans
  | property r => exact write_eraseSpans

end Memory

end GameScript
