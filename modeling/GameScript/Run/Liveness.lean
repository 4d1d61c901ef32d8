import GameScript.Run.Memory
import Std.Data.HashSet

/-!
# What is alive

A cell lives as long as it is held from outside or by a cell that lives. Holders are counted, not traced: cells that
hold each other in a ring stay alive even when nothing else holds them. So the living cells are the largest set each of
whose members is held from outside or by a member (`survivors`), and a cell dies exactly when following its holders
back always comes to an end, and never at the outside.

`isAlive` first looks for the cell among those that are reached from outside (`reach`), which is the common case, and
only then works out the survivors.
-/

namespace GameScript

namespace Memory

/-- The cells of a list that are not yet seen, each once, put before those to visit; also the cells seen then. -/
def discover : List Cell → Std.HashSet Cell → List Cell → List Cell × Std.HashSet Cell
  | [], seen, work => (work, seen)
  | c :: cs, seen, work => if seen.contains c then discover cs seen work else discover cs (seen.insert c) (c :: work)

/-- Visits cells and discovers what they hold, until `target` is seen, nothing is left to visit, or `bound` cells have
been visited; the result is what has been seen. -/
def explore (m : Memory) (target : Option Cell) : (bound : Nat) → List Cell → Std.HashSet Cell → Std.HashSet Cell
  | 0, _, seen => seen
  | _ + 1, [], seen => seen
  | bound + 1, c :: work, seen =>
    if target.any seen.contains then seen
    else
      let (work, seen) := discover (m.holds c) seen work
      explore m target bound work seen

/-- The cells that are reached from some, by way of what each holds. The search may stop at `target`. -/
def reach (m : Memory) (target : Option Cell) (start : List Cell) : Std.HashSet Cell :=
  let (work, seen) := discover start ∅ []
  m.explore target (m.cellCount + work.length) work.reverse seen

/-- The members of a list that are held from outside or by a member. -/
def retain (m : Memory) (cs : List Cell) : List Cell :=
  let holders := Std.HashSet.ofList (m.held ++ cs.flatMap m.holds)
  cs.filter holders.contains

/-- Retains again and again, until nothing is shed. -/
def settle (m : Memory) : (bound : Nat) → List Cell → List Cell
  | 0, cs => cs
  | bound + 1, cs =>
    let kept := m.retain cs
    if kept.length = cs.length then cs else settle m bound kept

/-- The cells that are alive. -/
def survivors (m : Memory) : List Cell := m.settle m.cellCount m.cells

/-- Whether a cell is alive. -/
def isAlive (m : Memory) (c : Cell) : Bool := (m.reach (some c) m.held).contains c || m.survivors.contains c

/-! ## References -/

/-- The object of a reference, if it is alive. -/
def target (m : Memory) (r : Reference) : Except RuntimeError ObjectId :=
  if r.anchored || m.isAlive (.object r.object) then .ok r.object else .error (.danglingReference r.key)

/-- What a reference names now; a property that is not there is undefined. -/
def read (m : Memory) (r : Reference) : Except RuntimeError Value := do
  let o ← m.target r
  return (m.property? o r.key).getD .undefined

/-- Writes to what a reference names. -/
def write (m : Memory) (r : Reference) (value : Value) : Except RuntimeError Memory := do
  let o ← m.target r
  return m.setProperty o r.key value

/-- What a value stands for: of a reference what it names, else itself. -/
def resolve (m : Memory) : Value → Except RuntimeError Value
  | .reference r => m.read r
  | v => .ok v

end Memory

end GameScript
