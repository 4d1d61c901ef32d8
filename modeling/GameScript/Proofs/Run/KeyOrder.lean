import GameScript.Proofs.Run.Defensive
import GameScript.Proofs.Run.Literals

/-!
# The order of keys

A run of a program leaves a trail, on which is what it comes by, in order (`Journal.Ends`). From a moment on the trail to
a later one the keys of an object stay where they are, and new ones come behind them; none is there twice; and a property
has the value that was written to it last. All that is needed of functions of the host is that they do nothing to
objects but to make them and to set properties (`Host.Accounts`), and only to what they can get at (`Host.Settled`).

Main statement: `keys_only_grow`.
-/

namespace GameScript

variable {σ : Type}

/-- What becomes of objects and of their keys on the trail of a program. -/
structure Program.OrdersKeys (account : Account) (host : Host σ) (limit : Nat) (scope : ScopeId) (p : Program)
    (m : Machine σ) (trail : List (Mark σ)) : Prop where
  ends : (p.plan scope m).journal.Ends account host limit trail (execute host limit scope p m).1
    (execute host limit scope p m).2
  /-- The trail leads by all tasks, and to the end. -/
  tasks : ∀ x, (p.plan scope m).Reaches host limit x → .moment x.machine ∈ trail
  last : .moment (execute host limit scope p m).2 ∈ trail
  /-- At no moment does an object have a key twice. -/
  nodup : ∀ n, .moment n ∈ trail → ∀ o, (n.memory.properties o).keys.Nodup
  /-- What there is at a moment is there at every later one, and its keys are the first of those that it has then. -/
  grows : ∀ (before between after : List (Mark σ)) (n n' : Machine σ),
    trail = before ++ .moment n :: (between ++ .moment n' :: after) → ∀ o,
    n.memory.HasObject o → n'.memory.HasObject o ∧ (n.memory.properties o).keys <+: (n'.memory.properties o).keys
  /-- At every moment a property has the value that was written to it last, or else the one that it had at the start. -/
  reads : ∀ (before after : List (Mark σ)) (n : Machine σ), trail = before ++ .moment n :: after → ∀ o key,
    n.memory.property? o key =
      (Entries.last? (Deed.allWrites o (trailDeeds before)) key).or (m.memory.property? o key)
  /-- An object literal does what assignments to a new object would do, wherever one is evaluated. -/
  literals : ∀ s span ps n, (p.plan scope m).Reaches host limit ⟨_, .operand s span (.object ps), n⟩ →
    YieldsInTurn host limit s span ps n

section Programs

variable {own : σ → List Value} {account : Account} {host : Host σ} {scope : ScopeId} {m : Machine σ}

/-- What a program does keeps to a settled territory. -/
theorem meets_settlement (p : Program) (hm : m.Settled own scope) :
    ∃ Q, (p.plan scope m).Meets (settlement own).contract Q := by
  obtain ⟨K, hregion, hmade, hscope⟩ := hm
  have hkeeps : (settlement own).Keeps ⟨m.memory, K⟩ (p.plan scope) (settlement own).stored :=
    Discipline.keeps_program hscope trivial
  exact ⟨_, hkeeps m (hregion.settled hmade)⟩

/-- The trail of a program is followed: all that becomes of objects is what is noted. -/
theorem followed_program (hhost : host.Settled own) (haccount : host.Accounts account) {limit : Nat} {p : Program}
    (hm : m.Settled own scope) {trail : List (Mark σ)} {r : Except RuntimeFault Value} {m' : Machine σ}
    (hends : (p.plan scope m).journal.Ends account host limit trail r m') :
    Followed m.memory.objects trail m'.memory.objects := by
  obtain ⟨Q, hmeets⟩ := meets_settlement p hm
  have hkept : (settlement own).contract.Kept host limit fun _ => True :=
    kept_settlement hhost limit fun _ => True
  have hplain : (p.plan scope : Plan σ Value).LeavesObjects := (restraint σ).program p
  have hcourse : (p.plan scope m).journal.course.Meets (settlement own).contract Q := by rwa [course_journal_self]
  refine (Journal.Tallies.followed hkept (fun task n hpre => ?_) hends ((hplain m).tallies hmeets) hcourse).1
  exact Discipline.tallies_journal hasObject_of_settled (host_settlement hhost) haccount hkept task n hpre

/-- Whatever a program does, and however it ends: the keys of an object at a moment are the first of those that it has
later, none of them twice, a property has the value that was written to it last, and object literals do what
assignments in turn would do. -/
theorem keys_only_grow (hhost : host.Settled own) (haccount : host.Accounts account) (limit : Nat) (p : Program)
    (hm : m.Settled own scope) (hkeys : ∀ o, (m.memory.properties o).keys.Nodup) :
    ∃ trail, p.OrdersKeys account host limit scope m trail := by
  obtain ⟨trail, hends⟩ := Journal.exists_ends account (finishes_execute host limit scope p m)
    (course_journal_self (p.plan scope m))
  have hfollowed := followed_program hhost haccount hm hends
  refine ⟨trail, hends, fun x hx => ?_, hends.mem_end, ?_, ?_, ?_, ?_⟩
  · refine hends.mem_of_reaches ?_
    rwa [course_journal_self]
  · intro n hn o
    obtain ⟨before, after, rfl⟩ := List.append_of_mem hn
    rw [hfollowed.performed_until.1.properties o]
    exact Entries.nodup_putAll (hkeys o) _
  · rintro before between after n n' rfl o ho
    have hperformed := hfollowed.performed_between
    refine ⟨Nat.lt_of_lt_of_le ho hperformed.size_le, ?_⟩
    rw [hperformed.properties o]
    exact Entries.keys_prefix_putAll _ _
  · rintro before after n rfl o key
    rw [Memory.property?, hfollowed.performed_until.1.properties o]
    exact Entries.get?_putAll _ _ key
  · intro s span ps n hn
    obtain ⟨Q, hmeets⟩ := meets_settlement p hm
    obtain ⟨w, hw, hs, -⟩ := ((hmeets.runs (kept_settlement hhost limit _)).2 _ hn).1
    exact yieldsInTurn_literal hhost ⟨w.region, hw.toRegion, hw.made, hs⟩

end Programs

/-- The deeds by which objects have become others, if there are any. -/
noncomputable def someDeeds : Account := fun h h' =>
  open Classical in if hds : ∃ ds, Performed h ds h' then hds.choose else []

theorem performed_someDeeds {h h' : Array (Entries Value)} {ds : List Deed} (hds : Performed h ds h') :
    Performed h (someDeeds h h') h' := by
  have hsome : ∃ ds, Performed h ds h' := ⟨ds, hds⟩
  rw [someDeeds, dif_pos hsome]
  exact hsome.choose_spec

theorem accounts_markingHost : markingHost.Accounts someDeeds := by
  intro n span args m s
  unfold markingHost
  dsimp only
  split
  · rename_i o
    by_cases ho : o.index < m.objects.size
    · exact performed_someDeeds (.set ho .done)
    · have hsame : (m.setProperty o "marked" (.bool true)).objects = m.objects := by
        ext i hi hi'
        · simp [Memory.setProperty]
        · have hne : o.index ≠ i := fun h => ho (h ▸ hi')
          simp [Memory.setProperty, Array.getElem_modify, hne]
      have hdone : Performed m.objects [] (m.setProperty o "marked" (.bool true)).objects := by
        rw [hsame]
        exact .done
      exact performed_someDeeds hdone
  · exact performed_someDeeds .done

theorem settled_markingHost : markingHost.Settled fun _ => [] := by
  intro n span args K m s hregion hmade hargs
  have hnothing : ∀ v, (.ok .undefined : Except RuntimeError Value) = .ok v → v.Inside K := by
    rintro v ⟨⟩ c ⟨⟩
  unfold markingHost
  dsimp only
  split
  · rename_i o
    have ho : .object o ∈ K := hargs (.object o) List.mem_cons_self _ rfl
    exact ⟨K, .setProperty ho, ⟨hregion.closed.setProperty (by rintro c ⟨⟩), nofun⟩,
      hmade.trans Memory.made_setProperty.ge, hnothing⟩
  · exact ⟨K, .refl m K, hregion, hmade, hnothing⟩

/-- The program of `let o = { b: 1, a: 2, b: 3 }; f(o);`, without places. -/
def fillingProgram : Program :=
  let name (x : String) : Expression := .leaf (.var ⟨x, .use, {}⟩) {}
  let number (n : Int64) : Expression := .leaf (.value (.int n)) {}
  let literal : Operand := .object [⟨"b", number 1⟩, ⟨"a", number 2⟩, ⟨"b", number 3⟩]
  ⟨⟨[⟨.binary (.var ⟨"o", .declare, {}⟩) ⟨.assign, {}⟩ literal {}, {}⟩, ⟨.leaf (.call (name "f") [name "o"]) {}, {}⟩], {}⟩⟩

/-- A function of the host puts its property behind those of the literal. -/
theorem keys_only_grow_filling :
    ((execute markingHost 5 ⟨0⟩ fillingProgram idleMachine).2.memory.properties ⟨0⟩).keys = ["b", "a", "marked"] ∧
      ∃ trail, fillingProgram.OrdersKeys someDeeds markingHost 5 ⟨0⟩ idleMachine trail := by
  have hmachine : idleMachine.Settled (fun _ => []) ⟨0⟩ :=
    ⟨{.scope ⟨0⟩}, ⟨closed_idleMachine, nofun⟩, Set.singleton_subset_iff.2 Nat.one_pos, rfl⟩
  exact ⟨by decide +kernel, keys_only_grow settled_markingHost accounts_markingHost 5 fillingProgram hmachine fun _ => .nil⟩

end GameScript
