import Mathlib.Algebra.Order.BigOperators.Group.List
import Mathlib.Algebra.Order.Ring.Nat
import Urheilulaatikko.Lib.Trace

/-!
# Systems of parties that finish

Any number of parties take turns; an event belongs to the party `who e` that moves. If every step
lowers the rank of its own party and leaves the ranks of the others alone, then no party moves for
ever (`Ranked.count_add_rank_le`). If moreover in every state in which somebody is not done yet
somebody can move, then everybody can be brought to an end (`Ranked.exists_completion`), and a state
in which nobody can move is one in which everybody is done.
-/

namespace Trace

variable {σ ε ι : Type*} {step : σ → ε → Option σ}

/-- Every step lowers the rank of the party that moves, and no other rank changes. -/
structure Ranked (step : σ → ε → Option σ) (who : ε → ι) (rank : ι → σ → Nat) : Prop where
  lower : ∀ {s e s'}, step s e = some s' → rank (who e) s' < rank (who e) s
  other : ∀ {s e s' i}, step s e = some s' → i ≠ who e → rank i s' = rank i s

namespace Ranked

variable {who : ε → ι} {rank : ι → σ → Nat} [DecidableEq ι]

/-- A party moves at most as often as its rank allows. -/
theorem count_add_rank_le (h : Ranked step who rank) {s s' : σ} {es : List ε}
    (hrun : run step s es = some s') (i : ι) :
    es.countP (who · = i) + rank i s' ≤ rank i s := by
  induction es generalizing s with
  | nil =>
      cases hrun
      simp
  | cons e es ih =>
      obtain ⟨t, hstep, hrest⟩ := run_cons_eq_some.mp hrun
      have hle := ih hrest
      by_cases he : who e = i
      · have hlt := h.lower hstep
        rw [List.countP_cons_of_pos (by simpa using he)]
        rw [he] at hlt
        omega
      · have heq := h.other hstep (Ne.symm he)
        rw [List.countP_cons_of_neg (by simpa using he)]
        omega

/-- The ranks of the parties of a list, together. -/
def total (rank : ι → σ → Nat) (parties : List ι) (s : σ) : Nat :=
  (parties.map fun i => rank i s).sum

theorem total_lt (h : Ranked step who rank) {s s' : σ} {e : ε} (hstep : step s e = some s')
    {parties : List ι} (hmem : who e ∈ parties) :
    total rank parties s' < total rank parties s := by
  apply List.sum_lt_sum
  · intro i _
    by_cases hi : i = who e
    · rw [hi]
      exact Nat.le_of_lt (h.lower hstep)
    · exact Nat.le_of_eq (h.other hstep hi)
  · exact ⟨who e, hmem, h.lower hstep⟩

/-- **Everybody can be brought to an end**: as long as somebody is not done, somebody who is not
done can move, and finitely many such moves are left. -/
theorem exists_completion (h : Ranked step who rank) (Inv : σ → Prop) (done : ι → σ → Prop)
    (internal : ε → Prop) (hinv : ∀ {s e s'}, Inv s → step s e = some s' → Inv s')
    (hdone : ∀ {s e s' i}, step s e = some s' → i ≠ who e → (done i s' ↔ done i s))
    (hprogress : ∀ {s}, Inv s → (∃ i, ¬ done i s) →
      ∃ e s', internal e ∧ ¬ done (who e) s ∧ step s e = some s')
    {s : σ} (hs : Inv s) (parties : List ι) (hparties : ∀ i, ¬ done i s → i ∈ parties) :
    ∃ es s', (∀ e ∈ es, internal e) ∧ run step s es = some s' ∧ Inv s' ∧ ∀ i, done i s' := by
  induction hn : total rank parties s using Nat.strongRecOn generalizing s with
  | ind n ih =>
      by_cases hall : ∀ i, done i s
      · exact ⟨[], s, by simp, rfl, hs, hall⟩
      · obtain ⟨e, t, he, hnot, hstep⟩ := hprogress hs (not_forall.mp hall)
        have hmem := hparties _ hnot
        have hparties' : ∀ i, ¬ done i t → i ∈ parties := by
          intro i hi
          by_cases hie : i = who e
          · rw [hie]
            exact hmem
          · exact hparties i fun hold => hi ((hdone hstep hie).mpr hold)
        have hlt := h.total_lt hstep hmem
        rw [hn] at hlt
        obtain ⟨es, s', hes, hrun, hs', hfinished⟩ := ih _ hlt (hinv hs hstep) hparties' rfl
        refine ⟨e :: es, s', ?_, run_cons_eq_some.mpr ⟨t, hstep, hrun⟩, hs', hfinished⟩
        intro e' he'
        rcases List.mem_cons.mp he' with rfl | he'
        · exact he
        · exact hes e' he'

end Ranked

end Trace
