import Mathlib.Logic.Function.Basic
import Urheilulaatikko.Lib.Trace

/-!
# Forward simulations

A system is simulated by another one if each of its steps is matched by a step of the other, or by
none: `event s e` is what the step `e` taken in `s` means to the other system. A run is then matched
by the run of its events, and whatever is known of the runs of the other system is known of it.

* `Simulation` — the relation between the states, kept by every step.
* `Simulation.run_eq_some` — the same for whole runs.
* `rel_update` — for systems of many parties: a relation between the parties survives a step of one.
* `observe_eq_append_cons`, `mem_observe` — where the events of the matching run come from.
-/

namespace Trace

variable {σ ε σ' ε' β : Type*} {step : σ → ε → Option σ} {step' : σ' → ε' → Option σ'}

/-- Every step of `step` is a step of `step'` or nothing to it. -/
structure Simulation (step : σ → ε → Option σ) (step' : σ' → ε' → Option σ') where
  rel   : σ → σ' → Prop
  event : σ → ε → Option ε'
  next  : ∀ {s t e s'}, rel s t → step s e = some s' →
    ∃ t', run step' t (event s e).toList = some t' ∧ rel s' t'

theorem run_singleton (s : σ) (e : ε) : run step s [e] = step s e := by
  rw [run_cons]
  cases step s e <;> rfl

/-- A run is matched by the run of its events. -/
theorem Simulation.run_eq_some (sim : Simulation step step') {s s' : σ} {t : σ'} {es : List ε}
    (hrel : sim.rel s t) (hrun : run step s es = some s') :
    ∃ t', run step' t (observe step sim.event s es) = some t' ∧ sim.rel s' t' := by
  induction es generalizing s t with
  | nil =>
      cases hrun
      exact ⟨t, rfl, hrel⟩
  | cons e es ih =>
      obtain ⟨u, hstep, hrest⟩ := run_cons_eq_some.mp hrun
      obtain ⟨v, hv, huv⟩ := sim.next hrel hstep
      obtain ⟨t', ht', hrel'⟩ := ih huv hrest
      refine ⟨t', ?_, hrel'⟩
      rw [observe, hstep, Option.map_some, Option.getD_some, run_append_eq_some]
      exact ⟨v, hv, ht'⟩

/-- Related parties are still related after one of each side has moved. -/
theorem rel_update {ι : Type*} [DecidableEq ι] {R : ι → σ → σ' → Prop} {f : ι → σ} {g : ι → σ'}
    (h : ∀ i, R i (f i) (g i)) {i : ι} {x : σ} {y : σ'} (hi : R i x y) (j : ι) :
    R j (Function.update f i x j) (Function.update g i y j) := by
  by_cases hj : j = i
  · subst hj
    rwa [Function.update_self, Function.update_self]
  · rw [Function.update_of_ne hj, Function.update_of_ne hj]
    exact h j

/-! ## What an observer of a run has seen

How observations split where a run is cut in two, and that each of them was made at some step. -/

/-- The observations of a run that is cut in two. -/
theorem observe_append {obs : σ → ε → Option β} {s t : σ} {es fs : List ε}
    (h : run step s es = some t) :
    observe step obs s (es ++ fs) = observe step obs s es ++ observe step obs t fs := by
  induction es generalizing s with
  | nil =>
      cases h
      rfl
  | cons e es ih =>
      obtain ⟨u, hstep, hrest⟩ := run_cons_eq_some.mp h
      rw [List.cons_append, observe, observe, hstep, Option.map_some, Option.map_some,
        Option.getD_some, Option.getD_some, ih hrest, List.append_assoc]

/-- The observations before, at and after a step of a run. -/
theorem observe_append_cons {obs : σ → ε → Option β} {s t t' : σ} {es fs : List ε} {e : ε}
    (h : run step s es = some t) (hstep : step t e = some t') :
    observe step obs s (es ++ e :: fs) =
      observe step obs s es ++ ((obs t e).toList ++ observe step obs t' fs) := by
  rw [observe_append h, observe, hstep, Option.map_some, Option.getD_some]

/-- An observation was made at some step of the run; the ones before it were made before. -/
theorem observe_eq_append_cons {obs : σ → ε → Option β} {s s' : σ} {es : List ε} {pre post : List β}
    {x : β} (hrun : run step s es = some s') (h : observe step obs s es = pre ++ x :: post) :
    ∃ before e after t, es = before ++ e :: after ∧ run step s before = some t ∧
      obs t e = some x ∧ observe step obs s before = pre := by
  induction es generalizing s pre with
  | nil => simp [observe] at h
  | cons e es ih =>
      obtain ⟨u, hstep, hrest⟩ := run_cons_eq_some.mp hrun
      rw [observe, hstep, Option.map_some, Option.getD_some] at h
      cases hobs : obs s e with
      | none =>
          rw [hobs, Option.toList_none, List.nil_append] at h
          obtain ⟨before, e', after, t, rfl, ht, hx, hpre⟩ := ih hrest h
          refine ⟨e :: before, e', after, t, rfl, run_cons_eq_some.mpr ⟨u, hstep, ht⟩, hx, ?_⟩
          rw [observe, hstep, hobs]
          exact hpre
      | some y =>
          rw [hobs, Option.toList_some, List.singleton_append] at h
          cases pre with
          | nil =>
              rw [List.nil_append, List.cons.injEq] at h
              exact ⟨[], e, es, s, rfl, rfl, by rw [hobs, h.1], rfl⟩
          | cons z pre =>
              rw [List.cons_append, List.cons.injEq] at h
              obtain ⟨before, e', after, t, rfl, ht, hx, hpre⟩ := ih hrest h.2
              refine ⟨e :: before, e', after, t, rfl, run_cons_eq_some.mpr ⟨u, hstep, ht⟩, hx, ?_⟩
              rw [observe, hstep, hobs, Option.toList_some, h.1, Option.map_some, Option.getD_some,
                hpre]
              rfl

theorem mem_observe {obs : σ → ε → Option β} {s s' : σ} {es : List ε} {x : β}
    (hrun : run step s es = some s') (h : x ∈ observe step obs s es) :
    ∃ before e after t, es = before ++ e :: after ∧ run step s before = some t ∧
      obs t e = some x := by
  obtain ⟨pre, post, hsplit⟩ := List.append_of_mem h
  obtain ⟨before, e, after, t, hes, ht, hx, -⟩ := observe_eq_append_cons hrun hsplit
  exact ⟨before, e, after, t, hes, ht, hx⟩

end Trace
