import Mathlib.Data.List.Induction

/-!
# Executable transition systems

A system is a partial function `step : σ → ε → Option σ`: in state `s` the event `e` is possible
iff `step s e` is `some s'`, and then `s'` is the next state. All the nondeterminism of the modelled
system (who moves, what the environment answers) is in the choice of the events, so that a run is
just a list of events and every run can be evaluated.

* `run` — the state a list of events leads to.
* `run_induction`, `run_invariant` — the two induction rules. The first one lets the property speak
  about the events so far (the history), the second one about the state only.
* `AllSteps`, `run_induction_of` — the same for runs in which every step meets a condition on the
  state it starts from.
* `observe` — what an observer who looks at each step sees over a whole run.
-/

namespace Trace

variable {σ ε β : Type*} {step : σ → ε → Option σ}

/-- The state reached from `s` by the events of the list, if they are all possible. -/
def run (step : σ → ε → Option σ) : σ → List ε → Option σ
  | s, []      => some s
  | s, e :: es => (step s e).bind fun s' => run step s' es

@[simp] theorem run_nil (s : σ) : run step s [] = some s := rfl

theorem run_cons (s : σ) (e : ε) (es : List ε) :
    run step s (e :: es) = (step s e).bind fun s' => run step s' es := rfl

theorem run_cons_eq_some {s s' : σ} {e : ε} {es : List ε} :
    run step s (e :: es) = some s' ↔ ∃ t, step s e = some t ∧ run step t es = some s' := by
  rw [run_cons, Option.bind_eq_some_iff]

theorem run_append (s : σ) (es fs : List ε) :
    run step s (es ++ fs) = (run step s es).bind fun s' => run step s' fs := by
  induction es generalizing s with
  | nil => rfl
  | cons e es ih =>
      rw [List.cons_append, run_cons, run_cons]
      cases step s e with
      | none => rfl
      | some s' => exact ih s'

theorem run_append_eq_some {s s' : σ} {es fs : List ε} :
    run step s (es ++ fs) = some s' ↔ ∃ t, run step s es = some t ∧ run step t fs = some s' := by
  rw [run_append, Option.bind_eq_some_iff]

/-- The last step of a run, split off. -/
theorem run_snoc_eq_some {s s' : σ} {es : List ε} {e : ε} :
    run step s (es ++ [e]) = some s' ↔ ∃ t, run step s es = some t ∧ step t e = some s' := by
  rw [run_append_eq_some]
  constructor
  · rintro ⟨t, ht, hs⟩
    obtain ⟨u, hu, hnil⟩ := run_cons_eq_some.mp hs
    cases hnil
    exact ⟨t, ht, hu⟩
  · rintro ⟨t, ht, hs⟩
    exact ⟨t, ht, run_cons_eq_some.mpr ⟨s', hs, rfl⟩⟩

/-- An event of a run that has just been extended is the new one or was there before. -/
theorem snoc_eq_append_cons {es pre post : List ε} {e x : ε} (h : es ++ [e] = pre ++ x :: post) :
    (es = pre ∧ e = x ∧ post = []) ∨ ∃ post', post = post' ++ [e] ∧ es = pre ++ x :: post' := by
  rcases List.eq_nil_or_concat post with rfl | ⟨post', last, rfl⟩
  · obtain ⟨hpre, he⟩ := List.append_inj' h rfl
    cases he
    exact .inl ⟨hpre, rfl, rfl⟩
  · have h' : es ++ [e] = (pre ++ x :: post') ++ [last] := by
      rw [h]
      simp
    obtain ⟨hes, he⟩ := List.append_inj' h' rfl
    cases he
    exact .inr ⟨post', by simp, hes⟩

/-! ## Induction over a run

The rules that every result about runs goes through: one step is considered, and the run before it
is given. -/

/-- Induction on the length of a run, where the property may speak about the events so far. -/
theorem run_induction {s₀ : σ} {P : List ε → σ → Prop} (init : P [] s₀)
    (next : ∀ es s e s', run step s₀ es = some s → P es s → step s e = some s' →
      P (es ++ [e]) s') :
    ∀ {es : List ε} {s : σ}, run step s₀ es = some s → P es s := by
  intro es
  induction es using List.reverseRecOn with
  | nil =>
      intro s h
      cases h
      exact init
  | append_singleton es e ih =>
      intro s' h
      obtain ⟨s, hs, hstep⟩ := run_snoc_eq_some.mp h
      exact next es s e s' hs (ih hs) hstep

/-- What holds of a state and is kept by every step holds of every state reached. -/
theorem run_invariant {I : σ → Prop} (next : ∀ s e s', I s → step s e = some s' → I s')
    {s s' : σ} {es : List ε} (hs : I s) (h : run step s es = some s') : I s' :=
  run_induction (P := fun _ t => I t) hs (fun _ t e t' _ ht hstep => next t e t' ht hstep) h

/-- Every step of the run from `s` starts in a state that satisfies `C` (with its event). -/
def AllSteps (step : σ → ε → Option σ) (C : σ → ε → Prop) (s : σ) (es : List ε) : Prop :=
  ∀ pre e post t, es = pre ++ e :: post → run step s pre = some t → C t e

theorem allSteps_nil {C : σ → ε → Prop} (s : σ) : AllSteps step C s [] := by
  intro pre e post t h
  simp at h

theorem allSteps_cons {C : σ → ε → Prop} {s : σ} {e : ε} {es : List ε} :
    AllSteps step C s (e :: es) ↔ C s e ∧ ∀ t, step s e = some t → AllSteps step C t es := by
  constructor
  · intro h
    refine ⟨h [] e es s rfl rfl, ?_⟩
    intro t ht pre f post u hes hu
    exact h (e :: pre) f post u (by rw [hes]; rfl) (run_cons_eq_some.mpr ⟨t, ht, hu⟩)
  · rintro ⟨hC, h⟩ pre f post u hes hu
    cases pre with
    | nil =>
        cases hes
        cases hu
        exact hC
    | cons g pre =>
        cases hes
        obtain ⟨t, ht, hrest⟩ := run_cons_eq_some.mp hu
        exact h t ht pre f post u rfl hrest

theorem AllSteps.cons {C : σ → ε → Prop} {s t : σ} {e : ε} {es : List ε} (hC : C s e)
    (hstep : step s e = some t) (h : AllSteps step C t es) : AllSteps step C s (e :: es) := by
  refine allSteps_cons.mpr ⟨hC, ?_⟩
  intro t' ht'
  rw [hstep] at ht'
  cases ht'
  exact h

theorem AllSteps.of_append {C : σ → ε → Prop} {s : σ} {es fs : List ε}
    (h : AllSteps step C s (es ++ fs)) : AllSteps step C s es := by
  intro pre e post t hes ht
  exact h pre e (post ++ fs) t (by rw [hes]; simp) ht

/-- The history rule for runs whose steps all meet a condition. -/
theorem run_induction_of {C : σ → ε → Prop} {s₀ : σ} {P : List ε → σ → Prop} (init : P [] s₀)
    (next : ∀ es s e s', run step s₀ es = some s → P es s → C s e → step s e = some s' →
      P (es ++ [e]) s') :
    ∀ {es : List ε} {s : σ}, AllSteps step C s₀ es → run step s₀ es = some s → P es s := by
  intro es
  induction es using List.reverseRecOn with
  | nil =>
      intro s _ h
      cases h
      exact init
  | append_singleton es e ih =>
      intro s' hC h
      obtain ⟨s, hs, hstep⟩ := run_snoc_eq_some.mp h
      exact next es s e s' hs (ih hC.of_append hs) (hC es e [] s rfl hs) hstep

/-! ## Observing a run

An observer notes something at some steps. What is noted over a run is a list, and a longer run only
adds to it. -/

/-- The observations of a run, in order: `obs s e` is what the step `e` taken in `s` shows. -/
def observe (step : σ → ε → Option σ) (obs : σ → ε → Option β) : σ → List ε → List β
  | _, []      => []
  | s, e :: es => (obs s e).toList ++ ((step s e).map fun s' => observe step obs s' es).getD []

/-- The observation of the last step comes last. -/
theorem observe_snoc {obs : σ → ε → Option β} {s t : σ} {es : List ε} (e : ε)
    (h : run step s es = some t) :
    observe step obs s (es ++ [e]) = observe step obs s es ++ (obs t e).toList := by
  induction es generalizing s with
  | nil =>
      cases h
      cases hstep : step t e <;> simp [observe, hstep]
  | cons f fs ih =>
      obtain ⟨u, hu, hrun⟩ := run_cons_eq_some.mp h
      simp only [List.cons_append, observe, hu, Option.map_some, Option.getD_some, ih hrun,
        List.append_assoc]

end Trace
