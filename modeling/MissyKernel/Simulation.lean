import Mathlib.Data.List.Basic

/-!
# Runs of a machine whose steps have events

A step of such a machine is one of several that may happen; its event says which. A run is
the list of its events. Three rules: what every step keeps, given the events before it, holds
after every run; where an invariant has some step to a smaller measure, a run of such steps
takes the measure to zero; and a relation to the states of a second machine that every step
keeps, where the second one takes a step with an event of its own or none at all, carries a
run of the first over to a run of the second.

Nothing is asked of the steps but that they are a relation; they need not be determined, and a
machine may have none from some state on. `Traces` keeps the events in the order in which they
happened, the last one at the end, since what a step may do often depends on what came before.
-/

namespace MissyKernel

/-- The events lead from the first state to the second. -/
inductive Traces {σ ε : Type} (step : σ → ε → σ → Prop) (s : σ) : List ε → σ → Prop where
  /-- nothing happened -/
  | nil : Traces step s [] s
  /-- one event more -/
  | snoc {events : List ε} {e : ε} {s' s'' : σ} :
    Traces step s events s' → step s' e s'' → Traces step s (events ++ [e]) s''

/-- A step with the event, or none. -/
def StepOrStay {σ ε : Type} (step : σ → ε → σ → Prop) : Option ε → σ → σ → Prop
  | some e, s, s' => step s e s'
  | none, s, s' => s' = s

namespace Traces

variable {σ ε : Type} {step : σ → ε → σ → Prop} {s s' s'' : σ}

theorem single {e : ε} (h : step s e s') : Traces step s [e] s' := .snoc .nil h

theorem append {events more : List ε} (h : Traces step s events s')
    (h' : Traces step s' more s'') : Traces step s (events ++ more) s'' := by
  induction h' with
  | nil =>
    rw [List.append_nil]
    exact h
  | snoc _ hstep ih =>
    rw [← List.append_assoc]
    exact .snoc ih hstep

/-- The invariant rule: of the state and what happened so far. -/
theorem invariant (I : List ε → σ → Prop) (hinit : I [] s)
    (hstep : ∀ {events e s' s''}, I events s' → step s' e s'' → I (events ++ [e]) s'')
    {events : List ε} (h : Traces step s events s') : I events s' := by
  induction h with
  | nil => exact hinit
  | snoc _ hlast ih => exact hstep ih hlast

/-- The progress rule: steps that are allowed take the measure down to zero. -/
theorem descend (I : σ → Prop) (measure : σ → ℕ) (allowed : ε → Prop)
    (hstep : ∀ {s}, I s → measure s ≠ 0 →
      ∃ e s', allowed e ∧ step s e s' ∧ I s' ∧ measure s' < measure s) (hs : I s) :
    ∃ events s', Traces step s events s' ∧ (∀ e ∈ events, allowed e) ∧
      events.length ≤ measure s ∧ I s' ∧ measure s' = 0 := by
  generalize hn : measure s = n
  induction n using Nat.strongRecOn generalizing s with
  | ind n ih =>
    subst hn
    cases Nat.eq_zero_or_pos (measure s) with
    | inl hzero => exact ⟨[], s, .nil, by simp, by simp, hs, hzero⟩
    | inr hpos =>
      obtain ⟨e, s', hallowed, hfirst, hs', hless⟩ := hstep hs (Nat.ne_of_gt hpos)
      obtain ⟨events, s'', hrun, hevents, hlength, hdone⟩ := ih _ hless hs' rfl
      refine ⟨[e] ++ events, s'', (single hfirst).append hrun, ?_, ?_, hdone⟩
      · exact List.forall_mem_append.mpr ⟨List.forall_mem_singleton.mpr hallowed, hevents⟩
      · rw [List.length_append, List.length_singleton]
        omega

/-- The simulation rule: an event of the first machine is one of the second, or none. -/
theorem simulation {τ φ : Type} {step' : τ → φ → τ → Prop} {R : σ → τ → Prop}
    {image : ε → Option φ}
    (hstep : ∀ {s e s' t}, R s t → step s e s' →
      ∃ t', R s' t' ∧ StepOrStay step' (image e) t t')
    {t : τ} (hinit : R s t) {events : List ε} (h : Traces step s events s') :
    ∃ t', R s' t' ∧ Traces step' t (events.filterMap image) t' := by
  induction h with
  | nil => exact ⟨t, hinit, .nil⟩
  | @snoc events e _ _ _ hlast ih =>
    obtain ⟨t', hR, hrun⟩ := ih
    obtain ⟨t'', hR', hstay⟩ := hstep hR hlast
    refine ⟨t'', hR', ?_⟩
    rw [List.filterMap_append]
    cases himage : image e with
    | none =>
      rw [himage] at hstay
      obtain rfl : _ = t' := hstay
      simpa [himage] using hrun
    | some f =>
      rw [himage] at hstay
      simpa [himage] using hrun.snoc hstay

end Traces

end MissyKernel
