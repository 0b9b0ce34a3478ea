import Mathlib.Data.List.Basic
import Mathlib.Data.List.Infix

/-!
# Runs of a deterministic machine

A machine is a step function; a run is the fold of a list of operations, and the
states it passes through are the folds of the prefixes of that list. The three
rules: an invariant of one step is an invariant of every run, when keeping a
property over one step is equivalent to a condition on that step, keeping it over
a run is equivalent to the condition on every step of the run, and a relation
that steps of two machines keep holds between their runs.

A call that answers and may fail is a step of its own kind: `nthCall` is the answer of
the `k`-th of successive calls, and `nthCall_invariant` the rule for it.
-/

namespace MissyKernel

variable {σ ι : Type} {step : σ → ι → σ}

/-- The run rule: what every step keeps, every run keeps. -/
theorem foldl_invariant {I : σ → Prop} (hstep : ∀ s a, I s → I (step s a)) :
    ∀ (l : List ι) (s : σ), I s → I (l.foldl step s)
  | [], _, h => h
  | a :: l, s, h => foldl_invariant hstep l (step s a) (hstep s a h)

/-- The simulation rule: a relation between two machines that every step with `P`
keeps holds between their runs of such steps. -/
theorem foldl_simulation {τ : Type} {step' : τ → ι → τ} {R : σ → τ → Prop} {P : ι → Prop}
    (hstep : ∀ s t a, P a → R s t → R (step s a) (step' t a)) :
    ∀ (l : List ι) (s : σ) (t : τ), (∀ a ∈ l, P a) → R s t →
      R (l.foldl step s) (l.foldl step' t) := by
  intro l
  induction l with
  | nil =>
    intro s t _ h
    exact h
  | cons a l ih =>
    intro s t hl h
    obtain ⟨ha, hl⟩ := List.forall_mem_cons.mp hl
    exact ih _ _ hl (hstep s t a ha h)

/-- The last step of a run with a property, after one more step. -/
theorem find?_reverse_concat (p : ι → Bool) (l : List ι) (a : ι) :
    (l ++ [a]).reverse.find? p = if p a then some a else l.reverse.find? p := by
  rw [List.reverse_append, List.reverse_singleton, List.singleton_append, List.find?_cons]
  cases p a <;> rfl

/-- The prefixes of a run: the empty one, and those that make the first step. -/
theorem forall_prefix_cons {Q : List ι → Prop} {a : ι} {l : List ι} :
    (∀ pre, pre <+: a :: l → Q pre) ↔ Q [] ∧ ∀ pre, pre <+: l → Q (a :: pre) := by
  constructor
  · intro h
    exact ⟨h [] (List.nil_prefix), fun pre hpre => h _ (List.cons_prefix_cons.mpr ⟨rfl, hpre⟩)⟩
  · rintro ⟨hnil, hcons⟩ pre hpre
    rcases List.prefix_cons_iff.mp hpre with rfl | ⟨t, rfl, ht⟩
    · exact hnil
    · exact hcons t ht

/-- The steps of a run: the first one, and those of the rest. -/
theorem forall_step_cons {Q : List ι → ι → Prop} {a : ι} {l : List ι} :
    (∀ pre b, pre ++ [b] <+: a :: l → Q pre b) ↔
      Q [] a ∧ ∀ pre b, pre ++ [b] <+: l → Q (a :: pre) b := by
  constructor
  · intro h
    refine ⟨h [] a (List.cons_prefix_cons.mpr ⟨rfl, List.nil_prefix⟩), fun pre b hpre => ?_⟩
    exact h _ b (List.cons_prefix_cons.mpr ⟨rfl, hpre⟩)
  · rintro ⟨hnil, hcons⟩ pre b hpre
    cases pre with
    | nil =>
      obtain ⟨rfl, -⟩ := List.cons_prefix_cons.mp hpre
      exact hnil
    | cons c pre =>
      obtain ⟨rfl, ht⟩ := List.cons_prefix_cons.mp hpre
      exact hcons pre b ht

/-- **The exact-condition rule.** If from a state with `P` a step keeps `P`
exactly when it meets `N`, then all states of a run have `P` exactly when the
first one does and every step meets `N` in the state before it. -/
theorem forall_states_iff {I P : σ → Prop} {N : σ → ι → Prop}
    (hI : ∀ s a, I s → I (step s a))
    (hP : ∀ s a, I s → P s → (P (step s a) ↔ N s a)) :
    ∀ (l : List ι) (s : σ), I s →
      ((∀ pre, pre <+: l → P (pre.foldl step s)) ↔
        P s ∧ ∀ pre a, pre ++ [a] <+: l → N (pre.foldl step s) a) := by
  intro l
  induction l with
  | nil =>
    intro s _
    simp
  | cons a l ih =>
    intro s hs
    rw [forall_prefix_cons, forall_step_cons]
    simp only [List.foldl_nil, List.foldl_cons]
    refine and_congr_right fun hPs => ?_
    rw [ih (step s a) (hI s a hs), hP s a hs hPs]

/-! ## Successive calls -/

variable {ρ : Type}

/-- The state that `k` successive calls leave. -/
def afterCalls (call : σ → Option (ρ × σ)) (s : σ) : ℕ → Option σ
  | 0 => some s
  | k + 1 => (afterCalls call s k).bind fun s => (call s).map Prod.snd

/-- What call number `k` answers and leaves, counted from 0. -/
def nthCall (call : σ → Option (ρ × σ)) (s : σ) (k : ℕ) : Option (ρ × σ) :=
  (afterCalls call s k).bind call

/-- The call rule: where every call from a state of the invariant returns, answers as
`A` says and leaves a state of the invariant, every one of successive calls does. -/
theorem nthCall_invariant {call : σ → Option (ρ × σ)} {I : ℕ → σ → Prop}
    {A : ℕ → ρ → σ → Prop} {s : σ}
    (hstep : ∀ k s, I k s → ∃ r s', call s = some (r, s') ∧ I (k + 1) s' ∧ A k r s')
    (h0 : I 0 s) (k : ℕ) :
    ∃ r s', nthCall call s k = some (r, s') ∧ I (k + 1) s' ∧ A k r s' := by
  have hbefore : ∃ s', afterCalls call s k = some s' ∧ I k s' := by
    induction k with
    | zero => exact ⟨s, rfl, h0⟩
    | succ k ih =>
      obtain ⟨s', hs', hI⟩ := ih
      obtain ⟨r, t, hcall, ht, -⟩ := hstep k s' hI
      exact ⟨t, by rw [afterCalls, hs', Option.bind_some, hcall]; rfl, ht⟩
  obtain ⟨s', hs', hI⟩ := hbefore
  obtain ⟨r, t, hcall, ht⟩ := hstep k s' hI
  exact ⟨r, t, by rw [nthCall, hs', Option.bind_some, hcall], ht⟩

/-- Related continuations of related results. -/
theorem optionRel_bind {α β γ δ : Type} {R : α → β → Prop} {S : γ → δ → Prop}
    {x : Option α} {y : Option β} {f : α → Option γ} {g : β → Option δ}
    (hxy : Option.Rel R x y) (hfg : ∀ a b, R a b → Option.Rel S (f a) (g b)) :
    Option.Rel S (x.bind f) (y.bind g) := by
  cases hxy with
  | some hab => exact hfg _ _ hab
  | none => exact .none

/-- The simulation rule for calls: where related states give the same answer and leave
related states, successive calls answer the same. -/
theorem nthCall_simulation {τ : Type} {call : σ → Option (ρ × σ)} {call' : τ → Option (ρ × τ)}
    {R : σ → τ → Prop} {s : σ} {t : τ}
    (hstep : ∀ s t, R s t → Option.Rel (fun x y => x.1 = y.1 ∧ R x.2 y.2) (call s) (call' t))
    (h0 : R s t) (k : ℕ) :
    Option.Rel (fun x y => x.1 = y.1 ∧ R x.2 y.2) (nthCall call s k) (nthCall call' t k) := by
  have hbefore : Option.Rel R (afterCalls call s k) (afterCalls call' t k) := by
    induction k with
    | zero => exact .some h0
    | succ k ih =>
      refine optionRel_bind ih fun s t hst => ?_
      rw [Option.map_eq_bind, Option.map_eq_bind]
      exact optionRel_bind (hstep s t hst) fun _ _ hnext => .some hnext.2
  exact optionRel_bind hbefore hstep

end MissyKernel
