import MissyKernel.Simulation
import Mathlib.Data.Option.Basic
import Mathlib.Logic.Function.Basic

/-!
# Memory that keeps what is stored

A machine with a memory does two things: it stores a value at an address, and anything else.
Its memory is what it sees of its state, at the addresses where it sees anything. If a store
changes what is seen at its own address only, and nothing else changes anything that is seen,
then after every run each address holds what was stored there last, and what it held at the
beginning if nothing was. New addresses may come up on the way.

The rule is used for a memory behind page tables, where an address is seen through two levels of
words that lie in the same memory; but nothing here depends on how a state is seen.
-/

namespace MissyKernel

/-- What a machine with a memory does. -/
inductive MemoryEvent (α β ε : Type) : Type where
  /-- store a value at an address -/
  | store (a : α) (x : β)
  /-- anything else -/
  | other (e : ε)

/-- What was stored at an address last, if anything was. -/
def lastStored {α β ε : Type} [DecidableEq α] (events : List (MemoryEvent α β ε)) (a : α) :
    Option β :=
  events.foldl (fun last event =>
    match event with
    | .store a' x => if a = a' then some x else last
    | .other _ => last) none

section

variable {α β ε : Type} [DecidableEq α] {events : List (MemoryEvent α β ε)} {a a' : α} {x : β}

theorem lastStored_store :
    lastStored (events ++ [.store a' x]) a = if a = a' then some x else lastStored events a := by
  rw [lastStored, List.foldl_append]
  rfl

theorem lastStored_other {e : ε} :
    lastStored (events ++ [.other e]) a = lastStored events a := by
  rw [lastStored, List.foldl_append]
  rfl

end

/-- What each step does to what is seen, in the states of an invariant. -/
structure MemorySteps {σ α β ε : Type} [DecidableEq α]
    (step : σ → MemoryEvent α β ε → σ → Prop) (seen : σ → α → Option β) (I : σ → Prop) : Prop where
  /-- the invariant -/
  keeps : ∀ {s event s'}, I s → step s event s' → I s'
  /-- a store changes its own address -/
  store : ∀ {s a x s'}, I s → step s (.store a x) s' → seen s' = Function.update (seen s) a (some x)
  /-- nothing else changes an address that is seen -/
  other : ∀ {s e s'}, I s → step s (.other e) s' → ∀ {a x}, seen s a = some x → seen s' a = some x

namespace MemorySteps

variable {σ α β ε : Type} [DecidableEq α] {step : σ → MemoryEvent α β ε → σ → Prop}
  {seen : σ → α → Option β} {I : σ → Prop} {s s' : σ} {events : List (MemoryEvent α β ε)}

/-- The rule: each address holds what was stored there last. -/
theorem run (h : MemorySteps step seen I) (hs : I s) (hrun : Traces step s events s') :
    I s' ∧ ∀ a x, (lastStored events a).or (seen s a) = some x → seen s' a = some x := by
  induction hrun with
  | nil =>
    refine ⟨hs, fun a x hx => ?_⟩
    simpa [lastStored] using hx
  | @snoc events event s₁ s₂ _ hstep ih =>
    obtain ⟨hI, hheld⟩ := ih
    refine ⟨h.keeps hI hstep, fun a x hx => ?_⟩
    cases event with
    | store a' x' =>
      rw [lastStored_store] at hx
      rw [h.store hI hstep, Function.update_apply]
      by_cases ha : a = a'
      · simpa [ha] using hx
      · rw [if_neg ha] at hx ⊢
        exact hheld a x hx
    | other e =>
      rw [lastStored_other] at hx
      exact h.other hI hstep (hheld a x hx)

end MemorySteps

end MissyKernel
