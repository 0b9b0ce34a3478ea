import Mathlib.Data.List.Basic
import Mathlib.Logic.Function.Basic

/-!
# Objects in memory

An object is the list of its bytes, and a pointer into it is an index. A load or a store
outside of the object is a fault, so that a routine that returns has stayed inside. A
routine with a loop is given the number of turns it may take; to run out of them is another
fault.

Two views of an object are for proofs. The suffix behind a pointer: a load takes its head, and
the next pointer has its tail. The `window` of a function on all indices: inside of it loads
and stores are the ones of the function.

The C functions that take pointers into buffers are modelled over such objects, with the
objects of just the sizes that the callers give them. That they return at all, and do not end in
a fault, is then part of every result about them.
-/

namespace MissyKernel

/-- Why a routine does not return. -/
inductive Fault : Type where
  /-- it takes more turns than it was given -/
  | turns
  /-- an access outside of the object -/
  | outside
  /-- an argument is missing, or of another type -/
  | argument
deriving DecidableEq

variable {α β : Type}

/-- `*ptr` -/
def load (object : List α) (ptr : ℕ) : Except Fault α :=
  match object[ptr]? with
  | some a => .ok a
  | none => .error .outside

/-- `*ptr = a` -/
def store (object : List α) (ptr : ℕ) (a : α) : Except Fault (List α) :=
  if ptr < object.length then .ok (object.set ptr a) else .error .outside

/-- `while (count--) *ptr++ = a` -/
def storeAll (a : α) : ℕ → ℕ → List α → Except Fault (List α)
  | 0, _, object => pure object
  | count + 1, ptr, object => do
    let object ← store object ptr a
    storeAll a count (ptr + 1) object

/-- `while (test(ptr[amount])) amount++`: the amount in the end. -/
def scanWhile (test : α → Bool) (object : List α) (ptr : ℕ) : ℕ → ℕ → Except Fault ℕ
  | 0, _ => .error .turns
  | turns + 1, amount => do
    let a ← load object (ptr + amount)
    if test a then scanWhile test object ptr turns (amount + 1) else pure amount

@[simp] theorem except_ok_bind (a : α) (f : α → Except Fault β) : (Except.ok a >>= f) = f a := rfl

@[simp] theorem except_error_bind (fault : Fault) (f : α → Except Fault β) :
    (Except.error fault >>= f) = .error fault := rfl

/-- The object of `size` elements that a function describes. -/
def window (b : ℕ → α) (size : ℕ) : List α := (List.range size).map b

/-! ## Suffixes -/

variable {object rest : List α} {ptr amount turns : ℕ} {a : α} {test : α → Bool}

theorem load_of_drop (h : object.drop ptr = a :: rest) : load object ptr = .ok a := by
  have hget : object[ptr]? = some a := by
    rw [← Nat.add_zero ptr, ← List.getElem?_drop, h, List.getElem?_cons_zero]
  rw [load, hget]

theorem load_of_drop_nil (h : object.drop ptr = []) : load object ptr = .error .outside := by
  rw [load, List.getElem?_eq_none (List.drop_eq_nil_iff.mp h)]

theorem drop_succ_of_drop (h : object.drop ptr = a :: rest) : object.drop (ptr + 1) = rest := by
  rw [← List.drop_drop, h, List.drop_one, List.tail_cons]

/-- A scan ends where the test fails, which is at the terminator at last; what the test says
of a terminator in front of it does not matter. -/
theorem scanWhile_eq {terminator : α} {behind : List α} {test' : α → Bool}
    (hterminator : test terminator = false) (hrest : ∀ a ∈ rest, test a = test' a)
    (h : object.drop (ptr + amount) = rest ++ terminator :: behind)
    (hturns : rest.length < turns) :
    scanWhile test object ptr turns amount = .ok (amount + (rest.takeWhile test').length) := by
  induction rest generalizing amount turns with
  | nil =>
    obtain ⟨turns, rfl⟩ := Nat.exists_eq_succ_of_ne_zero (Nat.ne_of_gt hturns)
    rw [scanWhile, load_of_drop h, except_ok_bind, hterminator]
    rfl
  | cons a rest ih =>
    obtain ⟨turns, rfl⟩ := Nat.exists_eq_succ_of_ne_zero (Nat.ne_of_gt (Nat.zero_lt_of_lt hturns))
    obtain ⟨ha, hrest⟩ := List.forall_mem_cons.mp hrest
    have htail : object.drop (ptr + (amount + 1)) = rest ++ terminator :: behind :=
      drop_succ_of_drop h
    rw [scanWhile, load_of_drop h, except_ok_bind, ha, List.takeWhile_cons]
    cases test' a with
    | false => rfl
    | true =>
      rw [if_pos rfl, if_pos rfl, ih hrest htail (Nat.lt_of_succ_lt_succ hturns), List.length_cons,
        Nat.add_right_comm, Nat.add_assoc]

/-- Wherever a scan ends, the test fails. -/
theorem test_of_scanWhile {result : ℕ}
    (h : scanWhile test object ptr turns amount = .ok result) :
    ∃ a, load object (ptr + result) = .ok a ∧ test a = false := by
  induction turns generalizing amount with
  | zero => cases h
  | succ turns ih =>
    rw [scanWhile] at h
    cases hload : load object (ptr + amount) with
    | error fault =>
      rw [hload, except_error_bind] at h
      cases h
    | ok a =>
      rw [hload, except_ok_bind] at h
      by_cases ha : test a = true
      · rw [if_pos ha] at h
        exact ih h
      · rw [if_neg ha] at h
        cases h
        exact ⟨a, hload, eq_false_of_ne_true ha⟩

/-! ## Windows -/

variable {b : ℕ → α} {size count : ℕ}

theorem length_window (b : ℕ → α) (size : ℕ) : (window b size).length = size := by
  rw [window, List.length_map, List.length_range]

theorem load_window (h : ptr < size) : load (window b size) ptr = .ok (b ptr) := by
  rw [load, window, List.getElem?_map, List.getElem?_range h]
  rfl

theorem load_window_of_le (h : size ≤ ptr) : load (window b size) ptr = .error .outside :=
  load_of_drop_nil (List.drop_eq_nil_of_le (by rwa [length_window]))

/-- The front of a window, an element, and what is behind it. -/
theorem window_split (h : ptr < size) :
    window b size =
      window b ptr ++ b ptr :: window (fun i => b (ptr + 1 + i)) (size - (ptr + 1)) := by
  obtain ⟨count, rfl⟩ := Nat.exists_eq_add_of_lt h
  rw [window, show ptr + count + 1 = ptr + (1 + count) by omega, List.range_add, List.map_append,
    List.range_add, List.map_append, List.map_append, show ptr + (1 + count) - (ptr + 1) = count by
      omega]
  simp only [window, List.range_one, List.map_singleton, List.map_map, Nat.add_zero]
  rw [List.singleton_append]
  refine congrArg (_ ++ _ :: ·) (List.map_congr_left fun i _ => ?_)
  exact congrArg b (Nat.add_assoc ptr 1 i).symm

theorem window_congr {b' : ℕ → α} (h : ∀ i < size, b i = b' i) : window b size = window b' size :=
  List.map_congr_left fun i hi => h i (List.mem_range.mp hi)

theorem store_window (h : ptr < size) (a : α) :
    store (window b size) ptr a = .ok (window (Function.update b ptr a) size) := by
  rw [store, if_pos (by rwa [length_window])]
  refine congrArg Except.ok (List.ext_getElem ?_ fun i hi _ => ?_)
  · rw [List.length_set, length_window, length_window]
  · simp only [window, List.getElem_set, List.getElem_map, List.getElem_range,
      Function.update_apply, eq_comm]

theorem storeAll_window (h : ptr + count ≤ size) (a : α) :
    storeAll a count ptr (window b size) =
      .ok (window (fun i => if ptr ≤ i ∧ i < ptr + count then a else b i) size) := by
  induction count generalizing ptr b with
  | zero =>
    have hnone : ∀ i, ¬ (ptr ≤ i ∧ i < ptr + 0) := fun i hi => by omega
    simp only [hnone, if_false]
    rfl
  | succ count ih =>
    rw [storeAll, store_window (by omega), except_ok_bind, ih (by omega)]
    congr 2
    funext i
    by_cases hi : i = ptr
    · rw [hi, if_neg (by omega), if_pos (by omega), Function.update_self]
    · rw [Function.update_of_ne hi]
      congr 1
      rw [eq_iff_iff]
      omega

theorem storeAll_front (h : count ≤ size) (a : α) :
    storeAll a count 0 (window b size) =
      .ok (window (fun i => if i < count then a else b i) size) := by
  rw [storeAll_window (by rwa [Nat.zero_add])]
  simp only [Nat.zero_le, Nat.zero_add, true_and]

/-- Every object is a window. -/
theorem eq_window (object : List α) (a : α) : object = window (object.getD · a) object.length := by
  refine List.ext_getElem ?_ fun i hi _ => ?_
  · rw [length_window]
  · simp only [window, List.getElem_map, List.getElem_range, List.getD_eq_getElem?_getD,
      List.getElem?_eq_getElem hi, Option.getD_some]

end MissyKernel
