import Mathlib.Data.Finset.Card
import Mathlib.Data.List.Nodup
import Mathlib.Data.List.Perm.Basic
import Mathlib.Logic.Function.Iterate
import Mathlib.Order.Defs.LinearOrder
import Mathlib.Tactic

/-!
# Circular lists given by a successor function

A linked list in memory is a function from a node to its successor. `Path succ a l z` says which
nodes one meets from `a` until `z`: exactly `l`, in that order. A circular list is a path from a
node back to itself, so it can be read from any of its nodes (`Path.rotate`), and the edits of an
allocator are edits of the list `l`: `Path.insertAfter` and `Path.removeAfter`. `walk` is the loop
that follows the list until a test holds, `visited` the nodes it comes to, and `SplicePoint` the
test that keeps addresses in order. Such a list has `OneWrap`, one place where it does not go up:
the loop finds its splice point on the first round, and a node linked in there leaves one such
place.

The loop of a search has no end of its own. `Path.walk_eq` and `Path.walk_find` say where it
stops on a path, `walk_mono` that more steps change nothing, and `walk_eq_none_of_fixed` that a
node which is its own successor holds it for ever. Addresses and memory do not occur here: the
successor is any function on numbers.
-/

namespace MissyKernel

variable {α : Type} {succ succ' : α → α} {a b m x y z : α} {l s t : List α}

/-- Following `succ` from `a` one meets exactly the nodes of `l`, and then `z`. -/
def Path (succ : α → α) : α → List α → α → Prop
  | a, [], z => succ a = z
  | a, x :: l, z => succ a = x ∧ Path succ x l z

/-- Follow `succ` until `stop` holds; the first argument bounds the steps. -/
def walk (succ : α → α) (stop : α → Prop) [DecidablePred stop] : ℕ → α → Option α
  | 0, _ => none
  | fuel + 1, a => if stop a then some a else walk succ stop fuel (succ a)

/-! ## Reading a path -/

theorem path_append : Path succ a (s ++ x :: t) z ↔ Path succ a s x ∧ Path succ x t z := by
  induction s generalizing a with
  | nil => exact Iff.rfl
  | cons y s ih =>
    rw [List.cons_append, Path, Path, ih, and_assoc]

/-- The successors of the nodes of a path are the path, one further. -/
theorem path_iff_map : Path succ a l z ↔ (a :: l).map succ = l ++ [z] := by
  induction l generalizing a with
  | nil => simp [Path]
  | cons x l ih => rw [Path, ih, List.map_cons (l := x :: l), List.cons_append, List.cons.injEq]

theorem Path.succ_mem (h : Path succ a l z) (hx : x ∈ a :: l) : succ x ∈ l ++ [z] :=
  path_iff_map.mp h ▸ List.mem_map_of_mem hx

/-- The node before `y` on a path. -/
theorem Path.succ_getLastD (h : Path succ a (s ++ y :: t) z) : succ (s.getLastD a) = y := by
  induction s generalizing a with
  | nil => exact h.1
  | cons x s ih =>
    rw [List.getLastD_cons]
    exact ih h.2

/-- The last node of a path. -/
theorem Path.succ_last (h : Path succ a l z) : succ (l.getLastD a) = z := by
  induction l generalizing a with
  | nil => exact h
  | cons x l ih =>
    rw [List.getLastD_cons]
    exact ih h.2

theorem getLastD_mem (s t : List α) (a : α) : s.getLastD a ∈ a :: (s ++ t) := by
  induction s generalizing a with
  | nil => exact List.mem_cons_self
  | cons x s ih =>
    rw [List.getLastD_cons]
    exact List.mem_cons_of_mem a (ih x)

/-- A list splits behind each of its nodes. -/
theorem exists_split_behind (hx : x ∈ a :: l) : ∃ s t, l = s ++ t ∧ s.getLastD a = x := by
  rcases List.mem_cons.mp hx with rfl | hx
  · exact ⟨[], l, rfl, rfl⟩
  · obtain ⟨s, t, rfl⟩ := List.append_of_mem hx
    exact ⟨s ++ [x], t, by rw [List.append_assoc, List.singleton_append], List.getLastD_concat⟩

/-- On a circular list without repetition a node has one predecessor. -/
theorem Path.injOn (h : Path succ a l a) (hnodup : (a :: l).Nodup) (hx : x ∈ a :: l)
    (hy : y ∈ a :: l) (heq : succ x = succ y) : x = y := by
  have hmap : ((a :: l).map succ).Nodup := by
    rw [path_iff_map.mp h]
    exact (List.perm_append_singleton a l).nodup_iff.mpr hnodup
  exact List.inj_on_of_nodup_map hmap hx hy heq

/-- A circular list can be read from any of its nodes. -/
theorem Path.rotate (h : Path succ b l b) (ha : a ∈ b :: l) :
    ∃ r, Path succ a r a ∧ (a :: r).Perm (b :: l) := by
  rcases List.mem_cons.mp ha with rfl | ha
  · exact ⟨l, h, List.Perm.refl _⟩
  · obtain ⟨s, t, rfl⟩ := List.append_of_mem ha
    obtain ⟨hs, ht⟩ := path_append.mp h
    have hperm : ((a :: t) ++ (b :: s)).Perm ((b :: s) ++ (a :: t)) := List.perm_append_comm
    exact ⟨t ++ b :: s, path_append.mpr ⟨ht, hs⟩, hperm⟩

/-- On a circular list without repetition the way from the last node `c` to the one
before it goes through all others. -/
theorem Path.around {c : α} (h : Path succ b (l ++ [c]) b) (hnodup : (b :: l).Nodup) :
    ∃ q, Path succ c q (l.getLastD b) ∧ ∀ x ∈ q, x ∈ b :: l ∧ x ≠ l.getLastD b := by
  obtain ⟨hl, hc⟩ := path_append.mp h
  rcases List.eq_nil_or_concat' l with rfl | ⟨l, d, rfl⟩
  · exact ⟨[], hc, by simp⟩
  · rw [List.getLastD_concat]
    refine ⟨b :: l, ⟨hc, (path_append.mp hl).1⟩, fun x hx => ⟨?_, ?_⟩⟩
    · rw [← List.cons_append]
      exact List.mem_append_left _ hx
    · rw [← List.cons_append] at hnodup
      exact fun heq => (List.nodup_append.mp hnodup).2.2 x hx d (List.mem_singleton_self d) heq

/-- The first node behind `a` on a path where `P` holds, if there is one. -/
theorem Path.find_first (P : α → Prop) (h : Path succ a l z) :
    (∃ s y, Path succ a s y ∧ P y ∧ ∀ x ∈ s, x ∈ l ∧ ¬ P x) ∨ ∀ x ∈ l ++ [z], ¬ P x := by
  induction l generalizing a with
  | nil =>
    by_cases hz : P z
    · exact .inl ⟨[], z, h, hz, by simp⟩
    · exact .inr fun x hx => List.mem_singleton.mp hx ▸ hz
  | cons y l ih =>
    by_cases hy : P y
    · exact .inl ⟨[], y, h.1, hy, by simp⟩
    rcases ih h.2 with ⟨s, w, hs, hw, hnone⟩ | hnone
    · refine .inl ⟨y :: s, w, ⟨h.1, hs⟩, hw, List.forall_mem_cons.mpr ⟨⟨?_, hy⟩, fun x hx => ?_⟩⟩
      · exact List.mem_cons_self
      · exact ⟨List.mem_cons_of_mem y (hnone x hx).1, (hnone x hx).2⟩
    · exact .inr (List.forall_mem_cons.mpr ⟨hy, hnone⟩)

/-! ## Steps along a path -/

theorem Path.iterate_mem (h : Path succ a l a) (k : ℕ) : succ^[k] a ∈ a :: l := by
  induction k with
  | zero => exact List.mem_cons_self
  | succ k ih =>
    rw [Function.iterate_succ_apply']
    have hmem := h.succ_mem ih
    rcases List.mem_append.mp hmem with hl | ha
    · exact List.mem_cons_of_mem a hl
    · rw [List.mem_singleton.mp ha]
      exact List.mem_cons_self

theorem Path.exists_iterate (h : Path succ a l z) (hx : x ∈ a :: l) :
    ∃ k, succ^[k] a = x := by
  induction l generalizing a with
  | nil => exact ⟨0, (List.mem_singleton.mp hx).symm⟩
  | cons y l ih =>
    rcases List.mem_cons.mp hx with rfl | hx
    · exact ⟨0, rfl⟩
    · obtain ⟨k, hk⟩ := ih h.2 hx
      exact ⟨k + 1, by rw [Function.iterate_succ_apply, h.1, hk]⟩

theorem Path.iterate_length (h : Path succ a l z) : succ^[l.length + 1] a = z := by
  induction l generalizing a with
  | nil => exact h
  | cons x l ih =>
    rw [Function.iterate_succ_apply, h.1]
    exact ih h.2

theorem Path.iterate_lt (h : Path succ a l z) {j : ℕ} (hj : j < l.length) :
    succ^[j + 1] a ∈ l := by
  induction l generalizing a j with
  | nil => exact absurd hj (Nat.not_lt_zero j)
  | cons x l ih =>
    rw [Function.iterate_succ_apply, h.1]
    cases j with
    | zero => exact List.mem_cons_self
    | succ j => exact List.mem_cons_of_mem x (ih h.2 (Nat.lt_of_succ_lt_succ hj))

/-- The loop stops at the one node of the path where the test holds. -/
theorem Path.walk_eq {stop : α → Prop} [DecidablePred stop] (h : Path succ a l z)
    (hx : x ∈ a :: l) (hstop : ∀ y ∈ a :: l, stop y ↔ y = x) {fuel : ℕ}
    (hfuel : l.length < fuel) : walk succ stop fuel a = some x := by
  induction l generalizing a fuel with
  | nil =>
    obtain ⟨fuel, rfl⟩ := Nat.exists_eq_succ_of_ne_zero (Nat.ne_of_gt hfuel)
    rw [List.mem_singleton.mp hx] at hstop ⊢
    rw [walk, if_pos ((hstop a List.mem_cons_self).mpr rfl)]
  | cons y l ih =>
    obtain ⟨fuel, rfl⟩ := Nat.exists_eq_succ_of_ne_zero (Nat.ne_of_gt (Nat.zero_lt_of_lt hfuel))
    by_cases hax : a = x
    · rw [walk, if_pos ((hstop a List.mem_cons_self).mpr hax), hax]
    · have hl : x ∈ y :: l := (List.mem_cons.mp hx).resolve_left (Ne.symm hax)
      rw [walk, if_neg (mt (hstop a List.mem_cons_self).mp hax), h.1]
      exact ih h.2 hl (fun w hw => hstop w (List.mem_cons_of_mem a hw))
        (Nat.lt_of_succ_lt_succ hfuel)

/-- The loop over a list with an end stops at the first node where the test holds. -/
theorem Path.walk_find {stop : α → Prop} [DecidablePred stop] (h : Path succ a l z)
    (hz : stop z) {fuel : ℕ} (hfuel : l.length + 1 < fuel) :
    walk succ stop fuel a = some (((a :: l).find? stop).getD z) := by
  induction l generalizing a fuel with
  | nil =>
    obtain ⟨fuel, rfl⟩ := Nat.exists_eq_add_of_lt hfuel
    have hnext : succ a = z := h
    by_cases ha : stop a
    · simp [walk, ha]
    · rw [List.length_nil, Nat.zero_add, Nat.add_comm 1 fuel]
      simp [walk, ha, hnext, hz]
  | cons y l ih =>
    obtain ⟨fuel, rfl⟩ := Nat.exists_eq_succ_of_ne_zero (Nat.ne_of_gt (Nat.zero_lt_of_lt hfuel))
    by_cases ha : stop a
    · simp [walk, ha]
    · rw [walk, if_neg ha, h.1, ih h.2 (Nat.lt_of_succ_lt_succ hfuel)]
      simp [ha]

/-- More steps never change where a loop stopped. -/
theorem walk_mono {stop : α → Prop} [DecidablePred stop] {fuel fuel' : ℕ}
    (h : walk succ stop fuel a = some x) (hle : fuel ≤ fuel') :
    walk succ stop fuel' a = some x := by
  induction fuel generalizing a fuel' with
  | zero => exact absurd h (by simp [walk])
  | succ fuel ih =>
    obtain ⟨fuel', rfl⟩ := Nat.exists_eq_succ_of_ne_zero (Nat.ne_of_gt (Nat.zero_lt_of_lt hle))
    rw [walk] at h ⊢
    by_cases hstop : stop a
    · rwa [if_pos hstop] at h ⊢
    · rw [if_neg hstop] at h ⊢
      exact ih h (Nat.le_of_succ_le_succ hle)

/-- Where a loop stops: the first of the nodes it comes to where the test holds. -/
theorem walk_eq_some_iff {stop : α → Prop} [DecidablePred stop] {fuel : ℕ} :
    walk succ stop fuel a = some x ↔
      ∃ k < fuel, succ^[k] a = x ∧ stop x ∧ ∀ j < k, ¬ stop (succ^[j] a) := by
  induction fuel generalizing a with
  | zero => exact iff_of_false (fun h => nomatch h) fun ⟨_, hk, _⟩ => Nat.not_lt_zero _ hk
  | succ fuel ih =>
    by_cases hstop : stop a
    · rw [walk, if_pos hstop, Option.some.injEq]
      constructor
      · rintro rfl
        exact ⟨0, Nat.succ_pos fuel, rfl, hstop, fun j hj => absurd hj (Nat.not_lt_zero j)⟩
      · rintro ⟨k, -, rfl, -, hgo⟩
        cases k with
        | zero => rfl
        | succ k => exact absurd hstop (hgo 0 (Nat.succ_pos k))
    · rw [walk, if_neg hstop, ih]
      constructor
      · rintro ⟨k, hk, hx, hxstop, hgo⟩
        refine ⟨k + 1, Nat.succ_lt_succ hk, hx, hxstop, fun j hj => ?_⟩
        cases j with
        | zero => exact hstop
        | succ j => exact hgo j (Nat.lt_of_succ_lt_succ hj)
      · rintro ⟨k, hk, hx, hxstop, hgo⟩
        cases k with
        | zero =>
          rw [← hx] at hxstop
          exact absurd hxstop hstop
        | succ k =>
          exact ⟨k, Nat.lt_of_succ_lt_succ hk, hx, hxstop,
            fun j hj => hgo (j + 1) (Nat.succ_lt_succ hj)⟩

/-- A loop that comes back to where it is never stops. -/
theorem walk_eq_none_of_fixed {stop : α → Prop} [DecidablePred stop] (h : succ a = a)
    (hgo : ¬ stop a) (fuel : ℕ) : walk succ stop fuel a = none := by
  induction fuel with
  | zero => rfl
  | succ fuel ih => rw [walk, if_neg hgo, h, ih]

/-- Among `n` addresses a loop that stops does so within `n` steps: it meets none of them
twice. -/
theorem walk_eq_of_lt {succ : ℕ → ℕ} {a x n fuel : ℕ} {stop : ℕ → Prop} [DecidablePred stop]
    (ha : a < n) (hsucc : ∀ y, succ y < n) (h : walk succ stop fuel a = some x) :
    walk succ stop n a = some x := by
  obtain ⟨k, -, hx, hstop, hgo⟩ := walk_eq_some_iff.mp h
  refine walk_eq_some_iff.mpr ⟨k, ?_, hx, hstop, hgo⟩
  by_contra hle
  have hmaps : Set.MapsTo (fun j => succ^[j] a) (Finset.range (k + 1)) (Finset.range n) := by
    intro j _
    rw [Finset.mem_coe, Finset.mem_range]
    cases j with
    | zero => exact ha
    | succ j =>
      dsimp only
      rw [Function.iterate_succ_apply']
      exact hsucc _
  have hcard : (Finset.range n).card < (Finset.range (k + 1)).card := by
    rw [Finset.card_range, Finset.card_range]
    omega
  obtain ⟨i, hi, j, hj, hne, heq⟩ := Finset.exists_ne_map_eq_of_card_lt_of_maps_to hcard hmaps
  -- a node met twice would bring the end nearer
  have hearlier : ∀ i j, i < j → j < k + 1 → succ^[i] a = succ^[j] a → False := by
    intro i j hij hjk heq
    refine hgo (k - j + i) (by omega) ?_
    rw [Function.iterate_add_apply, heq, ← Function.iterate_add_apply,
      Nat.sub_add_cancel (by omega),
      hx]
    exact hstop
  rw [Finset.mem_range] at hi hj
  rcases Nat.lt_or_gt_of_ne hne with hlt | hlt
  · exact hearlier i j hlt hj heq
  · exact hearlier j i hlt hi heq.symm

/-- The nodes that the loop comes to. -/
def visited (succ : α → α) (stop : α → Prop) [DecidablePred stop] : ℕ → α → List α
  | 0, _ => []
  | fuel + 1, a => if stop a then [a] else a :: visited succ stop fuel (succ a)

/-- A loop that has stopped comes to no more nodes. -/
theorem visited_mono {stop : α → Prop} [DecidablePred stop] {fuel fuel' : ℕ}
    (h : walk succ stop fuel a = some x) (hle : fuel ≤ fuel') :
    visited succ stop fuel' a = visited succ stop fuel a := by
  induction fuel generalizing a fuel' with
  | zero => exact nomatch h
  | succ fuel ih =>
    obtain ⟨fuel', rfl⟩ := Nat.exists_eq_succ_of_ne_zero (Nat.ne_of_gt (Nat.zero_lt_of_lt hle))
    rw [walk] at h
    rw [visited, visited]
    by_cases hstop : stop a
    · rw [if_pos hstop, if_pos hstop]
    · rw [if_neg hstop] at h
      rw [if_neg hstop, if_neg hstop, ih h (Nat.le_of_succ_le_succ hle)]

/-! ## Edits -/

/-- A path depends on the successors of its nodes only, and its first node can be
replaced by one with the same successor. -/
theorem Path.congr_from (h : Path succ a l z) (ha : succ' m = succ a)
    (hl : ∀ x ∈ l, succ' x = succ x) : Path succ' m l z := by
  induction l generalizing a m with
  | nil => exact ha.trans h
  | cons x l ih =>
    exact ⟨ha.trans h.1, ih h.2 (hl x List.mem_cons_self)
      fun y hy => hl y (List.mem_cons_of_mem x hy)⟩

theorem Path.congr (h : Path succ a l z) (hl : ∀ x ∈ a :: l, succ' x = succ x) :
    Path succ' a l z :=
  h.congr_from (hl a List.mem_cons_self) fun x hx => hl x (List.mem_cons_of_mem a hx)

/-- Link `m` in behind the last node of `a :: s`. -/
theorem Path.insertAfter (h : Path succ a (s ++ t) z) (hnodup : (a :: (s ++ t)).Nodup)
    (hlink : succ' (s.getLastD a) = m) (hnew : succ' m = succ (s.getLastD a))
    (hrest : ∀ x ∈ a :: (s ++ t), x ≠ s.getLastD a → succ' x = succ x) :
    Path succ' a (s ++ m :: t) z := by
  induction s generalizing a with
  | nil =>
    refine ⟨hlink, h.congr_from hnew fun x hx => hrest x (List.mem_cons_of_mem a hx) ?_⟩
    rintro rfl
    exact (List.nodup_cons.mp hnodup).1 hx
  | cons y s ih =>
    obtain ⟨hnotin, hnodup⟩ := List.nodup_cons.mp hnodup
    rw [List.getLastD_cons] at hlink hnew hrest
    have hne : a ≠ s.getLastD y := fun heq => hnotin (heq ▸ getLastD_mem s t y)
    refine ⟨(hrest a List.mem_cons_self hne).trans h.1, ih h.2 hnodup hlink hnew ?_⟩
    exact fun x hx => hrest x (List.mem_cons_of_mem a hx)

/-- Unlink the node behind the last node of `a :: s`. -/
theorem Path.removeAfter (h : Path succ a (s ++ y :: t) z) (hnodup : (a :: (s ++ y :: t)).Nodup)
    (hlink : succ' (s.getLastD a) = succ y)
    (hrest : ∀ x ∈ a :: (s ++ t), x ≠ s.getLastD a → succ' x = succ x) :
    Path succ' a (s ++ t) z := by
  induction s generalizing a with
  | nil =>
    refine h.2.congr_from hlink fun x hx => hrest x (List.mem_cons_of_mem a hx) ?_
    rintro rfl
    exact (List.nodup_cons.mp hnodup).1 (List.mem_cons_of_mem y hx)
  | cons x s ih =>
    obtain ⟨hnotin, hnodup⟩ := List.nodup_cons.mp hnodup
    rw [List.getLastD_cons] at hlink hrest
    have hne : a ≠ s.getLastD x := fun heq => hnotin (heq ▸ getLastD_mem s (y :: t) x)
    refine ⟨(hrest a List.mem_cons_self hne).trans h.1, ih h.2 hnodup hlink ?_⟩
    exact fun w hw => hrest w (List.mem_cons_of_mem a hw)

/-! ## Order -/

section Order

variable [LinearOrder α]

/-- Where a circular list in address order takes a new node `m`: between two nodes, or
at the wrap. -/
def SplicePoint (succ : α → α) (m x : α) : Prop :=
  (x < m ∧ m < succ x) ∨ (succ x ≤ x ∧ (x < m ∨ m < succ x))

instance (succ : α → α) (m : α) : DecidablePred (SplicePoint succ m) := fun _ =>
  inferInstanceAs (Decidable (_ ∨ _))

/-- Along a path in address order every step goes up but the last. -/
theorem Path.lt_succ_or (h : Path succ a l z) (hasc : (a :: l).Pairwise (· < ·))
    (hx : x ∈ a :: l) : x < succ x ∨ succ x = z := by
  induction l generalizing a with
  | nil =>
    rw [List.mem_singleton.mp hx]
    exact .inr h
  | cons y l ih =>
    obtain ⟨hlt, hasc⟩ := List.pairwise_cons.mp hasc
    rcases List.mem_cons.mp hx with rfl | hx
    · exact .inl (h.1 ▸ hlt y List.mem_cons_self)
    · exact ih h.2 hasc hx

/-- A circular list in address order wraps exactly once. -/
theorem Path.countP_wrap (h : Path succ a l z) (hasc : (a :: l).Pairwise (· < ·)) (hz : z ≤ a) :
    (a :: l).countP (fun x => succ x ≤ x) = 1 := by
  induction l generalizing a with
  | nil =>
    have hle : succ a ≤ a := h.symm ▸ hz
    simp [hle]
  | cons y l ih =>
    obtain ⟨hlt, hasc⟩ := List.pairwise_cons.mp hasc
    have hay := hlt y List.mem_cons_self
    have hnle : ¬ succ a ≤ a := h.1.symm ▸ not_le.mpr hay
    rw [List.countP_cons_of_neg (by simpa using hnle)]
    exact ih h.2 hasc (hz.trans hay.le)

/-- A list in address order has one splice point for a new node: the last node below it. -/
theorem Path.splicePoint_iff (h : Path succ a (s ++ t) z)
    (hasc : (a :: (s ++ t)).Pairwise (· < ·)) (hz : z ≤ a) (ham : a < m)
    (hs : ∀ w ∈ s, w < m) (ht : ∀ w ∈ t, m < w) (hx : x ∈ a :: (s ++ t)) :
    SplicePoint succ m x ↔ x = s.getLastD a := by
  induction s generalizing a with
  | nil =>
    rcases List.mem_cons.mp hx with rfl | hxt
    · refine iff_of_true ?_ rfl
      cases t with
      | nil => exact .inr ⟨h.le.trans hz, .inl ham⟩
      | cons y t => exact .inl ⟨ham, h.1.symm ▸ ht y List.mem_cons_self⟩
    · -- past the splice point the nodes are above `m`, and the wrap leads below it
      have hmx := ht x hxt
      refine iff_of_false ?_ (ne_of_gt (ham.trans hmx))
      rintro (⟨hlt, -⟩ | ⟨hle, hlt | hlt⟩)
      · exact absurd hlt hmx.not_gt
      · exact absurd hlt hmx.not_gt
      · rcases h.lt_succ_or hasc hx with hup | heq
        · exact absurd hup hle.not_gt
        · exact absurd (heq ▸ hlt) ((hz.trans ham.le).not_gt)
  | cons y s ih =>
    obtain ⟨hlt, hasc⟩ := List.pairwise_cons.mp hasc
    have hay : a < y := hlt y List.mem_cons_self
    have hym : y < m := hs y List.mem_cons_self
    rw [List.getLastD_cons]
    rcases List.mem_cons.mp hx with rfl | hx
    · -- the next node is still below `m`
      refine iff_of_false ?_ (ne_of_lt (hlt _ (getLastD_mem s t y)))
      rintro (⟨-, hgt⟩ | ⟨hle, -⟩)
      · exact absurd (h.1 ▸ hgt) hym.not_gt
      · exact absurd (h.1 ▸ hle) hay.not_ge
    · exact ih h.2 hasc (hz.trans hay.le) hym (fun w hw => hs w (List.mem_cons_of_mem y hw)) hx

/-- A node below all others goes where the list wraps. -/
theorem Path.splicePoint_iff_of_lt (h : Path succ a l a) (hasc : (a :: l).Pairwise (· < ·))
    (hma : m < a) (hx : x ∈ a :: l) : SplicePoint succ m x ↔ x = l.getLastD a := by
  have hlast : l.getLastD a ∈ a :: l := by
    have hmem := getLastD_mem l [] a
    rwa [List.append_nil] at hmem
  have habove : ∀ y ∈ a :: l, a ≤ y :=
    List.forall_mem_cons.mpr ⟨le_refl a, fun y hy => ((List.pairwise_cons.mp hasc).1 y hy).le⟩
  constructor
  · rintro (⟨hxm, -⟩ | ⟨hwrap, -⟩)
    · exact absurd (habove x hx) (not_le.mpr (hxm.trans hma))
    · -- the list wraps at its last node only
      refine h.injOn (hasc.imp ne_of_lt) hx hlast ?_
      rw [h.succ_last]
      exact (h.lt_succ_or hasc hx).resolve_left hwrap.not_gt
  · rintro rfl
    rw [SplicePoint, h.succ_last]
    exact .inr ⟨habove _ hlast, .inr hma⟩

/-- A list in ascending order has one place for a new element. -/
theorem exists_split_at (hasc : l.Pairwise (· < ·)) (hm : m ∉ l) :
    ∃ s t, l = s ++ t ∧ (∀ w ∈ s, w < m) ∧ ∀ w ∈ t, m < w := by
  induction l with
  | nil => exact ⟨[], [], rfl, by simp, by simp⟩
  | cons y l ih =>
    obtain ⟨hlt, hasc⟩ := List.pairwise_cons.mp hasc
    obtain ⟨hne, hm⟩ := List.ne_and_not_mem_of_not_mem_cons hm
    rcases lt_or_gt_of_ne hne with hmy | hym
    · refine ⟨[], y :: l, rfl, by simp, List.forall_mem_cons.mpr ⟨hmy, fun w hw => ?_⟩⟩
      exact hmy.trans (hlt w hw)
    · obtain ⟨s, t, rfl, hs, ht⟩ := ih hasc hm
      exact ⟨y :: s, t, rfl, List.forall_mem_cons.mpr ⟨hym, hs⟩, ht⟩

/-- A circular list in address order has one splice point for a new node. -/
theorem Path.exists_splicePoint (h : Path succ a l a) (hasc : (a :: l).Pairwise (· < ·))
    (hm : m ∉ a :: l) : ∃ z ∈ a :: l, ∀ x ∈ a :: l, SplicePoint succ m x ↔ x = z := by
  obtain ⟨hne, hml⟩ := List.ne_and_not_mem_of_not_mem_cons hm
  rcases lt_or_gt_of_ne hne with hlt | hgt
  · refine ⟨l.getLastD a, ?_, fun x hx => h.splicePoint_iff_of_lt hasc hlt hx⟩
    have hmem := getLastD_mem l [] a
    rwa [List.append_nil] at hmem
  · obtain ⟨s, t, rfl, hs, ht⟩ := exists_split_at (List.pairwise_cons.mp hasc).2 hml
    exact ⟨s.getLastD a, getLastD_mem s t a, fun x hx =>
      h.splicePoint_iff hasc (le_refl a) hgt hs ht hx⟩

/-! ## One wrap -/

/-- A circular list that goes up from each node to the next, but for one place. -/
structure OneWrap (succ : α → α) (a : α) (l : List α) : Prop where
  /-- from `a` through `l` back to `a` -/
  circular : Path succ a l a
  /-- the one place -/
  wraps : (a :: l).countP (fun x => succ x ≤ x) = 1

/-- The successors with `m` linked in behind `x`. -/
def insertAfter (succ : α → α) (x m : α) : α → α :=
  Function.update (Function.update succ m (succ x)) x m

theorem insertAfter_self (succ : α → α) (x m : α) : insertAfter succ x m x = m :=
  Function.update_self _ _ _

theorem insertAfter_new (succ : α → α) (h : m ≠ x) : insertAfter succ x m m = succ x := by
  rw [insertAfter, Function.update_of_ne h, Function.update_self]

theorem insertAfter_of_ne (succ : α → α) (hx : y ≠ x) (hm : y ≠ m) :
    insertAfter succ x m y = succ y := by
  rw [insertAfter, Function.update_of_ne hx, Function.update_of_ne hm]

/-- Where every step goes up, the path is in order. -/
theorem Path.pairwise_of_lt (h : Path succ a l z) (hlt : ∀ x ∈ a :: l, x < succ x) :
    (a :: (l ++ [z])).Pairwise (· < ·) := by
  induction l generalizing a with
  | nil =>
    have haz : a < z := h ▸ hlt a List.mem_cons_self
    exact List.pairwise_pair.mpr haz
  | cons y l ih =>
    have hay : a < y := h.1 ▸ hlt a List.mem_cons_self
    have htail := ih h.2 fun x hx => hlt x (List.mem_cons_of_mem a hx)
    refine List.pairwise_cons.mpr ⟨fun x hx => ?_, htail⟩
    rcases List.mem_cons.mp hx with rfl | hx
    · exact hay
    · exact hay.trans ((List.pairwise_cons.mp htail).1 x hx)

/-- At a splice point a node is linked in without another wrap. -/
theorem countP_insertAfter (hnodup : l.Nodup) (hx : x ∈ l) (hm : m ∉ l)
    (hsplice : SplicePoint succ m x) :
    (m :: l).countP (fun y => insertAfter succ x m y ≤ y) =
      l.countP (fun y => succ y ≤ y) := by
  have hmx : m ≠ x := fun heq => hm (heq ▸ hx)
  have herase := List.perm_cons_erase hx
  -- only `x` and `m` count otherwise than before
  have hothers : (l.erase x).countP (fun y => insertAfter succ x m y ≤ y) =
      (l.erase x).countP (fun y => succ y ≤ y) := by
    refine List.countP_congr fun y hy => ?_
    obtain ⟨hyx, hy⟩ := hnodup.mem_erase_iff.mp hy
    have hym : y ≠ m := fun heq => hm (heq ▸ hy)
    rw [insertAfter_of_ne succ hyx hym]
  rw [List.countP_cons, herase.countP_eq, List.countP_cons, hothers, herase.countP_eq,
    List.countP_cons, insertAfter_self, insertAfter_new succ hmx]
  rcases hsplice with ⟨hxm, hms⟩ | ⟨hwrap, hxm | hms⟩
  · simp [(hxm.trans hms).not_ge, hxm.not_ge, hms.not_ge]
  · simp [hwrap, hxm.not_ge, hwrap.trans hxm.le]
  · simp [hwrap, hms.not_ge, (hms.trans_le hwrap).le]

namespace OneWrap

variable (h : OneWrap succ a l)
include h

theorem rotate (hb : b ∈ a :: l) : ∃ r, OneWrap succ b r ∧ (b :: r).Perm (a :: l) := by
  obtain ⟨r, hpath, hperm⟩ := h.circular.rotate hb
  exact ⟨r, ⟨hpath, hperm.countP_eq _ ▸ h.wraps⟩, hperm⟩

/-- From behind the wrap on the list is in order. -/
theorem exists_ascending :
    ∃ b r, Path succ b r b ∧ (b :: r).Pairwise (· < ·) ∧ (b :: r).Perm (a :: l) := by
  obtain ⟨w, hw, hwrap⟩ := List.countP_pos_iff.mp (h.wraps ▸ Nat.one_pos)
  obtain ⟨r, hr, hperm⟩ := h.rotate hw
  have hrest : r.countP (fun x => succ x ≤ x) = 0 := by
    have hcount := hr.wraps
    rw [List.countP_cons, if_pos hwrap] at hcount
    exact Nat.succ_injective hcount
  cases r with
  | nil => exact ⟨w, [], hr.circular, List.pairwise_singleton _ w, hperm⟩
  | cons y t =>
    obtain ⟨hnext, hpath⟩ := hr.circular
    have hlt : ∀ x ∈ y :: t, x < succ x := fun x hx => by
      have hnot := List.countP_eq_zero.mp hrest x hx
      exact not_le.mp fun hle => hnot (decide_eq_true hle)
    exact ⟨y, t ++ [w], path_append.mpr ⟨hpath, hnext⟩, hpath.pairwise_of_lt hlt,
      (List.perm_append_singleton w (y :: t)).trans hperm⟩

theorem nodup : (a :: l).Nodup := by
  obtain ⟨b, r, -, hasc, hperm⟩ := h.exists_ascending
  exact hperm.nodup_iff.mp (hasc.imp ne_of_lt)

/-- There is one splice point for a new node. -/
theorem exists_splicePoint (hm : m ∉ a :: l) :
    ∃ z ∈ a :: l, ∀ x ∈ a :: l, SplicePoint succ m x ↔ x = z := by
  obtain ⟨b, r, hpath, hasc, hperm⟩ := h.exists_ascending
  obtain ⟨z, hz, huniq⟩ := hpath.exists_splicePoint hasc (hperm.mem_iff.not.mpr hm)
  exact ⟨z, hperm.mem_iff.mp hz, fun x hx => huniq x (hperm.mem_iff.mpr hx)⟩

/-- The loop finds it in one round, from wherever it starts. -/
theorem walk_splicePoint (hb : b ∈ a :: l) (hm : m ∉ a :: l) :
    ∃ z ∈ a :: l, SplicePoint succ m z ∧
      walk succ (SplicePoint succ m) (l.length + 1) b = some z := by
  obtain ⟨z, hz, huniq⟩ := h.exists_splicePoint hm
  obtain ⟨r, hr, hperm⟩ := h.rotate hb
  have hlength : r.length = l.length := Nat.succ_injective hperm.length_eq
  refine ⟨z, hz, (huniq z hz).mpr rfl, ?_⟩
  exact hr.circular.walk_eq (hperm.mem_iff.mpr hz) (fun y hy => huniq y (hperm.mem_iff.mp hy))
    (by omega)

/-- And the node can be linked in there. -/
theorem insertAfter (hx : x ∈ a :: l) (hsplice : SplicePoint succ m x) (hm : m ∉ a :: l) :
    ∃ l', OneWrap (insertAfter succ x m) a l' ∧ (a :: l').Perm (m :: a :: l) := by
  have hmx : m ≠ x := fun heq => hm (heq ▸ hx)
  have hkept : ∀ y ∈ a :: l, y ≠ x → MissyKernel.insertAfter succ x m y = succ y := fun y hy hyx =>
    insertAfter_of_ne succ hyx fun heq => hm (heq ▸ hy)
  obtain ⟨s, t, rfl, rfl⟩ := exists_split_behind hx
  have hperm : (a :: (s ++ m :: t)).Perm (m :: a :: (s ++ t)) :=
    show ((a :: s) ++ m :: t).Perm (m :: ((a :: s) ++ t)) from List.perm_middle
  refine ⟨s ++ m :: t, ⟨?_, ?_⟩, hperm⟩
  · exact h.circular.insertAfter h.nodup (insertAfter_self succ _ m)
      (insertAfter_new succ hmx) hkept
  · rw [hperm.countP_eq, countP_insertAfter h.nodup hx hm hsplice, h.wraps]

end OneWrap

/-- It depends on the successors of the nodes only. -/
theorem OneWrap.congr (h : OneWrap succ a l) (hl : ∀ x ∈ a :: l, succ' x = succ x) :
    OneWrap succ' a l := by
  refine ⟨h.circular.congr hl, ?_⟩
  rw [← h.wraps]
  exact List.countP_congr fun x hx => by rw [hl x hx]

/-- A circular list in address order wraps once. -/
theorem oneWrap_of_ascending (h : Path succ a l a) (hasc : (a :: l).Pairwise (· < ·)) :
    OneWrap succ a l :=
  ⟨h, h.countP_wrap hasc (le_refl a)⟩

end Order

end MissyKernel
