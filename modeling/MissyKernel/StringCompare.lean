import Mathlib.Data.BitVec
import Mathlib.Tactic
import MissyKernel.MemoryObject

/-!
# Comparing memory and strings (`compare.c`)

The three functions walk over two objects at once and answer the difference of the bytes where
they stop. `char` is signed, so that the difference has the sign of the comparison only if both
bytes are below 128 or both are not.

They stop in the right place if there is one to stop at. `memcmp` never counts its length down and
walks on over equal bytes; `strncmp` does count, but takes the byte behind the last one for the
answer. To ask what a function reads, it is given objects of just the bytes that it may read.

An answer is right if it has the sign of the comparison of the two lists of bytes, in alphabetic
order and with unsigned bytes (`AnswerFor`). `memcmpLoop_eq` and `strncmpLoop_eq` say what the
loops answer where there is a first difference or end, `memcmpLoop_of_eq` and
`strncmpLoop_of_not_stops` where there is none; both conditions of the result are exact.
-/

namespace MissyKernel

/-! ## The functions -/

/-- `(int) (*mem1 - *mem2)` -/
def difference (mem1 mem2 : List (BitVec 8)) (i : ℕ) : Except Fault ℤ := do
  let char1 ← load mem1 i
  let char2 ← load mem2 i
  pure (char1.toInt - char2.toInt)

/-- The loop of `memcmp`, which leaves `len` as it is: where it stops. -/
def memcmpLoop (mem1 mem2 : List (BitVec 8)) (len : ℕ) : ℕ → ℕ → Except Fault ℕ
  | 0, _ => .error .turns
  | turns + 1, i =>
    if 0 < len then do
      let char1 ← load mem1 i
      let char2 ← load mem2 i
      if char1 ≠ char2 then pure i else memcmpLoop mem1 mem2 len turns (i + 1)
    else pure i

/-- `memcmp` -/
def memcmp (turns : ℕ) (mem1 mem2 : List (BitVec 8)) (len : ℕ) : Except Fault ℤ := do
  let i ← memcmpLoop mem1 mem2 len turns 0
  difference mem1 mem2 i

/-- The loop of `strcmp`. -/
def strcmpLoop (str1 str2 : List (BitVec 8)) : ℕ → ℕ → Except Fault ℕ
  | 0, _ => .error .turns
  | turns + 1, i => do
    let char1 ← load str1 i
    if char1 = 0 then pure i
    else
      let char2 ← load str2 i
      if char2 = 0 then pure i
      else if char1 ≠ char2 then pure i else strcmpLoop str1 str2 turns (i + 1)

/-- `strcmp` -/
def strcmp (turns : ℕ) (str1 str2 : List (BitVec 8)) : Except Fault ℤ := do
  let i ← strcmpLoop str1 str2 turns 0
  difference str1 str2 i

/-- The loop of `strncmp`. The length is looked at behind the two bytes. -/
def strncmpLoop (str1 str2 : List (BitVec 8)) : ℕ → ℕ → ℕ → Except Fault ℕ
  | 0, _, _ => .error .turns
  | turns + 1, length, i => do
    let char1 ← load str1 i
    if char1 = 0 then pure i
    else
      let char2 ← load str2 i
      if char2 = 0 then pure i
      else if length = 0 then pure i
      else if char1 ≠ char2 then pure i
      else strncmpLoop str1 str2 turns (length - 1) (i + 1)

/-- `strncmp` -/
def strncmp (turns : ℕ) (str1 str2 : List (BitVec 8)) (length : ℕ) : Except Fault ℤ := do
  let i ← strncmpLoop str1 str2 turns length 0
  difference str1 str2 i

/-! ## What they are to answer -/

/-- The answer has the sign of the comparison of two lists of bytes, which are unsigned. -/
structure AnswerFor (answer : ℤ) (l l' : List (BitVec 8)) : Prop where
  /-- negative where the first comes first -/
  neg : answer < 0 ↔ l < l'
  /-- zero where they are equal -/
  zero : answer = 0 ↔ l = l'
  /-- positive where the second comes first -/
  pos : 0 < answer ↔ l' < l

/-- The bytes of a string that may be read: up to its terminator. -/
def upToNul : List (BitVec 8) → List (BitVec 8)
  | [] => []
  | c :: l => if c = 0 then [c] else c :: upToNul l

/-- The bytes of a string in front of its terminator. -/
def cutAtNul (l : List (BitVec 8)) : List (BitVec 8) := l.takeWhile (· ≠ 0)

/-- `memcmp` is right on `n` bytes: it reads no others, and its answer compares them. -/
def MemcmpRight (a b : ℕ → BitVec 8) (n : ℕ) : Prop :=
  ∃ turns answer, memcmp turns (window a n) (window b n) n = .ok answer ∧
    AnswerFor answer (window a n) (window b n)

/-- `strncmp` is right on `n` bytes: it reads no others and none behind a terminator, and its
answer compares what is in front of it. -/
def StrncmpRight (a b : ℕ → BitVec 8) (n : ℕ) : Prop :=
  ∃ turns answer, strncmp turns (upToNul (window a n)) (upToNul (window b n)) n = .ok answer ∧
    AnswerFor answer (cutAtNul (window a n)) (cutAtNul (window b n))

/-- Two strings have come to an end at an index, or to a difference. -/
def Stops (a b : ℕ → BitVec 8) (i : ℕ) : Prop := a i = 0 ∨ b i = 0 ∨ a i ≠ b i

/-- The first index below `n` where it holds. -/
structure FirstBelow (n : ℕ) (p : ℕ → Prop) (k : ℕ) : Prop where
  /-- below -/
  lt : k < n
  /-- there it holds -/
  holds : p k
  /-- and nowhere in front of it -/
  least : ∀ i < k, ¬ p i

variable {a b : ℕ → BitVec 8} {c c' : BitVec 8} {l l' rest rest' front : List (BitVec 8)}
  {n k i turns : ℕ}

theorem exists_firstBelow (n : ℕ) (p : ℕ → Prop) :
    (∃ k, FirstBelow n p k) ∨ ∀ i < n, ¬ p i := by
  induction n with
  | zero => exact .inr fun i hi => absurd hi (Nat.not_lt_zero i)
  | succ n ih =>
    obtain ⟨k, hk⟩ | hnone := ih
    · exact .inl ⟨k, Nat.lt_succ_of_lt hk.lt, hk.holds, hk.least⟩
    · by_cases hn : p n
      · exact .inl ⟨n, Nat.lt_succ_self n, hn, hnone⟩
      · refine .inr fun i hi => ?_
        rcases Nat.lt_succ_iff_lt_or_eq.mp hi with hlt | rfl
        · exact hnone i hlt
        · exact hn

/-- A function that answers at the first index where it holds, and not at all without one, is
right exactly if there is one and the answer there is. -/
theorem answers_iff {p : ℕ → Prop} {run : ℕ → Except Fault ℤ} {value : ℕ → ℤ} {right : ℤ → Prop}
    (hrun : ∀ k turns, FirstBelow n p k →
      run turns = if k < turns then .ok (value k) else .error .turns)
    (hnone : (∀ i < n, ¬ p i) → ∀ turns, ∃ fault, run turns = .error fault) :
    (∃ turns answer, run turns = .ok answer ∧ right answer) ↔
      ∃ k, FirstBelow n p k ∧ right (value k) := by
  constructor
  · rintro ⟨turns, answer, hok, hanswer⟩
    obtain ⟨k, hk⟩ | hall := exists_firstBelow n p
    · rw [hrun k turns hk] at hok
      split at hok
      · rw [Except.ok.injEq] at hok
        exact ⟨k, hk, hok ▸ hanswer⟩
      · cases hok
    · obtain ⟨fault, herror⟩ := hnone hall turns
      rw [herror] at hok
      cases hok
  · rintro ⟨k, hk, hright⟩
    exact ⟨k + 1, _, (hrun k (k + 1) hk).trans (if_pos (Nat.lt_succ_self k)), hright⟩

/-! ## Signs -/

theorem append_lt_append_iff (front rest rest' : List (BitVec 8)) :
    front ++ rest < front ++ rest' ↔ rest < rest' := by
  induction front with
  | nil => exact Iff.rfl
  | cons c front ih =>
    rw [List.cons_append, List.cons_append, List.cons_lt_cons_iff, ih]
    have hirrefl : ¬ c < c := BitVec.lt_irrefl c
    simp only [hirrefl, true_and, false_or]

/-- Two lists that are the same up to some place compare as the bytes there, and the difference of
these has the sign exactly if their top bits are equal. -/
theorem answerFor_difference_iff (hlt : rest < rest' ↔ c < c') (heq : rest = rest' ↔ c = c')
    (hgt : rest' < rest ↔ c' < c) :
    AnswerFor (c.toInt - c'.toInt) (front ++ rest) (front ++ rest') ↔ c.msb = c'.msb := by
  have hmsb : c.msb = c'.msb ↔ (128 ≤ c.toNat ↔ 128 ≤ c'.toNat) := by
    rw [BitVec.msb_eq_decide, BitVec.msb_eq_decide]
    exact decide_eq_decide
  have hc := c.isLt
  have hc' := c'.isLt
  rw [BitVec.lt_def] at hlt hgt
  rw [← BitVec.toNat_inj] at heq
  have hanswer : AnswerFor (c.toInt - c'.toInt) (front ++ rest) (front ++ rest') ↔
      (c.toInt - c'.toInt < 0 ↔ c.toNat < c'.toNat) ∧
        (c.toInt - c'.toInt = 0 ↔ c.toNat = c'.toNat) ∧
          (0 < c.toInt - c'.toInt ↔ c'.toNat < c.toNat) := by
    rw [← hlt, ← heq, ← hgt, ← append_lt_append_iff front, ← append_lt_append_iff front rest',
      ← List.append_cancel_left_eq front rest rest']
    exact ⟨fun h => ⟨h.neg, h.zero, h.pos⟩, fun h => ⟨h.1, h.2.1, h.2.2⟩⟩
  rw [hanswer, hmsb, BitVec.toInt_eq_toNat_cond, BitVec.toInt_eq_toNat_cond]
  split_ifs <;> omega

/-- As lists they compare by the bytes at the first difference. -/
theorem answerFor_of_ne (hne : c ≠ c') :
    AnswerFor (c.toInt - c'.toInt) (front ++ c :: rest) (front ++ c' :: rest') ↔
      c.msb = c'.msb := by
  refine answerFor_difference_iff ?_ ?_ ?_
  · rw [List.cons_lt_cons_iff]
    exact or_iff_left fun h => hne h.1
  · rw [List.cons.injEq]
    exact and_iff_left_of_imp fun h => absurd h hne
  · rw [List.cons_lt_cons_iff]
    exact or_iff_left fun h => hne h.1.symm

@[simp] theorem cutAtNul_nul (l : List (BitVec 8)) : cutAtNul (0 :: l) = [] := rfl

theorem cutAtNul_cons (hc : c ≠ 0) (l : List (BitVec 8)) :
    cutAtNul (c :: l) = c :: cutAtNul l :=
  List.takeWhile_cons_of_pos (decide_eq_true hc)

theorem cutAtNul_lt_iff (h : c = 0 ∨ c' = 0 ∨ c ≠ c') :
    cutAtNul (c :: rest) < cutAtNul (c' :: rest') ↔ c < c' := by
  by_cases hc' : c' = 0
  · rw [hc', cutAtNul_nul]
    exact iff_of_false (List.not_lt_nil _) (Nat.not_lt_zero c.toNat)
  by_cases hc : c = 0
  · rw [hc, cutAtNul_nul, cutAtNul_cons hc']
    exact iff_of_true (List.nil_lt_cons _ _)
      (Nat.pos_of_ne_zero fun hzero => hc' (BitVec.eq_of_toNat_eq hzero))
  · have hne : c ≠ c' := (h.resolve_left hc).resolve_left hc'
    rw [cutAtNul_cons hc, cutAtNul_cons hc', List.cons_lt_cons_iff]
    exact or_iff_left fun heq => hne heq.1

theorem cutAtNul_eq_iff (h : c = 0 ∨ c' = 0 ∨ c ≠ c') :
    cutAtNul (c :: rest) = cutAtNul (c' :: rest') ↔ c = c' := by
  by_cases hc : c = 0
  · by_cases hc' : c' = 0
    · rw [hc, hc', cutAtNul_nul, cutAtNul_nul]
      exact iff_of_true rfl rfl
    · rw [hc, cutAtNul_nul, cutAtNul_cons hc']
      exact iff_of_false (List.cons_ne_nil _ _).symm (Ne.symm hc')
  · by_cases hc' : c' = 0
    · rw [hc', cutAtNul_nul, cutAtNul_cons hc]
      exact iff_of_false (List.cons_ne_nil _ _) hc
    · have hne : c ≠ c' := (h.resolve_left hc).resolve_left hc'
      rw [cutAtNul_cons hc, cutAtNul_cons hc', List.cons.injEq]
      exact and_iff_left_of_imp fun heq => absurd heq hne

/-- And as strings, where one of them may end there. -/
theorem answerFor_cutAtNul (h : c = 0 ∨ c' = 0 ∨ c ≠ c') :
    AnswerFor (c.toInt - c'.toInt) (front ++ cutAtNul (c :: rest))
      (front ++ cutAtNul (c' :: rest')) ↔ c.msb = c'.msb := by
  have h' : c' = 0 ∨ c = 0 ∨ c' ≠ c := by
    rcases h with hc | hc' | hne
    · exact .inr (.inl hc)
    · exact .inl hc'
    · exact .inr (.inr hne.symm)
  exact answerFor_difference_iff (cutAtNul_lt_iff h) (cutAtNul_eq_iff h) (cutAtNul_lt_iff h')

/-! ## `memcmp` -/

/-- It stops at the first difference. -/
theorem memcmpLoop_eq (h : FirstBelow n (fun i => a i ≠ b i) k) (hi : i ≤ k) :
    memcmpLoop (window a n) (window b n) n turns i =
      if k - i < turns then .ok k else .error .turns := by
  have hlt := h.lt
  induction turns generalizing i with
  | zero => rw [memcmpLoop, if_neg (Nat.not_lt_zero _)]
  | succ turns ih =>
    rw [memcmpLoop, if_pos (by omega), load_window (by omega), except_ok_bind,
      load_window (by omega), except_ok_bind]
    rcases Nat.lt_or_eq_of_le hi with hbefore | rfl
    · rw [if_neg (h.least i hbefore), ih hbefore]
      exact ite_congr (by rw [eq_iff_iff]; omega) (fun _ => rfl) fun _ => rfl
    · rw [if_pos h.holds, if_pos (by omega)]
      rfl

/-- Over equal bytes it runs behind the last one. -/
theorem memcmpLoop_of_eq (hn : 0 < n) (heq : ∀ i < n, ¬ a i ≠ b i) (hi : i ≤ n) (turns : ℕ) :
    ∃ fault, memcmpLoop (window a n) (window b n) n turns i = .error fault := by
  induction turns generalizing i with
  | zero => exact ⟨.turns, rfl⟩
  | succ turns ih =>
    rw [memcmpLoop, if_pos hn]
    rcases Nat.lt_or_eq_of_le hi with hbefore | rfl
    · rw [load_window hbefore, except_ok_bind, load_window hbefore, except_ok_bind,
        if_neg (heq i hbefore)]
      exact ih hbefore
    · exact ⟨.outside, by rw [load_window_of_le (le_refl i), except_error_bind]⟩

theorem memcmp_of_eq (heq : ∀ i < n, ¬ a i ≠ b i) (turns : ℕ) :
    ∃ fault, memcmp turns (window a n) (window b n) n = .error fault := by
  rw [memcmp]
  rcases Nat.eq_zero_or_pos n with rfl | hn
  · -- without a turn, and the first bytes are read all the same
    cases turns with
    | zero => exact ⟨.turns, rfl⟩
    | succ turns => exact ⟨.outside, rfl⟩
  · obtain ⟨fault, hloop⟩ := memcmpLoop_of_eq hn heq (Nat.zero_le n) turns
    exact ⟨fault, by rw [hloop, except_error_bind]⟩

theorem memcmp_eq (h : FirstBelow n (fun i => a i ≠ b i) k) (turns : ℕ) :
    memcmp turns (window a n) (window b n) n =
      if k < turns then .ok ((a k).toInt - (b k).toInt) else .error .turns := by
  rw [memcmp, memcmpLoop_eq h (Nat.zero_le k), Nat.sub_zero]
  by_cases hturns : k < turns
  · rw [if_pos hturns, if_pos hturns, except_ok_bind, difference, load_window h.lt,
      except_ok_bind, load_window h.lt, except_ok_bind]
    rfl
  · rw [if_neg hturns, if_neg hturns, except_error_bind]

/-- `memcmp` is right if the bytes differ, and are of the same sign at the first difference. -/
theorem memcmpRight_iff (a b : ℕ → BitVec 8) (n : ℕ) :
    MemcmpRight a b n ↔
      ∃ k, FirstBelow n (fun i => a i ≠ b i) k ∧ (a k).msb = (b k).msb := by
  refine (answers_iff (fun k turns hk => memcmp_eq hk turns) memcmp_of_eq).trans
    (exists_congr fun k => and_congr_right fun hk => ?_)
  have hfront : window a k = window b k := window_congr fun i hi => not_not.mp (hk.least i hi)
  rw [window_split (b := a) hk.lt, window_split (b := b) hk.lt, hfront]
  exact answerFor_of_ne hk.holds

/-! ## `strncmp` -/

theorem upToNul_append (h : ∀ c ∈ front, c ≠ 0) (l : List (BitVec 8)) :
    upToNul (front ++ l) = front ++ upToNul l := by
  induction front with
  | nil => rfl
  | cons c front ih =>
    obtain ⟨hc, hfront⟩ := List.forall_mem_cons.mp h
    rw [List.cons_append, upToNul, if_neg hc, ih hfront, List.cons_append]

theorem forall_mem_window {p : BitVec 8 → Prop} (h : ∀ i < n, p (a i)) : ∀ c ∈ window a n, p c := by
  intro c hc
  obtain ⟨i, hi, rfl⟩ := List.mem_map.mp hc
  exact h i (List.mem_range.mp hi)

/-- Up to the terminator the bytes may be read, and it too. -/
theorem load_upToNul (h : ∀ i < k, a i ≠ 0) (hk : k < n) :
    load (upToNul (window a n)) k = .ok (a k) := by
  have htail : ∃ l, upToNul (a k :: window (fun i => a (k + 1 + i)) (n - (k + 1))) = a k :: l := by
    rw [upToNul]
    split
    · exact ⟨_, rfl⟩
    · exact ⟨_, rfl⟩
  obtain ⟨l, hl⟩ := htail
  rw [window_split hk, upToNul_append (forall_mem_window h), hl]
  have hdrop : (window a k ++ a k :: l).drop k = a k :: l := by
    rw [List.drop_append_of_le_length (length_window a k).ge,
      List.drop_eq_nil_of_le (length_window a k).le, List.nil_append]
  exact load_of_drop hdrop

/-- No byte of a string without a terminator is one. -/
theorem upToNul_window (h : ∀ i < n, a i ≠ 0) : upToNul (window a n) = window a n := by
  have happend := upToNul_append (forall_mem_window h) []
  rwa [List.append_nil, upToNul, List.append_nil] at happend

theorem ne_zero_of_not_stops (h : ¬ Stops a b i) : a i ≠ 0 ∧ b i ≠ 0 ∧ a i = b i := by
  obtain ⟨ha, hrest⟩ := not_or.mp h
  obtain ⟨hb, heq⟩ := not_or.mp hrest
  exact ⟨ha, hb, not_not.mp heq⟩

/-- It stops at the first end or difference. -/
theorem strncmpLoop_eq (h : FirstBelow n (Stops a b) k) (hi : i ≤ k) (turns : ℕ) :
    strncmpLoop (upToNul (window a n)) (upToNul (window b n)) turns (n - i) i =
      if k - i < turns then .ok k else .error .turns := by
  have hlt := h.lt
  have hfront := fun j hj => ne_zero_of_not_stops (h.least j hj)
  induction turns generalizing i with
  | zero => rw [strncmpLoop, if_neg (Nat.not_lt_zero _)]
  | succ turns ih =>
    have hload1 := load_upToNul (a := a) (n := n) (fun j hj => (hfront j (by omega)).1)
      (show i < n by omega)
    have hload2 := load_upToNul (a := b) (n := n) (fun j hj => (hfront j (by omega)).2.1)
      (show i < n by omega)
    rw [strncmpLoop, hload1, except_ok_bind]
    rcases Nat.lt_or_eq_of_le hi with hbefore | rfl
    · obtain ⟨ha, hb, heq⟩ := hfront i hbefore
      rw [if_neg ha, hload2, except_ok_bind, if_neg hb, if_neg (by omega),
        if_neg (not_not.mpr heq), Nat.sub_sub, ih hbefore]
      exact ite_congr (by rw [eq_iff_iff]; omega) (fun _ => rfl) fun _ => rfl
    · rw [if_pos (show i - i < turns + 1 by omega)]
      by_cases ha : a i = 0
      · rw [if_pos ha]
        rfl
      rw [if_neg ha, hload2, except_ok_bind]
      by_cases hb : b i = 0
      · rw [if_pos hb]
        rfl
      rw [if_neg hb, if_neg (by omega), if_pos ((h.holds.resolve_left ha).resolve_left hb)]
      rfl

/-- Where there is none it takes the next byte. -/
theorem strncmpLoop_of_not_stops (h : ∀ i < n, ¬ Stops a b i) (hi : i ≤ n) (turns : ℕ) :
    ∃ fault, strncmpLoop (upToNul (window a n)) (upToNul (window b n)) turns (n - i) i =
      .error fault := by
  have hall := fun i hi => ne_zero_of_not_stops (h i hi)
  rw [upToNul_window fun i hi => (hall i hi).1, upToNul_window fun i hi => (hall i hi).2.1]
  induction turns generalizing i with
  | zero => exact ⟨.turns, rfl⟩
  | succ turns ih =>
    rw [strncmpLoop]
    rcases Nat.lt_or_eq_of_le hi with hbefore | rfl
    · obtain ⟨ha, hb, heq⟩ := hall i hbefore
      rw [load_window hbefore, except_ok_bind, if_neg ha, load_window hbefore, except_ok_bind,
        if_neg hb, if_neg (by omega), if_neg (not_not.mpr heq), Nat.sub_sub]
      exact ih hbefore
    · exact ⟨.outside, by rw [load_window_of_le (le_refl i), except_error_bind]⟩

theorem cutAtNul_append (h : ∀ c ∈ front, c ≠ 0) (l : List (BitVec 8)) :
    cutAtNul (front ++ l) = front ++ cutAtNul l :=
  List.takeWhile_append_of_pos fun c hc => decide_eq_true (h c hc)

theorem strncmp_of_not_stops (h : ∀ i < n, ¬ Stops a b i) (turns : ℕ) :
    ∃ fault, strncmp turns (upToNul (window a n)) (upToNul (window b n)) n = .error fault := by
  obtain ⟨fault, hloop⟩ := strncmpLoop_of_not_stops h (Nat.zero_le n) turns
  rw [Nat.sub_zero] at hloop
  exact ⟨fault, by rw [strncmp, hloop, except_error_bind]⟩

theorem strncmp_eq (h : FirstBelow n (Stops a b) k) (turns : ℕ) :
    strncmp turns (upToNul (window a n)) (upToNul (window b n)) n =
      if k < turns then .ok ((a k).toInt - (b k).toInt) else .error .turns := by
  have hfront := fun i hi => ne_zero_of_not_stops (h.least i hi)
  have hloop := strncmpLoop_eq h (Nat.zero_le k) turns
  rw [Nat.sub_zero, Nat.sub_zero] at hloop
  rw [strncmp, hloop]
  by_cases hturns : k < turns
  · rw [if_pos hturns, if_pos hturns, except_ok_bind, difference,
      load_upToNul (fun i hi => (hfront i hi).1) h.lt, except_ok_bind,
      load_upToNul (fun i hi => (hfront i hi).2.1) h.lt, except_ok_bind]
    rfl
  · rw [if_neg hturns, if_neg hturns, except_error_bind]

/-- `strncmp` is right if one of the strings ends or they differ within the length, and the bytes
there are of the same sign. -/
theorem strncmpRight_iff (a b : ℕ → BitVec 8) (n : ℕ) :
    StrncmpRight a b n ↔ ∃ k, FirstBelow n (Stops a b) k ∧ (a k).msb = (b k).msb := by
  refine (answers_iff (fun k turns hk => strncmp_eq hk turns) strncmp_of_not_stops).trans
    (exists_congr fun k => and_congr_right fun hk => ?_)
  have hfront := fun i hi => ne_zero_of_not_stops (hk.least i hi)
  have hsame : window a k = window b k := window_congr fun i hi => (hfront i hi).2.2
  have hnonzero := forall_mem_window (p := (· ≠ 0)) fun i hi => (hfront i hi).2.1
  rw [window_split (b := a) hk.lt, window_split (b := b) hk.lt, hsame,
    cutAtNul_append hnonzero, cutAtNul_append hnonzero]
  exact answerFor_cutAtNul hk.holds

/-- **When the comparisons are right.** Both need a place within the length where to stop, and
bytes of the same sign there.

At the place where they stop, the difference of two bytes of the same sign has the sign of their
comparison; with different signs it has the other one. Without such a place they read on behind the
bytes that they may read. -/
theorem compares_right_iff (a b : ℕ → BitVec 8) (n : ℕ) :
    (MemcmpRight a b n ↔
      ∃ k, FirstBelow n (fun i => a i ≠ b i) k ∧ (a k).msb = (b k).msb) ∧
    (StrncmpRight a b n ↔ ∃ k, FirstBelow n (Stops a b) k ∧ (a k).msb = (b k).msb) :=
  ⟨memcmpRight_iff a b n, strncmpRight_iff a b n⟩

/-- Equal bytes, and strings that are equal as far as they are compared. -/
theorem equal_not_right : ¬ MemcmpRight (fun _ => 0x61) (fun _ => 0x61) 1 ∧
    ¬ StrncmpRight (fun _ => 0x61) (fun i => if i = 0 then 0x61 else 0x62) 1 := by
  rw [memcmpRight_iff, strncmpRight_iff]
  constructor
  · rintro ⟨k, hk, -⟩
    exact hk.holds rfl
  · rintro ⟨k, hk, -⟩
    obtain rfl : k = 0 := Nat.lt_one_iff.mp hk.lt
    exact absurd hk.holds (by simp [Stops])

end MissyKernel
