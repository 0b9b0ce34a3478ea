import Mathlib.Data.Nat.Bitwise
import Mathlib.Data.Finset.Card
import Mathlib.Tactic

/-!
# Bitmaps stored in arrays of 32-bit words

Bit `b` of an array lives in word `b / 32` at position `b % 32`. The module has
the three things an allocator does with such an array (set a bit, clear a bit,
scan the first words for a clear one) and the number of set bits below a bound,
which is what a used-block counter claims to be.

The scan skips a word that is full before it looks at the bits of a word; `firstZero_word`
says that this is a shortcut and no more. So `firstZero` is the lowest clear bit of the words
it is given (`firstZero_eq_some`), and it fails only where all of them are full. An accounting
argument needs `bitCount_set` and `bitCount_clear`: one bit changes the count by one.
-/

namespace MissyKernel

/-! ## One word -/

theorem testBit_or_shift (x j k : ℕ) :
    (x ||| 1 <<< j).testBit k = (x.testBit k || decide (k = j)) := by
  rw [Nat.testBit_or, Nat.one_shiftLeft, Nat.testBit_two_pow]
  simp only [eq_comm]

theorem testBit_and_not_shift {j k : ℕ} (x : ℕ) (hk : k < 32) :
    (x &&& (0xffffffff ^^^ 1 <<< j)).testBit k = (x.testBit k && decide (k ≠ j)) := by
  rw [Nat.testBit_and, Nat.testBit_xor, Nat.one_shiftLeft, Nat.testBit_two_pow,
    show 0xffffffff = 2 ^ 32 - 1 from rfl, Nat.testBit_two_pow_sub_one]
  simp [hk, eq_comm]

theorem shiftRight_and_one_eq_zero {x j : ℕ} : (x >>> j) &&& 1 = 0 ↔ x.testBit j = false := by
  rw [Nat.testBit, Nat.and_comm]
  simp

theorem and_shift_eq_zero {x j : ℕ} : x &&& 1 <<< j = 0 ↔ x.testBit j = false := by
  rw [Nat.one_shiftLeft, Nat.and_two_pow]
  cases x.testBit j <;> simp

/-- Masking the low `k` bits away rounds down. -/
theorem and_not_low {x k : ℕ} (hx : x < 2 ^ 32) :
    x &&& (0xffffffff ^^^ (2 ^ k - 1)) = x / 2 ^ k * 2 ^ k := by
  rw [← Nat.shiftRight_eq_div_pow, ← Nat.shiftLeft_eq]
  apply Nat.eq_of_testBit_eq
  intro i
  rw [Nat.testBit_and, Nat.testBit_xor, Nat.testBit_shiftLeft, Nat.testBit_shiftRight,
    show 0xffffffff = 2 ^ 32 - 1 from rfl, Nat.testBit_two_pow_sub_one,
    Nat.testBit_two_pow_sub_one]
  by_cases hi : i < 32
  · by_cases hk : k ≤ i
    · simp [hi, hk]
    · simp [hi, hk]
      omega
  · have hzero : x.testBit i = false :=
      Nat.testBit_lt_two_pow (lt_of_lt_of_le hx (Nat.pow_le_pow_right (by omega) (by omega)))
    by_cases hk : k ≤ i
    · simp [hzero, hk]
    · simp [hzero, hk]

/-! ## Bits of an array -/

/-- Bit `b` of an array of words. -/
def bitAt (w : ℕ → ℕ) (b : ℕ) : Bool := (w (b / 32)).testBit (b % 32)

/-- Set bit `b`. -/
def setBit (w : ℕ → ℕ) (b : ℕ) : ℕ → ℕ :=
  Function.update w (b / 32) (w (b / 32) ||| 1 <<< (b % 32))

/-- Clear bit `b`. -/
def clearBit (w : ℕ → ℕ) (b : ℕ) : ℕ → ℕ :=
  Function.update w (b / 32) (w (b / 32) &&& (0xffffffff ^^^ 1 <<< (b % 32)))

variable {w w' : ℕ → ℕ} {b c n : ℕ}

theorem bitAt_congr (h : w' (b / 32) = w (b / 32)) : bitAt w' b = bitAt w b := by
  rw [bitAt, bitAt, h]

theorem bitAt_setBit (w : ℕ → ℕ) (b c : ℕ) :
    bitAt (setBit w b) c = (bitAt w c || decide (c = b)) := by
  by_cases hw : c / 32 = b / 32
  · rw [bitAt, setBit, hw, Function.update_self, testBit_or_shift, bitAt, hw]
    congr 1
    exact decide_eq_decide.mpr (by omega)
  · have hne : c ≠ b := fun h => hw (by rw [h])
    rw [bitAt_congr (w := w) (by rw [setBit, Function.update_of_ne hw])]
    simp [hne]

theorem bitAt_clearBit (w : ℕ → ℕ) (b c : ℕ) :
    bitAt (clearBit w b) c = (bitAt w c && decide (c ≠ b)) := by
  by_cases hw : c / 32 = b / 32
  · rw [bitAt, clearBit, hw, Function.update_self,
      testBit_and_not_shift _ (Nat.mod_lt _ (by omega)), bitAt, hw]
    congr 1
    exact decide_eq_decide.mpr (by omega)
  · have hne : c ≠ b := fun h => hw (by rw [h])
    rw [bitAt_congr (w := w) (by rw [clearBit, Function.update_of_ne hw])]
    simp [hne]

/-- Every bit of a full word is set. -/
theorem bitAt_of_full (h : w (b / 32) = 0xffffffff) : bitAt w b = true := by
  rw [bitAt, h, show 0xffffffff = 2 ^ 32 - 1 from rfl, Nat.testBit_two_pow_sub_one]
  exact decide_eq_true (Nat.mod_lt _ (by omega))

/-! ## Scanning for a clear bit -/

/-- The early-return loop over `0, …, n - 1`: the first index that returns. -/
theorem findSome?_range_eq_some {α : Type} {f : ℕ → Option α} {a : α} :
    ∀ {n : ℕ}, (List.range n).findSome? f = some a ↔
      ∃ i < n, f i = some a ∧ ∀ j < i, f j = none
  | 0 => by simp
  | n + 1 => by
    rw [List.range_succ, List.findSome?_append, Option.or_eq_some_iff]
    constructor
    · rintro (h | ⟨h, h'⟩)
      · obtain ⟨i, hi, hf⟩ := findSome?_range_eq_some.mp h
        exact ⟨i, by omega, hf⟩
      · rw [List.findSome?_eq_none_iff] at h
        refine ⟨n, by omega, by simpa using h', fun j hj => h j (List.mem_range.mpr hj)⟩
    · rintro ⟨i, hi, hf, hbelow⟩
      by_cases hin : i < n
      · exact .inl (findSome?_range_eq_some.mpr ⟨i, hin, hf, hbelow⟩)
      · obtain rfl : i = n := by omega
        refine .inr ⟨?_, by simpa using hf⟩
        rw [List.findSome?_eq_none_iff]
        exact fun j hj => hbelow j (List.mem_range.mp hj)

/-- The inner loop: the first clear bit of word `i`, as a bit number. -/
def firstZeroInWord (w : ℕ → ℕ) (i : ℕ) : Option ℕ :=
  (List.range 32).findSome? fun j =>
    if (w i >>> j) &&& 1 = 0 then some (i * 32 + j) else none

/-- The two nested loops: skip full words, then look into the word. -/
def firstZero (w : ℕ → ℕ) (n : ℕ) : Option ℕ :=
  (List.range n).findSome? fun i =>
    if w i ≠ 0xffffffff then firstZeroInWord w i else none

theorem firstZeroInWord_eq_some {i : ℕ} :
    firstZeroInWord w i = some b ↔
      b / 32 = i ∧ bitAt w b = false ∧ ∀ c, c / 32 = i → c < b → bitAt w c = true := by
  have hbit : ∀ j < 32, ((w i >>> j) &&& 1 = 0 ↔ bitAt w (i * 32 + j) = false) := by
    intro j hj
    rw [shiftRight_and_one_eq_zero, bitAt, show (i * 32 + j) / 32 = i by omega,
      show (i * 32 + j) % 32 = j by omega]
  rw [firstZeroInWord, findSome?_range_eq_some]
  constructor
  · rintro ⟨j, hj, hf, hbelow⟩
    rw [Option.ite_none_right_eq_some, hbit j hj] at hf
    obtain ⟨hclear, hb⟩ := hf
    obtain rfl : i * 32 + j = b := Option.some.inj hb
    refine ⟨by omega, hclear, fun c hc hlt => ?_⟩
    have hcj := hbelow (c - i * 32) (by omega)
    rw [ite_eq_right_iff] at hcj
    by_contra hset
    refine Option.some_ne_none _ (hcj ((hbit _ (by omega)).mpr ?_))
    rw [show i * 32 + (c - i * 32) = c by omega]
    simpa using hset
  · rintro ⟨hi, hclear, hbelow⟩
    refine ⟨b - i * 32, by omega, ?_, fun j hj => ?_⟩
    · have hsum : i * 32 + (b - i * 32) = b := by omega
      rw [if_pos ((hbit _ (by omega)).mpr (by rw [hsum]; exact hclear)), hsum]
    · refine if_neg fun h => ?_
      have hset := hbelow (i * 32 + j) (by omega) (by omega)
      rw [(hbit j (by omega)).mp h] at hset
      cases hset

theorem firstZeroInWord_eq_none {i : ℕ} :
    firstZeroInWord w i = none ↔ ∀ c, c / 32 = i → bitAt w c = true := by
  constructor
  · intro h c hc
    by_contra hset
    have hex : ∃ d, d / 32 = i ∧ bitAt w d = false := ⟨c, hc, by simpa using hset⟩
    obtain ⟨hi, hclear⟩ := Nat.find_spec hex
    have hsome : firstZeroInWord w i = some (Nat.find hex) := by
      refine firstZeroInWord_eq_some.mpr ⟨hi, hclear, fun d hd hlt => ?_⟩
      have := Nat.find_min hex hlt
      simpa [hd] using this
    rw [h] at hsome
    cases hsome
  · intro h
    rcases hw : firstZeroInWord w i with _ | b
    · rfl
    · obtain ⟨hi, hclear, -⟩ := firstZeroInWord_eq_some.mp hw
      rw [h b hi] at hclear
      cases hclear

/-- A word that is skipped has no clear bit, so the test in the outer loop is
only a shortcut. -/
theorem firstZero_word (w : ℕ → ℕ) (i : ℕ) :
    (if w i ≠ 0xffffffff then firstZeroInWord w i else none) = firstZeroInWord w i := by
  by_cases hw : w i = 0xffffffff
  · rw [if_neg (not_not.mpr hw), eq_comm, firstZeroInWord_eq_none]
    intro c hc
    exact bitAt_of_full (by rw [hc, hw])
  · rw [if_pos hw]

/-- Bit `b` is the lowest clear bit of the first `n` words. -/
structure IsFirstZero (w : ℕ → ℕ) (n b : ℕ) : Prop where
  /-- it lies in the first `n` words -/
  lt : b < 32 * n
  /-- it is clear -/
  clear : bitAt w b = false
  /-- every lower bit is set -/
  lowest : ∀ c < b, bitAt w c = true

/-- The scan returns the lowest clear bit of the first `n` words. -/
theorem firstZero_eq_some : firstZero w n = some b ↔ IsFirstZero w n b := by
  simp only [firstZero, firstZero_word, findSome?_range_eq_some, firstZeroInWord_eq_some,
    firstZeroInWord_eq_none]
  constructor
  · rintro ⟨i, hi, ⟨hb, hclear, hword⟩, hbelow⟩
    refine ⟨by omega, hclear, fun c hc => ?_⟩
    by_cases hci : c / 32 = i
    · exact hword c hci hc
    · exact hbelow (c / 32) (by omega) c rfl
  · rintro ⟨hb, hclear, hbelow⟩
    refine ⟨b / 32, by omega, ⟨rfl, hclear, fun c _ hc => hbelow c hc⟩, fun j hj c hc => ?_⟩
    exact hbelow c (by omega)

/-- The scan fails exactly when every bit of the first `n` words is set. -/
theorem firstZero_eq_none : firstZero w n = none ↔ ∀ c < 32 * n, bitAt w c = true := by
  simp only [firstZero, firstZero_word, List.findSome?_eq_none_iff, List.mem_range,
    firstZeroInWord_eq_none]
  constructor
  · intro h c hc
    exact h (c / 32) (by omega) c rfl
  · intro h i hi c hc
    exact h c (by omega)

/-! ## Counting set bits -/

/-- How many of the first `n` bits are set. -/
def bitCount (w : ℕ → ℕ) (n : ℕ) : ℕ := ((Finset.range n).filter fun b => bitAt w b = true).card

/-- How many of the first `n` bits are clear. -/
def clearCount (w : ℕ → ℕ) (n : ℕ) : ℕ := ((Finset.range n).filter fun b => bitAt w b = false).card

theorem bitCount_add_clearCount (w : ℕ → ℕ) (n : ℕ) : bitCount w n + clearCount w n = n := by
  rw [bitCount, clearCount]
  simpa using Finset.card_filter_add_card_filter_not (s := Finset.range n)
    (fun b => bitAt w b = true)

theorem bitCount_congr (h : ∀ c < n, bitAt w' c = bitAt w c) : bitCount w' n = bitCount w n := by
  rw [bitCount, bitCount]
  congr 1
  refine Finset.filter_congr fun c hc => ?_
  rw [h c (Finset.mem_range.mp hc)]

/-- Setting one clear bit below the bound raises the count by one. -/
theorem bitCount_set (hb : b < n) (hclear : bitAt w b = false)
    (h : ∀ c < n, bitAt w' c = (bitAt w c || decide (c = b))) :
    bitCount w' n = bitCount w n + 1 := by
  have heq : (Finset.range n).filter (fun c => bitAt w' c = true) =
      insert b ((Finset.range n).filter fun c => bitAt w c = true) := by
    ext c
    simp only [Finset.mem_filter, Finset.mem_range, Finset.mem_insert]
    constructor
    · rintro ⟨hc, hset⟩
      rw [h c hc] at hset
      by_cases hcb : c = b
      · exact .inl hcb
      · exact .inr ⟨hc, by simpa [hcb] using hset⟩
    · rintro (rfl | ⟨hc, hset⟩)
      · exact ⟨hb, by rw [h c hb]; simp⟩
      · exact ⟨hc, by rw [h c hc, hset]; simp⟩
  rw [bitCount, heq, Finset.card_insert_of_notMem (by simp [hclear]), bitCount]

/-- Clearing one set bit below the bound lowers the count by one. -/
theorem bitCount_clear (hb : b < n) (hset : bitAt w b = true)
    (h : ∀ c < n, bitAt w' c = (bitAt w c && decide (c ≠ b))) :
    bitCount w' n + 1 = bitCount w n := by
  refine (bitCount_set hb ?_ fun c hc => ?_).symm
  · rw [h b hb]
    simp
  · rw [h c hc]
    by_cases hcb : c = b
    · simp [hcb, hset]
    · simp [hcb]

end MissyKernel
