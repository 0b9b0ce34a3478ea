import Mathlib.Data.BitVec
import Mathlib.Data.Nat.Digits.Defs
import Mathlib.Data.Nat.Digits.Lemmas
import Mathlib.Logic.Function.Basic
import Mathlib.Tactic

/-!
# Numerals written into a buffer

The usual way to print a number: write its digits from the end of a buffer to the front,
lowest first, then move the string to the start of the buffer. `writeDigits` and
`copyString` are the two loops, `numeral` is what they write, and `Reads` says that the
bytes of a list stand in a buffer.

The digits come from Mathlib's `Nat.digits`, in the other order; zero has one digit here.
`writeDigits_numeral` is the loop of the digits and `reads_numeral` both loops; the alphabet is
any function on digits. That a numeral reads back as the number, and does not begin with a zero
digit, is `foldl_numeral` and `eq_zero_of_head?_numeral`.
-/

namespace MissyKernel

/-- The digits of a number, the highest first; zero has one. -/
def numeral (base n : ℕ) : List ℕ := if n = 0 then [0] else (Nat.digits base n).reverse

/-- The loop that writes digits below `p`, until the number is zero: where it ends, and the
buffer. It is `none` where a digit would go before the buffer. -/
def writeDigits (letter : ℕ → BitVec 8) (base : ℕ) :
    ℕ → ℕ → (ℕ → BitVec 8) → Option (ℕ × (ℕ → BitVec 8))
  | p, 0, b => some (p, b)
  | 0, _ + 1, _ => none
  | p + 1, n + 1, b =>
    writeDigits letter base p ((n + 1) / base) (Function.update b p (letter ((n + 1) % base)))

/-- The loop that copies a string within the buffer, its zero included; the first argument
bounds the steps. -/
def copyString : ℕ → ℕ → ℕ → (ℕ → BitVec 8) → ℕ → BitVec 8
  | 0, _, _, b => b
  | fuel + 1, dst, src, b =>
    if b src = 0 then Function.update b dst (b src)
    else copyString fuel (dst + 1) (src + 1) (Function.update b dst (b src))

/-- From `a` on the buffer holds the list. -/
def Reads (b : ℕ → BitVec 8) : ℕ → List (BitVec 8) → Prop
  | _, [] => True
  | a, c :: l => b a = c ∧ Reads b (a + 1) l

variable {b b' : ℕ → BitVec 8} {a p n base dst src fuel : ℕ} {l l' : List (BitVec 8)}
  {letter : ℕ → BitVec 8}

/-! ## The digits -/

/-- Horner's rule takes a numeral back to its number. -/
theorem foldl_numeral (base n : ℕ) : (numeral base n).foldl (fun m d => m * base + d) 0 = n := by
  rw [numeral]
  split
  · next hn => rw [hn, List.foldl_cons, List.foldl_nil, Nat.zero_mul]
  · have hstep : (fun d m => m * base + d) = fun d m : ℕ => (d : ℕ) + base * m := by
      funext d m
      rw [Nat.mul_comm, Nat.add_comm]
    rw [List.foldl_reverse, hstep]
    exact (Nat.ofDigits_eq_foldr base _).symm.trans (Nat.ofDigits_digits base n)

/-- No numeral but the one of zero begins with a zero. -/
theorem eq_zero_of_head?_numeral (h : (numeral base n).head? = some 0) : n = 0 := by
  by_contra hn
  rw [numeral, if_neg hn, List.head?_reverse,
    List.getLast?_eq_some_getLast (Nat.digits_ne_nil_iff_ne_zero.mpr hn)] at h
  exact Nat.getLast_digit_ne_zero base hn (Option.some_inj.mp h)

/-! ## Reading a buffer -/

theorem reads_append : Reads b a (l ++ l') ↔ Reads b a l ∧ Reads b (a + l.length) l' := by
  induction l generalizing a with
  | nil => exact (iff_of_eq (true_and _)).symm
  | cons c l ih =>
    rw [List.cons_append, Reads, Reads, ih, List.length_cons, and_assoc,
      show a + (l.length + 1) = a + 1 + l.length by omega]

theorem Reads.congr (h : Reads b a l) (hb : ∀ i, a ≤ i → b' i = b i) : Reads b' a l := by
  induction l generalizing a with
  | nil => trivial
  | cons c l ih =>
    exact ⟨(hb a (le_refl a)).trans h.1, ih h.2 fun i hi => hb i (by omega)⟩

theorem Reads.map_range' (h : Reads b a l) : (List.range' a l.length).map b = l := by
  induction l generalizing a with
  | nil => rfl
  | cons c l ih => rw [List.length_cons, List.range'_succ, List.map_cons, h.1, ih h.2]

/-- The bytes at the front of a buffer. -/
theorem Reads.map_range (h : Reads b 0 l) : (List.range l.length).map b = l := by
  rw [List.range_eq_range']
  exact h.map_range'

/-! ## The two loops -/

/-- The digits end up below `p`, in order, and there is room for them if the number has at
most `p`. -/
theorem writeDigits_eq (letter : ℕ → BitVec 8) (hbase : 2 ≤ base) (hn : n < base ^ p)
    (b : ℕ → BitVec 8) :
    ∃ q b', writeDigits letter base p n b = some (q, b') ∧
      q + (Nat.digits base n).length = p ∧
      Reads b' q ((Nat.digits base n).reverse.map letter) ∧ ∀ i, p ≤ i → b' i = b i := by
  induction p generalizing n b with
  | zero =>
    obtain rfl : n = 0 := by simpa using hn
    exact ⟨0, b, rfl, by simp, by simp [Reads], fun _ _ => rfl⟩
  | succ p ih =>
    cases n with
    | zero => exact ⟨p + 1, b, rfl, by simp, by simp [Reads], fun _ _ => rfl⟩
    | succ n =>
      have hlt : (n + 1) / base < base ^ p := by
        rw [Nat.div_lt_iff_lt_mul (by omega)]
        rwa [pow_succ] at hn
      obtain ⟨q, b', hloop, hq, hreads, hkept⟩ :=
        ih hlt (Function.update b p (letter ((n + 1) % base)))
      have hdigits : Nat.digits base (n + 1) =
          (n + 1) % base :: Nat.digits base ((n + 1) / base) :=
        Nat.digits_def' (by omega) (Nat.succ_pos n)
      rw [hdigits, List.length_cons, List.reverse_cons, List.map_append]
      refine ⟨q, b', hloop, by omega, reads_append.mpr ⟨hreads, ?_, trivial⟩, fun i hi => ?_⟩
      · rw [List.length_map, List.length_reverse, hq, hkept p (le_refl p)]
        exact Function.update_self _ _ _
      · rw [hkept i (by omega)]
        exact Function.update_of_ne (by omega) _ _

/-- A string copied to the front reads there. -/
theorem reads_copyString (hl : ∀ c ∈ l, c ≠ 0) (h : Reads b src (l ++ [0])) (hdst : dst ≤ src)
    (hfuel : l.length < fuel) :
    Reads (copyString fuel dst src b) dst (l ++ [0]) ∧
      ∀ i < dst, copyString fuel dst src b i = b i := by
  induction l generalizing b dst src fuel with
  | nil =>
    obtain ⟨fuel, rfl⟩ := Nat.exists_eq_succ_of_ne_zero (Nat.ne_of_gt hfuel)
    rw [copyString, if_pos h.1, h.1]
    exact ⟨⟨Function.update_self _ _ _, trivial⟩,
      fun i hi => Function.update_of_ne (Nat.ne_of_lt hi) _ _⟩
  | cons c l ih =>
    obtain ⟨fuel, rfl⟩ := Nat.exists_eq_succ_of_ne_zero (Nat.ne_of_gt (Nat.zero_lt_of_lt hfuel))
    obtain ⟨hc, hl⟩ := List.forall_mem_cons.mp hl
    obtain ⟨hhead, htail⟩ := h
    rw [copyString, if_neg (by rwa [hhead]), hhead]
    -- the store is behind what is still to be read
    have hrest : Reads (Function.update b dst c) (src + 1) (l ++ [0]) :=
      htail.congr fun i hi => Function.update_of_ne (show i ≠ dst by omega) _ _
    obtain ⟨hreads, hkept⟩ := ih hl hrest (Nat.succ_le_succ hdst) (Nat.lt_of_succ_lt_succ hfuel)
    refine ⟨⟨?_, hreads⟩, fun i hi => ?_⟩
    · rw [hkept dst (Nat.lt_succ_self dst)]
      exact Function.update_self _ _ _
    · rw [hkept i (by omega)]
      exact Function.update_of_ne (Nat.ne_of_lt hi) _ _

/-- The digits of a number, with the zero byte behind them, before they are moved. -/
theorem writeDigits_digits (hbase : 2 ≤ base) (hn : n < base ^ p) (hlast : b p = 0)
    (hletter : ∀ d < base, letter d ≠ 0) :
    ∃ q b', writeDigits letter base p n b = some (q, b') ∧
      q + (Nat.digits base n).length = p ∧
      Reads b' q ((Nat.digits base n).reverse.map letter ++ [0]) ∧
      ∀ c ∈ (Nat.digits base n).reverse.map letter, c ≠ 0 := by
  obtain ⟨q, b', hloop, hq, hreads, hkept⟩ := writeDigits_eq letter hbase hn b
  refine ⟨q, b', hloop, hq, reads_append.mpr ⟨hreads, ?_, trivial⟩, fun c hc => ?_⟩
  · rw [List.length_map, List.length_reverse, hq, hkept p (le_refl p), hlast]
  · obtain ⟨d, hd, rfl⟩ := List.mem_map.mp hc
    exact hletter d (Nat.digits_lt_base (by omega) (List.mem_reverse.mp hd))

/-- The numeral of a number other than zero. -/
theorem writeDigits_numeral (hbase : 2 ≤ base) (hn : n < base ^ p) (hpos : n ≠ 0)
    (hlast : b p = 0) (hletter : ∀ d < base, letter d ≠ 0) :
    ∃ q b', writeDigits letter base p n b = some (q, b') ∧
      q + (numeral base n).length = p ∧
      Reads b' q ((numeral base n).map letter ++ [0]) ∧
      ∀ c ∈ (numeral base n).map letter, c ≠ 0 := by
  rw [numeral, if_neg hpos, List.length_reverse]
  exact writeDigits_digits hbase hn hlast hletter

/-- Both loops: the numeral stands at the front of the buffer, with a zero behind it. -/
theorem reads_numeral (hbase : 2 ≤ base) (hn : n < base ^ p) (hpos : n ≠ 0) (hlast : b p = 0)
    (hletter : ∀ d < base, letter d ≠ 0) :
    ∃ q b', writeDigits letter base p n b = some (q, b') ∧
      q + (numeral base n).length = p ∧
      Reads (copyString (p + 1 - q) 0 q b') 0 ((numeral base n).map letter ++ [0]) := by
  obtain ⟨q, b', hloop, hq, hreads, hnonzero⟩ :=
    writeDigits_numeral hbase hn hpos hlast hletter
  refine ⟨q, b', hloop, hq, (reads_copyString hnonzero hreads (Nat.zero_le q) ?_).1⟩
  rw [List.length_map]
  omega

end MissyKernel
