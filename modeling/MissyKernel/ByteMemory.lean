import Mathlib.Data.Nat.Bitwise
import Mathlib.Tactic

/-!
# Byte-addressed memory with little-endian 32-bit words

A memory is a total map from addresses to bytes. `read32` and `write32` access a
word at any address, aligned or not, `fill` is the byte loop of a `memset` and `copy`
that of a `memcpy`. Every later frame argument is one of three facts: a word reads back
what was written to it, a word disjoint from a write is unchanged, and a word depends
on its four bytes only.

Addresses are natural numbers: where a sum wraps in a program, the definition that forms the
address reduces it, and nothing here does. `copy` runs upwards from the first byte, so over
ranges that overlap it may read what it has written. `copy_faithful_iff` says when it still
leaves the source: exactly when the source repeats at the distance of the copy (`Repeats`).
-/

namespace MissyKernel

/-- A byte memory: every address holds a byte, whatever it is. -/
abbrev Mem : Type := ℕ → BitVec 8

namespace Mem

/-- Store one byte. -/
def write8 (m : Mem) (a : ℕ) (v : BitVec 8) : Mem :=
  fun x => if x = a then v else m x

/-- Load the little-endian word at `a`. -/
def read32 (m : Mem) (a : ℕ) : ℕ :=
  (m a).toNat + 2 ^ 8 * (m (a + 1)).toNat + 2 ^ 16 * (m (a + 2)).toNat +
    2 ^ 24 * (m (a + 3)).toNat

/-- Store the low 32 bits of `v` at `a`, little-endian. -/
def write32 (m : Mem) (a v : ℕ) : Mem :=
  fun x => if a ≤ x ∧ x < a + 4 then BitVec.ofNat 8 (v / 2 ^ (8 * (x - a))) else m x

/-- Store `c` into the `n` bytes from `a` on, lowest first. -/
def fill (m : Mem) (a : ℕ) (c : BitVec 8) : ℕ → Mem
  | 0 => m
  | n + 1 => write8 (fill m a c n) (a + n) c

/-- Copy `n` bytes from `src` to `dst`, lowest first. -/
def copy (m : Mem) (dst src : ℕ) : ℕ → Mem
  | 0 => m
  | n + 1 => write8 (copy m dst src n) (dst + n) (copy m dst src n (src + n))

/-- A memory with the words `words` from `base` on, and zeros elsewhere. -/
def ofWords (base : ℕ) (words : List ℕ) : Mem := fun a =>
  if base ≤ a then
    BitVec.ofNat 8 (words.getD ((a - base) / 4) 0 / 2 ^ (8 * ((a - base) % 4)))
  else 0

/-- A memory with the bytes `bytes` from `base` on, and zeros behind them. -/
def ofBytes (base : ℕ) (bytes : List (BitVec 8)) : Mem := fun a => bytes.getD (a - base) 0

variable {m m' : Mem} {a b v n : ℕ}

@[simp] theorem write8_self (m : Mem) (a : ℕ) (c : BitVec 8) : write8 m a c a = c := by
  simp [write8]

theorem write8_of_ne {c : BitVec 8} (h : b ≠ a) : write8 m a c b = m b := by
  simp [write8, h]

theorem write32_apply_outside (h : b < a ∨ a + 4 ≤ b) : write32 m a v b = m b := by
  rw [write32, if_neg (by omega)]

theorem write32_apply_inside {i : ℕ} (hi : i < 4) :
    write32 m a v (a + i) = BitVec.ofNat 8 (v / 2 ^ (8 * i)) := by
  rw [write32, if_pos (by omega), Nat.add_sub_cancel_left]

theorem read32_lt (m : Mem) (a : ℕ) : read32 m a < 2 ^ 32 := by
  have h0 := (m a).isLt
  have h1 := (m (a + 1)).isLt
  have h2 := (m (a + 2)).isLt
  have h3 := (m (a + 3)).isLt
  rw [read32]
  omega

@[simp] theorem read32_mod (m : Mem) (a : ℕ) : read32 m a % 2 ^ 32 = read32 m a :=
  Nat.mod_eq_of_lt (read32_lt m a)

/-- A word depends on its four bytes only. -/
theorem read32_congr (h : ∀ i < 4, m' (a + i) = m (a + i)) : read32 m' a = read32 m a := by
  have h0 := h 0 (by omega)
  rw [Nat.add_zero] at h0
  rw [read32, read32, h0, h 1 (by omega), h 2 (by omega), h 3 (by omega)]

/-- A word reads back the low 32 bits of what was written to it. -/
theorem read32_write32_self (m : Mem) (a v : ℕ) : read32 (write32 m a v) a = v % 2 ^ 32 := by
  have h0 : write32 m a v a = BitVec.ofNat 8 (v / 2 ^ (8 * 0)) :=
    write32_apply_inside (i := 0) (by omega)
  rw [read32, h0, write32_apply_inside (by omega), write32_apply_inside (by omega),
    write32_apply_inside (by omega)]
  simp only [BitVec.toNat_ofNat]
  omega

/-- A write leaves every word it does not overlap as it was. -/
theorem read32_write32_of_disjoint (h : a + 4 ≤ b ∨ b + 4 ≤ a) :
    read32 (write32 m a v) b = read32 m b :=
  read32_congr fun _ _ => write32_apply_outside (by omega)

theorem read32_write8_of_outside {c : BitVec 8} (h : a < b ∨ b + 4 ≤ a) :
    read32 (write8 m a c) b = read32 m b :=
  read32_congr fun _ _ => write8_of_ne (by omega)

/-- What a fill leaves at each address. -/
theorem fill_apply (m : Mem) (a : ℕ) (c : BitVec 8) (n x : ℕ) :
    fill m a c n x = if a ≤ x ∧ x < a + n then c else m x := by
  induction n with
  | zero => rw [fill, if_neg (by omega)]
  | succ n ih =>
    rw [fill]
    by_cases hx : x = a + n
    · rw [hx, write8_self, if_pos (by omega)]
    · rw [write8_of_ne hx, ih]
      by_cases hin : a ≤ x ∧ x < a + n
      · rw [if_pos hin, if_pos (by omega)]
      · rw [if_neg hin, if_neg (by omega)]

theorem fill_apply_outside {c : BitVec 8} (h : b < a ∨ a + n ≤ b) : fill m a c n b = m b := by
  rw [fill_apply, if_neg (by omega)]

/-- Every word inside a range that was filled with zeros is zero. -/
theorem read32_fill_zero (h : a ≤ b) (h' : b + 4 ≤ a + n) : read32 (fill m a 0 n) b = 0 := by
  rw [read32, fill_apply, fill_apply, fill_apply, fill_apply, if_pos (by omega),
    if_pos (by omega), if_pos (by omega), if_pos (by omega)]
  rfl

/-! ## Copying -/

variable {dst src i : ℕ}

theorem copy_apply_outside (h : b < dst ∨ dst + n ≤ b) : copy m dst src n b = m b := by
  induction n with
  | zero => rfl
  | succ n ih =>
    rw [copy, write8_of_ne (by omega)]
    exact ih (by omega)

/-- Each byte is the source byte at the time it is copied. -/
theorem copy_apply_inside (hi : i < n) :
    copy m dst src n (dst + i) = copy m dst src i (src + i) := by
  induction n with
  | zero => exact absurd hi (Nat.not_lt_zero i)
  | succ n ih =>
    rw [copy]
    rcases Nat.lt_succ_iff_lt_or_eq.mp hi with hlt | rfl
    · rw [write8_of_ne (by omega)]
      exact ih hlt
    · exact write8_self _ _ _

/-- Copying downwards, or to the same place, every source byte is read in time. -/
theorem copy_apply_of_le (hle : dst ≤ src) (hi : i < n) :
    copy m dst src n (dst + i) = m (src + i) := by
  rw [copy_apply_inside hi, copy_apply_outside (by omega)]

/-- Copying upwards, the bytes before the destination repeat. -/
theorem copy_apply_of_lt (hlt : src < dst) (hi : i < n) :
    copy m dst src n (dst + i) = m (src + i % (dst - src)) := by
  induction i using Nat.strong_induction_on with
  | h i ih =>
    rw [copy_apply_inside hi]
    rcases Nat.lt_or_ge i (dst - src) with hbefore | hafter
    · rw [copy_apply_outside (by omega), Nat.mod_eq_of_lt hbefore]
    · have hback := ih (i - (dst - src)) (by omega) (by omega)
      rw [copy_apply_inside (by omega), ← Nat.mod_eq_sub_mod hafter] at hback
      rw [← hback, show src + i = dst + (i - (dst - src)) by omega, copy_apply_inside (by omega)]

/-- The bytes that a copy upwards reads after it has written them are as the ones it
wrote there. -/
def Repeats (m : Mem) (dst src n : ℕ) : Prop :=
  src < dst → ∀ i, i + (dst - src) < n → m (src + i + (dst - src)) = m (src + i)

/-- A copy is faithful exactly when the source repeats at the distance of the copy,
which only matters where a copy upwards overlaps its source. -/
theorem copy_faithful_iff :
    (∀ i < n, copy m dst src n (dst + i) = m (src + i)) ↔ Repeats m dst src n := by
  constructor
  · intro h hlt i hi
    have hfar := h (i + (dst - src)) hi
    have hnear := h i (by omega)
    rw [copy_apply_of_lt hlt (by omega)] at hfar hnear
    rw [Nat.add_mod_right, hnear] at hfar
    rw [Nat.add_assoc]
    exact hfar.symm
  · intro h i hi
    rcases Nat.lt_or_ge src dst with hlt | hle
    · induction i using Nat.strong_induction_on with
      | h i ih =>
        rcases Nat.lt_or_ge i (dst - src) with hbefore | hafter
        · rw [copy_apply_of_lt hlt hi, Nat.mod_eq_of_lt hbefore]
        · have hback := ih (i - (dst - src)) (by omega) (by omega)
          have hrepeat := h hlt (i - (dst - src)) (by omega)
          rw [copy_apply_of_lt hlt (by omega), ← Nat.mod_eq_sub_mod hafter] at hback
          rw [copy_apply_of_lt hlt hi, hback, ← hrepeat]
          congr 1
          omega
    · exact copy_apply_of_le hle hi

end Mem

end MissyKernel
