import MissyKernel.NumeralBuffers

/-!
# Signed numerals

`itoa_s` is `itoa` for an `int`: it negates a negative number, writes the digits as its sibling
does, and then puts a sign in front of them. What it leaves differs from the signed numeral in
three ways. The sign is written whatever the number was, since nothing reads the flag that
remembers it; the count that is returned is the one of the digits alone; and the loop gives up at
31 digits, which with their sign and the zero would just fit.

So a number other than zero never comes out right, unless there was nothing to do: the least
number in base 2 has no room for its sign.

`signedText` is the text that should be left: the canonical numeral of the magnitude, with the
sign where there is one, or the text of `itoa`. `itoaSAt_of_le` and `itoaSAt_of_lt` say what is
left with up to thirty digits and with more. The negation of the least number is taken as the
two's complement of 32 bits, where it is the number itself.
-/

namespace MissyKernel

/-- `if (num < 0) num = -num`; the least number stays as it is. -/
def withoutSign (num : BitVec 32) : BitVec 32 := if num.toInt < 0 then -num else num

/-- The digit loop of `itoa_s`, as `itoaLoop` with the earlier end. -/
def itoaSLoop (base : ℕ) :
    ℕ → ℕ → ℕ → List (BitVec 8) → Except Fault (Except (List (BitVec 8)) (ℕ × ℕ × List (BitVec 8)))
  | writeptr, 0, written, buffer => pure (.ok (writeptr, written, buffer))
  | 0, _ + 1, _, _ => .error .outside
  | writeptr + 1, num + 1, written, buffer => do
    let buffer ← store buffer writeptr (lettermap ((num + 1) % base))
    if 31 ≤ written + 1 then pure (.error buffer)
    else itoaSLoop base writeptr ((num + 1) / base) (written + 1) buffer

/-- `itoa_s`. Its `while (num > 0)` is signed, so a number that is negative still has no turn. -/
def itoaSAt (errno : BitVec 32) (buffer : List (BitVec 8)) (num : BitVec 32) (base : ℕ) :
    Except Fault (ℤ × BitVec 32 × List (BitVec 8)) :=
  let num := withoutSign num
  if 36 < base ∨ base < 2 then do
    let buffer ← store buffer 0 0
    pure (0, 3, buffer)
  else if num = 0 then do
    let buffer ← store buffer 0 0x30
    let buffer ← store buffer 1 0
    pure (1, errno, buffer)
  else do
    let buffer ← storeAll 0 33 0 buffer
    match ← itoaSLoop base 32 num.toInt.toNat 0 buffer with
    | .error buffer => pure (-1, 4, buffer)
    | .ok (writeptr, written, buffer) =>
      -- in front of every number, `negative` or not
      let buffer ← store buffer 0 0x2d
      let buffer ← copyAt buffer.length 1 writeptr buffer
      pure (written, errno, buffer)

/-- The numeral of an integer: `-` and the magnitude below zero, the text of `itoa` otherwise. -/
def signedText (base : ℕ) (z : ℤ) : List (BitVec 8) :=
  if z < 0 then 0x2d :: (numeral base z.natAbs).map lettermap
  else (numeral base z.natAbs).map lettermap

/-- `itoa_s` is right about a number: if its text fits, that is left and its length is returned,
and `EOVERFLOW` is reported only if it does not. -/
def ItoaSRight (errno : BitVec 32) (buffer : List (BitVec 8)) (num : BitVec 32) (base : ℕ) :
    Prop :=
  ∃ result errno' buffer', itoaSAt errno buffer num base = .ok (result, errno', buffer') ∧
    ((signedText base num.toInt).length + 1 ≤ 33 →
      signedText base num.toInt ++ [0] <+: buffer' ∧
        result = (signedText base num.toInt).length) ∧
    (result = -1 ∧ errno' = 4 → 33 < (signedText base num.toInt).length + 1)

variable {errno num : BitVec 32} {buffer : List (BitVec 8)} {b : ℕ → BitVec 8}
  {base n p size written : ℕ}

/-! ## The number without its sign -/

theorem withoutSign_eq_zero : withoutSign num = 0 ↔ num = 0 := by
  rw [withoutSign]
  split
  · exact BitVec.neg_eq_zero_iff
  · exact Iff.rfl

theorem toNat_toInt_withoutSign (h : num ≠ 0x80000000) :
    (withoutSign num).toInt.toNat = num.toInt.natAbs := by
  have hne : num.toNat ≠ 0x80000000 := fun heq => h (BitVec.eq_of_toNat_eq heq)
  have hlt := num.isLt
  rw [withoutSign]
  split
  · next hneg =>
    rw [BitVec.toInt_eq_toNat_cond] at hneg ⊢
    rw [BitVec.toInt_eq_toNat_cond, BitVec.toNat_neg]
    omega
  · next hpos => omega

theorem natAbs_toInt_lt (h : num ≠ 0x80000000) : num.toInt.natAbs < 2 ^ 31 := by
  have hne : num.toNat ≠ 0x80000000 := fun heq => h (BitVec.eq_of_toNat_eq heq)
  have hlt := num.isLt
  rw [BitVec.toInt_eq_toNat_cond]
  omega

/-! ## The text -/

/-- Of a number that is not negative it is what `itoa` leaves. -/
theorem itoaAt_signedText (errno : BitVec 32) (hbuffer : buffer.length = 33) (hbase : 2 ≤ base)
    (hle : base ≤ 36) (hnum : 0 ≤ num.toInt) :
    ∃ buffer', itoaAt errno buffer num base =
        .ok ((signedText base num.toInt).length, errno, buffer') ∧
      signedText base num.toInt ++ [0] <+: buffer' := by
  have habs : num.toInt.natAbs = num.toNat := by
    have hlt := num.isLt
    rw [BitVec.toInt_eq_toNat_cond] at hnum ⊢
    omega
  rw [signedText, if_neg (by omega), habs]
  exact itoaAt_numeral errno num hbuffer hbase hle

/-- Of a negative number it is the sign and the canonical numeral of its magnitude. -/
theorem signedText_of_neg {z : ℤ} (hbase : 2 ≤ base) (hle : base ≤ 36) (hz : z < 0) :
    ∃ text, signedText base z = 0x2d :: text ∧ Canonical base z.natAbs text := by
  have hvalue : ∀ d < 36, digitValue (lettermap d) = some d := by decide
  refine ⟨_, if_pos hz, ?_⟩
  exact canonical_map_numeral hbase (fun d hd => hvalue d (by omega)) _

/-! ## The digit loop -/

theorem length_digits_succ (hbase : 2 ≤ base) (n : ℕ) :
    (Nat.digits base (n + 1)).length = (Nat.digits base ((n + 1) / base)).length + 1 := by
  rw [Nat.digits_def' (by omega) (Nat.succ_pos n), List.length_cons]

/-- Up to thirty digits the loop does what the one of `itoa` does. -/
theorem itoaSLoop_window (hbase : 2 ≤ base) (hwritten : p + written = 32) (hsize : p ≤ size)
    (hlength : written + (Nat.digits base n).length ≤ 30) :
    itoaSLoop base p n written (window b size) =
      match writeDigits lettermap base p n b with
      | none => .error .outside
      | some (q, b') => .ok (.ok (q, 32 - q, window b' size)) := by
  induction p generalizing n written b with
  | zero => omega
  | succ p ih =>
    cases n with
    | zero =>
      obtain rfl : written = 32 - (p + 1) := by omega
      rfl
    | succ n =>
      rw [length_digits_succ hbase] at hlength
      rw [itoaSLoop, store_window (by omega), except_ok_bind, if_neg (by omega),
        ih (by omega) (by omega) (by omega), writeDigits]

/-- At the next digit it gives up. -/
theorem itoaSLoop_overflow (hbase : 2 ≤ base) (hwritten : p + written = 32) (hsize : p ≤ size)
    (hle : written ≤ 30) (hlength : 30 < written + (Nat.digits base n).length) :
    ∃ b', itoaSLoop base p n written (window b size) = .ok (.error (window b' size)) := by
  induction p generalizing n written b with
  | zero => omega
  | succ p ih =>
    cases n with
    | zero =>
      rw [Nat.digits_zero, List.length_nil] at hlength
      omega
    | succ n =>
      rw [length_digits_succ hbase] at hlength
      rw [itoaSLoop, store_window (by omega), except_ok_bind]
      by_cases hlast : written = 30
      · rw [if_pos (by omega)]
        exact ⟨_, rfl⟩
      · rw [if_neg (by omega)]
        exact ih (by omega) (by omega) (by omega) (by omega)

/-! ## The routine -/

/-- The sign and the copy at the end: the digits move up to the sign. -/
theorem copyAt_signed {digits : List (BitVec 8)} (hdigits : ∀ c ∈ digits, c ≠ 0)
    (h : Reads b p (digits ++ [0])) (hp : 1 ≤ p) (hsize : p + digits.length < 33) :
    ∃ b', copyAt 33 1 p (window (Function.update b 0 0x2d) 33) = .ok (window b' 33) ∧
      Reads b' 0 (0x2d :: digits ++ [0]) := by
  have hfuel : digits.length < 33 := by omega
  -- the sign is in front of the digits
  have hreads : Reads (Function.update b 0 0x2d) p (digits ++ [0]) :=
    h.congr fun i hi => Function.update_of_ne (show i ≠ 0 by omega) _ _
  obtain ⟨hcopy, hsign⟩ := reads_copyString hdigits hreads hp hfuel
  refine ⟨_, copyAt_window hdigits hreads hp hsize hfuel hfuel, ?_, hcopy⟩
  rw [hsign 0 (by decide)]
  exact Function.update_self _ _ _

/-- What is left of a number with up to thirty digits: always a sign, and the digits behind it,
which alone are counted. The least number is taken to have none. -/
theorem itoaSAt_of_le (errno : BitVec 32) (hbuffer : buffer.length = 33) (hbase : 2 ≤ base)
    (hle : base ≤ 36) (hnum : num ≠ 0)
    (hlength : (Nat.digits base (withoutSign num).toInt.toNat).length ≤ 30) :
    ∃ buffer', itoaSAt errno buffer num base =
        .ok ((Nat.digits base (withoutSign num).toInt.toNat).length, errno, buffer') ∧
      0x2d :: (Nat.digits base (withoutSign num).toInt.toNat).reverse.map lettermap ++ [0] <+:
        buffer' := by
  generalize hn : (withoutSign num).toInt.toNat = n at hlength ⊢
  have hlt : n < base ^ 32 :=
    (Nat.digits_length_le_iff (by omega) n).mp (hlength.trans (by decide))
  have hletter : ∀ d < base, lettermap d ≠ 0 := fun d hd =>
    lettermap_ne_zero (Nat.lt_of_lt_of_le hd hle)
  obtain ⟨q, b', hloop, hq, hreads, hnonzero⟩ := writeDigits_digits
    (b := fun i => if i < 33 then 0 else buffer.getD i 0) hbase hlt rfl hletter
  have hlen : ((Nat.digits base n).reverse.map lettermap).length = (Nat.digits base n).length := by
    rw [List.length_map, List.length_reverse]
  obtain ⟨signed, hcopy, hsigned⟩ := copyAt_signed hnonzero hreads (by omega) (by omega)
  refine ⟨window signed 33, ?_, prefix_window hsigned ?_⟩
  · rw [itoaSAt, if_neg (show ¬ (36 < base ∨ base < 2) by omega),
      if_neg (withoutSign_eq_zero.not.mpr hnum), hn, eq_window buffer 0, hbuffer,
      storeAll_front (by decide), except_ok_bind,
      itoaSLoop_window hbase (by decide) (by decide) (by omega), hloop]
    dsimp only
    rw [except_ok_bind]
    dsimp only
    rw [store_window (by decide), except_ok_bind, length_window, hcopy, except_ok_bind,
      show 32 - q = (Nat.digits base n).length by omega]
    rfl
  · rw [List.length_append, List.length_cons, hlen, List.length_singleton]
    omega

/-- With more digits it gives up, whether the text fits or not. -/
theorem itoaSAt_of_lt (errno : BitVec 32) (hbuffer : buffer.length = 33) (hbase : 2 ≤ base)
    (hle : base ≤ 36) (hnum : num ≠ 0)
    (hlength : 30 < (Nat.digits base (withoutSign num).toInt.toNat).length) :
    ∃ buffer', itoaSAt errno buffer num base = .ok (-1, 4, buffer') := by
  obtain ⟨b', hloop⟩ := itoaSLoop_overflow (b := fun i => if i < 33 then 0 else buffer.getD i 0)
    hbase (show 32 + 0 = 32 from rfl) (show 32 ≤ 33 by decide) (Nat.zero_le 30)
    (by rwa [Nat.zero_add])
  refine ⟨window b' 33, ?_⟩
  rw [itoaSAt, if_neg (show ¬ (36 < base ∨ base < 2) by omega),
    if_neg (withoutSign_eq_zero.not.mpr hnum), eq_window buffer 0, hbuffer,
    storeAll_front (by decide), except_ok_bind, hloop]
  rfl

/-! ## When it is right -/

theorem length_numeral (hn : n ≠ 0) : (numeral base n).length = (Nat.digits base n).length := by
  rw [numeral, if_neg hn, List.length_reverse]

theorem length_signedText_of_neg {z : ℤ} (hz : z < 0) :
    (signedText base z).length = (Nat.digits base z.natAbs).length + 1 := by
  rw [signedText, if_pos hz, List.length_cons, List.length_map, length_numeral (by omega)]

theorem signedText_of_pos {z : ℤ} (hz : 0 < z) :
    signedText base z = (Nat.digits base z.natAbs).reverse.map lettermap := by
  rw [signedText, if_neg (by omega), numeral, if_neg (by omega)]

/-- Every text fits but one, the least number in base 2. -/
theorem signedText_fits (hbase : 2 ≤ base) (hnum : num ≠ 0)
    (h : ¬ (num = 0x80000000 ∧ base = 2)) : (signedText base num.toInt).length + 1 ≤ 33 := by
  have hdigits : (Nat.digits base num.toInt.natAbs).length ≤ 31 := by
    rw [Nat.digits_length_le_iff (by omega)]
    by_cases hmin : num = 0x80000000
    · have hbase' : 3 ≤ base := by
        by_contra hlt
        exact h ⟨hmin, by omega⟩
      rw [hmin]
      exact Nat.lt_of_lt_of_le (show 2 ^ 31 < 3 ^ 31 by decide) (Nat.pow_le_pow_left hbase' 31)
    · exact Nat.lt_of_lt_of_le (natAbs_toInt_lt hmin) (Nat.pow_le_pow_left hbase 31)
  rcases Int.lt_trichotomy num.toInt 0 with hneg | hzero | hpos
  · rw [length_signedText_of_neg hneg]
    omega
  · exact absurd (BitVec.eq_of_toInt_eq hzero) hnum
  · rw [signedText_of_pos hpos, List.length_map, List.length_reverse]
    omega

/-- A sign in front of the digits of a number above zero is not its text. -/
theorem not_prefix_signedText {z : ℤ} {text : List (BitVec 8)} (hbase : 2 ≤ base) (hle : base ≤ 36)
    (hz : 0 < z) (hsign : 0x2d :: text <+: buffer) : ¬ signedText base z ++ [0] <+: buffer := by
  intro hfront
  have hletter : ∀ d < 36, lettermap d ≠ 0x2d := by decide
  have hne : Nat.digits base z.natAbs ≠ [] := Nat.digits_ne_nil_iff_ne_zero.mpr (by omega)
  obtain ⟨d, digits, hdigits⟩ := List.exists_cons_of_ne_nil (List.reverse_ne_nil_iff.mpr hne)
  have hd : d < base := Nat.digits_lt_base (by omega)
    (List.mem_reverse.mp (hdigits ▸ List.mem_cons_self))
  rw [signedText_of_pos hz, hdigits, List.map_cons, List.cons_append] at hfront
  obtain ⟨rest, rfl⟩ := hsign
  rw [List.cons_append, List.cons_prefix_cons] at hfront
  exact hletter d (Nat.lt_of_lt_of_le hd hle) hfront.1

/-- The count of a number below zero misses the sign, and is the one of no digits for the
least number. -/
theorem length_digits_ne_signedText (hneg : num.toInt < 0) :
    (Nat.digits base (withoutSign num).toInt.toNat).length ≠
      (signedText base num.toInt).length := by
  rw [length_signedText_of_neg hneg]
  by_cases hmin : num = 0x80000000
  · have hnone : (withoutSign 0x80000000).toInt.toNat = 0 := by decide
    rw [hmin, hnone, Nat.digits_zero]
    exact (Nat.succ_ne_zero _).symm
  · rw [toNat_toInt_withoutSign hmin]
    exact Nat.ne_of_lt (Nat.lt_succ_self _)

/-- Zero it writes as `itoa` does. -/
theorem itoaSRight_zero (errno : BitVec 32) (hbuffer : buffer.length = 33) (hbase : 2 ≤ base)
    (hle : base ≤ 36) : ItoaSRight errno buffer 0 base := by
  have hrun : itoaSAt errno (window (buffer.getD · 0) 33) 0 base =
      .ok (1, errno, window (Function.update (Function.update (buffer.getD · 0) 0 0x30) 1 0)
        33) := by
    rw [itoaSAt, if_neg (show ¬ (36 < base ∨ base < 2) by omega),
      if_pos (withoutSign_eq_zero.mpr rfl), store_window (by decide), except_ok_bind,
      store_window (by decide), except_ok_bind]
    rfl
  rw [← hbuffer, ← eq_window, hbuffer] at hrun
  have htext : signedText base (0 : BitVec 32).toInt = [0x30] := rfl
  refine ⟨1, errno, _, hrun, fun _ => ⟨?_, by rw [htext]; rfl⟩, fun h => absurd h.1 (by decide)⟩
  rw [htext]
  exact prefix_window ⟨rfl, rfl, trivial⟩ (by decide)

/-- The text of the least number in base 2 does not fit, so nothing is asked of the buffer. -/
theorem itoaSRight_least (errno : BitVec 32) (hbuffer : buffer.length = 33) :
    ItoaSRight errno buffer 0x80000000 2 := by
  have hlength : (signedText 2 (0x80000000 : BitVec 32).toInt).length = 33 := by
    have habs : (0x80000000 : BitVec 32).toInt.natAbs = 2 ^ 31 := by decide
    rw [length_signedText_of_neg (by decide), habs,
      Nat.length_digits 2 (2 ^ 31) (by decide) (by decide), Nat.log_pow (by decide)]
  obtain ⟨signed, hrun, -⟩ := itoaSAt_of_le errno hbuffer (le_refl 2) (by decide)
    (show (0x80000000 : BitVec 32) ≠ 0 by decide) (Nat.zero_le 30)
  rw [ItoaSRight, hlength]
  exact ⟨_, errno, signed, hrun, fun h => absurd h (by decide), fun h => absurd h.1 (by decide)⟩

/-- Where the text fits, a number other than zero does not come out right. -/
theorem not_itoaSRight_of_fits (errno : BitVec 32) (hbuffer : buffer.length = 33)
    (hbase : 2 ≤ base) (hle : base ≤ 36) (hnum : num ≠ 0)
    (hfits : (signedText base num.toInt).length + 1 ≤ 33) :
    ¬ ItoaSRight errno buffer num base := by
  rintro ⟨result, errno', buffer', hrun, hright, -⟩
  obtain ⟨hfront, hresult⟩ := hright hfits
  rcases Nat.lt_or_ge 30 (Nat.digits base (withoutSign num).toInt.toNat).length with hlt | hge
  · -- it gives up, though the text fits
    obtain ⟨full, hrun'⟩ := itoaSAt_of_lt errno hbuffer hbase hle hnum hlt
    rw [hrun', Except.ok.injEq, Prod.mk.injEq] at hrun
    omega
  · obtain ⟨signed, hrun', hsign⟩ := itoaSAt_of_le errno hbuffer hbase hle hnum hge
    rw [hrun', Except.ok.injEq, Prod.mk.injEq, Prod.mk.injEq] at hrun
    obtain ⟨rfl, rfl, rfl⟩ := hrun
    rcases Int.lt_trichotomy num.toInt 0 with hneg | hzero | hpos
    · exact length_digits_ne_signedText hneg (by exact_mod_cast hresult)
    · exact hnum (BitVec.eq_of_toInt_eq hzero)
    · exact not_prefix_signedText hbase hle hpos hsign hfront

/-- **When a signed numeral is right.** `itoa_s` is right about zero. The least number in base 2 is
the one whose text does not fit, so nothing is asked of what is left there, and whatever is
reported is right. Every other number comes out wrong.

A number above zero has a sign in front of its digits, and of one below zero the sign is not in the
count that is returned. With 31 digits the loop gives up, although they fit. -/
theorem itoaSRight_iff (errno num : BitVec 32) {buffer : List (BitVec 8)}
    (hbuffer : buffer.length = 33) (hbase : 2 ≤ base) (hle : base ≤ 36) :
    ItoaSRight errno buffer num base ↔ num = 0 ∨ (num = 0x80000000 ∧ base = 2) := by
  constructor
  · intro hright
    by_contra hnot
    obtain ⟨hnum, hmin⟩ := not_or.mp hnot
    exact not_itoaSRight_of_fits errno hbuffer hbase hle hnum (signedText_fits hbase hnum hmin)
      hright
  · rintro (rfl | ⟨rfl, rfl⟩)
    · exact itoaSRight_zero errno hbuffer hbase hle
    · exact itoaSRight_least errno hbuffer

/-- Zero comes out as `0`. -/
theorem zero_right : ItoaSRight 0 (List.replicate 33 0xaa) 0 10 :=
  (itoaSRight_iff 0 0 List.length_replicate (by decide) (by decide)).mpr (Or.inl rfl)

/-- Five comes out as `-5`. -/
theorem five_not_right : ¬ ItoaSRight 0 (List.replicate 33 0xaa) 5 10 := by
  rintro ⟨result, errno', buffer', hrun, hright, -⟩
  have htext : signedText 10 (5 : BitVec 32).toInt = [0x35] := by
    simp [signedText, numeral, lettermap]
  have hsigned : itoaSAt 0 (List.replicate 33 0xaa) 5 10 =
      .ok (1, 0, 0x2d :: 0x35 :: List.replicate 29 0 ++ [0x35, 0]) := by decide
  rw [hsigned, Except.ok.injEq, Prod.mk.injEq, Prod.mk.injEq] at hrun
  obtain ⟨rfl, rfl, rfl⟩ := hrun
  rw [htext] at hright
  exact absurd (hright (by decide)).1 (by decide)

end MissyKernel
