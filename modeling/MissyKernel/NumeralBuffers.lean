import MissyKernel.KiPrintf
import MissyKernel.MemoryObject

/-!
# Numerals in their buffers

`itoa` has a buffer of `ITOA_BUFFER_SIZE` bytes and `ki_make_ulong_string` one of `MAXCHARS`.
Here the buffers are objects of just these sizes, so that a store outside is a fault, and the
two routines are the ones of before on them. A word has at most 32 digits, and in base 2 it
may have all of them: then the numeral and its zero fill the buffer of `itoa`.

What is left there is the numeral of the number, which reads back as the number and does not
begin with a zero; the two alphabets differ in case only.

`itoaAt_of_itoa` and `kiMakeUlongStringAt_of_kiMakeUlongString` say that the routines on these
buffers are the ones of `Vprintf` and `KiPrintf`, so that what was shown there about the text is
about the same code. `Canonical` collects what makes a numeral right, whatever the alphabet.
-/

namespace MissyKernel

/-- `while ((*buffer++ = *writeptr++))`, within one object. -/
def copyAt : ℕ → ℕ → ℕ → List (BitVec 8) → Except Fault (List (BitVec 8))
  | 0, _, _, _ => .error .turns
  | turns + 1, dst, src, object => do
    let c ← load object src
    let object ← store object dst c
    if c = 0 then pure object else copyAt turns (dst + 1) (src + 1) object

/-- The digit loop of `itoa`: where it ends, how many digits were written, and the buffer, or
the buffer where it gives up with `EOVERFLOW`. -/
def itoaLoop (base : ℕ) :
    ℕ → ℕ → ℕ → List (BitVec 8) → Except Fault (Except (List (BitVec 8)) (ℕ × ℕ × List (BitVec 8)))
  | writeptr, 0, written, buffer => pure (.ok (writeptr, written, buffer))
  | 0, _ + 1, _, _ => .error .outside
  | writeptr + 1, num + 1, written, buffer => do
    let buffer ← store buffer writeptr (lettermap ((num + 1) % base))
    if 32 < written + 1 then pure (.error buffer)
    else itoaLoop base writeptr ((num + 1) / base) (written + 1) buffer

/-- `itoa`, where every store is checked. -/
def itoaAt (errno : BitVec 32) (buffer : List (BitVec 8)) (num : BitVec 32) (base : ℕ) :
    Except Fault (ℤ × BitVec 32 × List (BitVec 8)) :=
  if 36 < base ∨ base < 2 then do
    let buffer ← store buffer 0 0
    pure (0, 3, buffer)
  else if num = 0 then do
    let buffer ← store buffer 0 0x30
    let buffer ← store buffer 1 0
    pure (1, errno, buffer)
  else do
    let buffer ← storeAll 0 33 0 buffer
    match ← itoaLoop base 32 num.toNat 0 buffer with
    | .error buffer => pure (-1, 4, buffer)
    | .ok (writeptr, written, buffer) =>
      let buffer ← copyAt buffer.length 0 writeptr buffer
      pure (written, errno, buffer)

/-- The digit loop of `ki_make_ulong_string`. -/
def kiDigitLoop (base : ℕ) : ℕ → ℕ → List (BitVec 8) → Except Fault (ℕ × List (BitVec 8))
  | writeptr, 0, buffer => pure (writeptr, buffer)
  | 0, _ + 1, _ => .error .outside
  | writeptr + 1, number + 1, buffer => do
    let buffer ← store buffer writeptr (kiLettermap ((number + 1) % base))
    kiDigitLoop base writeptr ((number + 1) / base) buffer

/-- `ki_make_ulong_string`, where every store is checked. -/
def kiMakeUlongStringAt (kinitErrno : BitVec 32) (buffer : List (BitVec 8)) (number : BitVec 32)
    (base : ℕ) : Except Fault (BitVec 32 × List (BitVec 8)) := do
  let buffer ← storeAll 0 65 0 buffer
  if number = 0 then
    let buffer ← store buffer 0 0x30
    let buffer ← store buffer 1 0
    pure (kinitErrno, buffer)
  else if 16 < base ∨ base < 2 then pure (1, buffer)
  else
    let (writeptr, buffer) ← kiDigitLoop base 64 number.toNat buffer
    let buffer ← copyAt buffer.length 0 writeptr buffer
    pure (kinitErrno, buffer)

variable {b b' : ℕ → BitVec 8} {base n p q size written turns fuel dst src : ℕ}
  {l : List (BitVec 8)} {errno : BitVec 32}

/-! ## The loops, in a buffer -/

theorem copyAt_window (hl : ∀ c ∈ l, c ≠ 0) (h : Reads b src (l ++ [0])) (hdst : dst ≤ src)
    (hsize : src + l.length < size) (hturns : l.length < turns) (hfuel : l.length < fuel) :
    copyAt turns dst src (window b size) = .ok (window (copyString fuel dst src b) size) := by
  induction l generalizing b dst src turns fuel with
  | nil =>
    rw [List.length_nil] at hsize
    obtain ⟨turns, rfl⟩ := Nat.exists_eq_succ_of_ne_zero (Nat.ne_of_gt hturns)
    obtain ⟨fuel, rfl⟩ := Nat.exists_eq_succ_of_ne_zero (Nat.ne_of_gt hfuel)
    rw [copyAt, load_window (by omega), except_ok_bind, store_window (by omega), except_ok_bind,
      copyString, if_pos h.1, if_pos h.1]
    rfl
  | cons c l ih =>
    rw [List.length_cons] at hsize
    obtain ⟨turns, rfl⟩ := Nat.exists_eq_succ_of_ne_zero (Nat.ne_of_gt (Nat.zero_lt_of_lt hturns))
    obtain ⟨fuel, rfl⟩ := Nat.exists_eq_succ_of_ne_zero (Nat.ne_of_gt (Nat.zero_lt_of_lt hfuel))
    obtain ⟨hc, hl⟩ := List.forall_mem_cons.mp hl
    obtain ⟨hhead, htail⟩ := h
    have hrest : Reads (Function.update b dst (b src)) (src + 1) (l ++ [0]) :=
      htail.congr fun i hi => Function.update_of_ne (show i ≠ dst by omega) _ _
    rw [copyAt, load_window (by omega), except_ok_bind, store_window (by omega), except_ok_bind,
      copyString, if_neg (by rwa [hhead]), if_neg (by rwa [hhead])]
    exact ih hl hrest (Nat.succ_le_succ hdst) (by omega) (Nat.lt_of_succ_lt_succ hturns)
      (Nat.lt_of_succ_lt_succ hfuel)

/-- The count of `itoa` tells how far its pointer is from the end, and so stays below 33. -/
theorem itoaLoop_window (hwritten : p + written = 32) (hsize : p ≤ size) :
    itoaLoop base p n written (window b size) =
      match writeDigits lettermap base p n b with
      | none => .error .outside
      | some (q, b') => .ok (.ok (q, 32 - q, window b' size)) := by
  induction p generalizing n written b with
  | zero =>
    cases n with
    | zero =>
      obtain rfl : written = 32 := by omega
      rfl
    | succ n => rfl
  | succ p ih =>
    cases n with
    | zero =>
      obtain rfl : written = 32 - (p + 1) := by omega
      rfl
    | succ n =>
      rw [itoaLoop, store_window (by omega), except_ok_bind, if_neg (by omega),
        ih (by omega) (by omega), writeDigits]

theorem kiDigitLoop_window (hsize : p ≤ size) :
    kiDigitLoop base p n (window b size) =
      match writeDigits kiLettermap base p n b with
      | none => .error .outside
      | some (q, b') => .ok (q, window b' size) := by
  induction p generalizing n b with
  | zero => cases n <;> rfl
  | succ p ih =>
    cases n with
    | zero => rfl
    | succ n =>
      rw [kiDigitLoop, store_window (by omega), except_ok_bind, ih (by omega), writeDigits]

/-- The copy at the end of both routines. -/
theorem copyAt_numeral (hl : ∀ c ∈ l, c ≠ 0) (h : Reads b q (l ++ [0]))
    (hlength : q + l.length = p) :
    copyAt (window b (p + 1)).length 0 q (window b (p + 1)) =
      .ok (window (copyString (p + 1 - q) 0 q b) (p + 1)) := by
  rw [length_window]
  exact copyAt_window hl h (Nat.zero_le q) (by omega) (by omega) (by omega)

/-! ## The routines -/

/-- In its buffer `itoa` is the routine of before. -/
theorem itoaAt_of_itoa {num : BitVec 32} {result : ℤ} {errno' : BitVec 32} (hbase : 2 ≤ base)
    (hle : base ≤ 36) (h : itoa errno b num base = (result, errno', b')) :
    itoaAt errno (window b 33) num base = .ok (result, errno', window b' 33) := by
  have hvalid : ¬ (36 < base ∨ base < 2) := by omega
  rw [itoa, if_neg hvalid] at h
  rw [itoaAt, if_neg hvalid]
  by_cases hzero : num = 0
  · rw [if_pos hzero, Prod.mk.injEq, Prod.mk.injEq] at h
    obtain ⟨rfl, rfl, rfl⟩ := h
    rw [if_pos hzero, store_window (by decide), except_ok_bind, store_window (by decide),
      except_ok_bind]
    rfl
  · have hpos : num.toNat ≠ 0 := fun h => hzero (BitVec.eq_of_toNat_eq h)
    have hletter : ∀ d < base, lettermap d ≠ 0 := fun d hd =>
      lettermap_ne_zero (Nat.lt_of_lt_of_le hd hle)
    obtain ⟨q, digits, hloop, hlength, hreads, hnonzero⟩ := writeDigits_numeral
      (b := fun i => if i < 33 then 0 else b i) hbase
      (toNat_lt_base_pow num hbase (le_refl 32)) hpos rfl hletter
    rw [if_neg hzero] at h
    simp only [hloop, Prod.mk.injEq] at h
    obtain ⟨rfl, rfl, rfl⟩ := h
    rw [if_neg hzero, storeAll_front (by decide), except_ok_bind,
      itoaLoop_window (by decide) (by decide), hloop]
    dsimp only
    rw [except_ok_bind]
    dsimp only
    rw [copyAt_numeral hnonzero hreads (by rwa [List.length_map]), except_ok_bind]
    have hcount : ((32 - q : ℕ) : ℤ) = 32 - q := by omega
    rw [hcount]
    rfl

/-- In its buffer `ki_make_ulong_string` is the routine of before. -/
theorem kiMakeUlongStringAt_of_kiMakeUlongString {number : BitVec 32} {errno' : BitVec 32}
    (hbase : 2 ≤ base) (hle : base ≤ 16)
    (h : kiMakeUlongString errno b number base = some (errno', b')) :
    kiMakeUlongStringAt errno (window b 65) number base = .ok (errno', window b' 65) := by
  have hvalid : ¬ (16 < base ∨ base < 2) := by omega
  rw [kiMakeUlongString] at h
  rw [kiMakeUlongStringAt, storeAll_front (by decide), except_ok_bind]
  by_cases hzero : number = 0
  · rw [if_pos hzero, Option.some_inj, Prod.mk.injEq] at h
    obtain ⟨rfl, rfl⟩ := h
    rw [if_pos hzero, store_window (by decide), except_ok_bind, store_window (by decide),
      except_ok_bind]
    rfl
  · have hpos : number.toNat ≠ 0 := fun h => hzero (BitVec.eq_of_toNat_eq h)
    have hletter : ∀ d < base, kiLettermap d ≠ 0 := fun d hd =>
      kiLettermap_ne_zero (Nat.lt_of_lt_of_le hd hle)
    obtain ⟨q, digits, hloop, hlength, hreads, hnonzero⟩ := writeDigits_numeral
      (b := fun i => if i < 65 then 0 else b i) hbase
      (toNat_lt_base_pow number hbase (show 32 ≤ 64 by decide)) hpos rfl hletter
    rw [if_neg hzero, if_neg hvalid] at h
    simp only [hloop, Option.some_inj, Prod.mk.injEq] at h
    obtain ⟨rfl, rfl⟩ := h
    rw [if_neg hzero, if_neg hvalid, kiDigitLoop_window (by decide), hloop]
    dsimp only
    rw [except_ok_bind]
    dsimp only
    rw [copyAt_numeral hnonzero hreads (by rwa [List.length_map]), except_ok_bind]
    rfl

/-! ## Reading a numeral back -/

/-- The value of a digit, its letter in either case. -/
def digitValue (c : BitVec 8) : Option ℕ :=
  if 0x30 ≤ c ∧ c ≤ 0x39 then some (c.toNat - 0x30)
  else if 0x41 ≤ c ∧ c ≤ 0x5a then some (c.toNat - 0x41 + 10)
  else if 0x61 ≤ c ∧ c ≤ 0x7a then some (c.toNat - 0x61 + 10)
  else none

/-- The number that a text continues, if all of it are digits of the base. -/
def parse (base : ℕ) : ℕ → List (BitVec 8) → Option ℕ
  | n, [] => some n
  | n, c :: text =>
    match digitValue c with
    | none => none
    | some d => if d < base then parse base (n * base + d) text else none

/-- The text is the numeral of the number: it reads back, it is not empty, and it does not begin
with a zero unless it is nothing else. -/
structure Canonical (base n : ℕ) (text : List (BitVec 8)) : Prop where
  /-- it reads back -/
  parse_eq : parse base 0 text = some n
  /-- it is not empty -/
  ne_nil : text ≠ []
  /-- no leading zero -/
  no_leading_zero : text.head? = some 0x30 → text = [0x30]

theorem parse_map_letter {letter : ℕ → BitVec 8} {digits : List ℕ}
    (h : ∀ d ∈ digits, d < base ∧ digitValue (letter d) = some d) (m : ℕ) :
    parse base m (digits.map letter) = some (digits.foldl (fun m d => m * base + d) m) := by
  induction digits generalizing m with
  | nil => rfl
  | cons d digits ih =>
    obtain ⟨⟨hlt, hvalue⟩, hrest⟩ := List.forall_mem_cons.mp h
    rw [List.map_cons, parse, hvalue]
    dsimp only
    rw [if_pos hlt, ih hrest, List.foldl_cons]

/-- With any alphabet of digits, a numeral is canonical. -/
theorem canonical_map_numeral {letter : ℕ → BitVec 8} (hbase : 2 ≤ base)
    (hletter : ∀ d < base, digitValue (letter d) = some d) (n : ℕ) :
    Canonical base n ((numeral base n).map letter) := by
  have hdigits : ∀ d ∈ numeral base n, d < base ∧ digitValue (letter d) = some d := fun d hd =>
    ⟨numeral_lt hbase hd, hletter d (numeral_lt hbase hd)⟩
  refine ⟨?_, ?_, fun hzero => ?_⟩
  · rw [parse_map_letter hdigits, foldl_numeral]
  · exact List.map_eq_nil_iff.not.mpr (numeral_ne_nil base n)
  · -- the first digit is a zero, and so the number is
    have hhead : (numeral base n).head? = some 0 := by
      obtain ⟨d, digits, hnumeral⟩ := List.exists_cons_of_ne_nil (numeral_ne_nil base n)
      have hd : d ∈ numeral base n := hnumeral ▸ List.mem_cons_self
      rw [hnumeral, List.map_cons, List.head?_cons, Option.some_inj] at hzero
      have hvalue := (hdigits d hd).2
      rw [hzero] at hvalue
      rw [hnumeral, List.head?_cons, ← hvalue]
      rfl
    rw [numeral, if_pos (eq_zero_of_head?_numeral hhead), List.map_singleton] at hzero ⊢
    exact congrArg (fun c => [c]) (Option.some_inj.mp hzero)

/-- What a buffer of some size holds at its front. -/
theorem prefix_window (h : Reads b 0 l) (hsize : l.length ≤ size) : l <+: window b size := by
  rw [List.prefix_iff_eq_take, window, ← List.map_take, List.take_range, Nat.min_eq_left hsize,
    h.map_range]

/-- `itoa` leaves the numeral in its buffer, and answers how long it is. -/
theorem itoaAt_numeral (errno num : BitVec 32) {buffer : List (BitVec 8)}
    (hbuffer : buffer.length = 33) (hbase : 2 ≤ base) (hle : base ≤ 36) :
    ∃ buffer', itoaAt errno buffer num base =
        .ok (((numeral base num.toNat).map lettermap).length, errno, buffer') ∧
      (numeral base num.toNat).map lettermap ++ [0] <+: buffer' := by
  obtain ⟨b', hitoa, hlength, hreads⟩ := itoa_eq errno (buffer.getD · 0) hbase hle num
  have hrun := itoaAt_of_itoa hbase hle hitoa
  rw [← hbuffer, ← eq_window, hbuffer] at hrun
  rw [List.length_map]
  refine ⟨_, hrun, prefix_window hreads ?_⟩
  rw [List.length_append, List.length_map, List.length_singleton]
  omega

/-- And so does `ki_make_ulong_string`, with its own letters. -/
theorem kiMakeUlongStringAt_numeral (kinitErrno number : BitVec 32) {buffer : List (BitVec 8)}
    (hbuffer : buffer.length = 65) (hbase : 2 ≤ base) (hle : base ≤ 16) :
    ∃ buffer', kiMakeUlongStringAt kinitErrno buffer number base = .ok (kinitErrno, buffer') ∧
      (numeral base number.toNat).map kiLettermap ++ [0] <+: buffer' := by
  obtain ⟨b', hmake, hreads, hlength⟩ :=
    kiMakeUlongString_eq kinitErrno (buffer.getD · 0) hbase hle number
  have hrun := kiMakeUlongStringAt_of_kiMakeUlongString hbase hle hmake
  rw [← hbuffer, ← eq_window, hbuffer] at hrun
  refine ⟨_, hrun, prefix_window hreads ?_⟩
  rw [List.length_append, List.length_map, List.length_singleton]
  omega

/-- For every word and base both routines stay in their buffers and leave the canonical numeral
there, which is the same but for the case of its letters, and `itoa` answers its length.

Both routines are compared with `writeDigits`, which never leaves its buffer: 32 digits, the most
that a word has, and the zero behind them fill the smaller of the two. -/
theorem numerals_canonical (errno kinitErrno num : BitVec 32) {buffer kiBuffer : List (BitVec 8)}
    (hbuffer : buffer.length = 33) (hkiBuffer : kiBuffer.length = 65) (hbase : 2 ≤ base)
    (hle : base ≤ 36) :
    ∃ text buffer',
      itoaAt errno buffer num base = .ok ((text.length : ℤ), errno, buffer') ∧
      text ++ [0] <+: buffer' ∧ Canonical base num.toNat text ∧
      (base ≤ 16 → ∃ kiText kiBuffer',
        kiMakeUlongStringAt kinitErrno kiBuffer num base = .ok (kinitErrno, kiBuffer') ∧
        kiText ++ [0] <+: kiBuffer' ∧ Canonical base num.toNat kiText ∧
        List.Forall₂ SameButCase (text.map charOf) (kiText.map charOf)) := by
  have hvalue : ∀ d < 36, digitValue (lettermap d) = some d := by decide
  have hkiValue : ∀ d < 16, digitValue (kiLettermap d) = some d := by decide
  obtain ⟨buffer', hitoa, hfront⟩ := itoaAt_numeral errno num hbuffer hbase hle
  refine ⟨_, buffer', hitoa, hfront, ?_, fun hle16 => ?_⟩
  · exact canonical_map_numeral hbase (fun d hd => hvalue d (by omega)) _
  obtain ⟨kiBuffer', hmake, hkiFront⟩ :=
    kiMakeUlongStringAt_numeral kinitErrno num hkiBuffer hbase hle16
  refine ⟨_, kiBuffer', hmake, hkiFront, ?_, ?_⟩
  · exact canonical_map_numeral hbase (fun d hd => hkiValue d (by omega)) _
  · rw [List.map_map, List.map_map, List.forall₂_map_left_iff, List.forall₂_map_right_iff,
      List.forall₂_same]
    exact fun d hd => lettermap_sameButCase (Nat.lt_of_lt_of_le (numeral_lt hbase hd) hle16)

/-- The largest word in base 2, where a numeral is longest. -/
theorem largest_word_canonical :
    ∃ text buffer' kiText kiBuffer',
      itoaAt 0 (List.replicate 33 0xaa) 0xffffffff 2 = .ok ((text.length : ℤ), 0, buffer') ∧
      text ++ [0] <+: buffer' ∧ Canonical 2 0xffffffff text ∧
      kiMakeUlongStringAt 0 (List.replicate 65 0xaa) 0xffffffff 2 = .ok (0, kiBuffer') ∧
      kiText ++ [0] <+: kiBuffer' ∧ Canonical 2 0xffffffff kiText ∧
      List.Forall₂ SameButCase (text.map charOf) (kiText.map charOf) := by
  obtain ⟨text, buffer', hitoa, hfront, hcanonical, hshared⟩ :=
    numerals_canonical 0 0 0xffffffff (List.length_replicate (a := 0xaa))
      (List.length_replicate (a := 0xaa)) (le_refl 2) (by decide)
  obtain ⟨kiText, kiBuffer', hmake⟩ := hshared (by decide)
  exact ⟨text, buffer', kiText, kiBuffer', hitoa, hfront, hcanonical, hmake⟩

end MissyKernel
