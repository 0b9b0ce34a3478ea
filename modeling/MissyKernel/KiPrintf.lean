import MissyKernel.Kterm
import MissyKernel.VprintfText

/-!
# `ki_printf` and `vprintf` agree

`ki_printf` walks over the format one character at a time and sends each to `ki_putc`. Its
numbers go through `ki_make_ulong_string`, with lowercase digits and a buffer of 65 bytes,
and it does not look at what `ki_putc` answers, so that nothing stops it before the end of
the format. `%u` and `%o` it does not know.

On the formats that both know, with ASCII text, either function produces the same rendering.

The two functions are related piece by piece (`kiPrintfLoop_piece`, `vprintfLoop_pieces`), each
to the same rendering, and the texts they send differ in the case of hexadecimal digits only
(`SameButCase`). Where a `char` has its highest bit set the two differ, and so the result asks
for ASCII text.
-/

namespace MissyKernel

/-- `"0123456789abcdef"[d]` -/
def kiLettermap (d : ℕ) : BitVec 8 := BitVec.ofNat 8 (if d < 10 then 0x30 + d else 0x61 + (d - 10))

/-- `ki_make_ulong_string`: `kinit_errno` and the buffer, which has `MAXCHARS` bytes. It is
`none` where it would write before the buffer. -/
def kiMakeUlongString (kinitErrno : BitVec 32) (buffer : ℕ → BitVec 8) (number : BitVec 32)
    (base : ℕ) : Option (BitVec 32 × (ℕ → BitVec 8)) :=
  let buffer := fun i => if i < 65 then 0 else buffer i
  if number = 0 then some (kinitErrno, Function.update (Function.update buffer 0 0x30) 1 0)
  else if 16 < base ∨ base < 2 then some (1, buffer)
  else
    match writeDigits kiLettermap base 64 number.toNat buffer with
    | none => none
    | some (writeptr, buffer) => some (kinitErrno, copyString (65 - writeptr) 0 writeptr buffer)

/-- The loop of `ki_strlen`; the first argument bounds the bytes it reads. -/
def kiStrlenLoop : ℕ → ℕ → (ℕ → BitVec 8) → Option ℕ
  | 0, _, _ => none
  | fuel + 1, s, b => if b s = 0 then some s else kiStrlenLoop fuel (s + 1) b

/-- `ki_strlen` on a buffer of `MAXCHARS` bytes; `none` where it would read behind it. -/
def kiStrlen (b : ℕ → BitVec 8) : Option ℕ := kiStrlenLoop 65 0 b

/-- The early terminal, and what `ki_printf` sent to `ki_putc` so far, with `kinit_errno`. -/
structure EarlyConsole : Type where
  /-- the terminal -/
  term : Kterm
  /-- the arguments of `ki_putc`, oldest first -/
  handed : List (BitVec 32)
  /-- `kinit_errno` -/
  kinitErrno : BitVec 32

namespace EarlyConsole

/-- A call of `ki_putc`. -/
def putc (con : EarlyConsole) (c : BitVec 32) : EarlyConsole :=
  { con with term := kiPutc con.term c, handed := con.handed ++ [c] }

/-- The calls for the characters of a text. -/
def putText (con : EarlyConsole) (text : List (BitVec 8)) : EarlyConsole :=
  text.foldl (fun con c => con.putc (charOf c)) con

/-- A branch that prints a number. The length is that of an unchanged buffer, and so the same
at each turn of the loop. -/
def putNumber (con : EarlyConsole) (buffer : ℕ → BitVec 8) (argument : BitVec 32) (base : ℕ) :
    Option EarlyConsole :=
  match kiMakeUlongString con.kinitErrno buffer argument base with
  | none => none
  | some (kinitErrno, numStr) =>
    match kiStrlen numStr with
    | none => none
    | some length =>
      some ({ con with kinitErrno := kinitErrno }.putText ((List.range length).map numStr))

end EarlyConsole

/-- The branches of `ki_printf` behind a `%`: the arguments left and the console. It is `none`
where the argument is missing or of another type. -/
def kiConvert (buffer : ℕ → BitVec 8) (letter : BitVec 8) (args : List VaArg)
    (con : EarlyConsole) : Option (List VaArg × EarlyConsole) :=
  if letter = 0x64 ∨ letter = 0x69 then
    match args with
    | .int argument :: args => (con.putNumber buffer argument 10).map (args, ·)
    | _ => none
  else if letter = 0x62 then
    match args with
    | .int argument :: args => (con.putNumber buffer argument 2).map (args, ·)
    | _ => none
  else if letter = 0x58 ∨ letter = 0x78 then
    match args with
    | .int argument :: args => (con.putNumber buffer argument 16).map (args, ·)
    | _ => none
  else if letter = 0x73 then
    match args with
    | .str argument :: args => some (args, con.putText argument.bytes)
    | _ => none
  else if letter = 0x63 then
    match args with
    -- an `unsigned char`, so without a sign
    | .int argument :: args => some (args, con.putc ((argument.setWidth 8).setWidth 32))
    | _ => none
  else some (args, con.putc (charOf letter))

/-- The loop of `ki_printf`. A `%` at the end makes it read on behind the string. -/
def kiPrintfLoop (buffer : ℕ → BitVec 8) :
    List (BitVec 8) → List VaArg → EarlyConsole → Option EarlyConsole
  | [], _, con => some con
  | [c], args, con =>
    if c = 0x25 then none else kiPrintfLoop buffer [] args (con.putc (charOf c))
  | c :: letter :: str, args, con =>
    if c = 0x25 then
      match kiConvert buffer letter args con with
      | none => none
      | some (args, con) => kiPrintfLoop buffer str args con
    else kiPrintfLoop buffer (letter :: str) args (con.putc (charOf c))

/-- `ki_printf`, which returns 0. -/
def kiPrintf (buffer : ℕ → BitVec 8) (con : EarlyConsole) (str : List (BitVec 8))
    (args : List VaArg) : Option EarlyConsole :=
  (kiPrintfLoop buffer str args con).map fun con => { con with term := kiUpdateCursor con.term }

/-! ## Pieces that both know -/

/-- The pieces that `ki_printf` knows, with ASCII text. -/
def Piece.Early : Piece → Prop
  | .literal c _ _ => c < 0x80
  | .percent => True
  | .char w => w.setWidth 8 < (0x80 : BitVec 8)
  | .string s => ∀ c ∈ s.bytes, c < 0x80
  | .number conv _ => conv ≠ .u ∧ conv ≠ .o

/-- The same character, or the letters of one hexadecimal digit in either case. -/
def SameButCase (c d : BitVec 32) : Prop :=
  c = d ∨ ∃ k < 6, c = charOf (BitVec.ofNat 8 (0x41 + k)) ∧ d = charOf (BitVec.ofNat 8 (0x61 + k))

/-- The text that `ki_printf` prints for a piece. -/
def Piece.earlyText : Piece → List (BitVec 8)
  | .literal c _ _ => [c]
  | .percent => [0x25]
  | .char w => [w.setWidth 8]
  | .string s => s.bytes
  | .number conv w => (numeral conv.base w.toNat).map kiLettermap

variable {con : EarlyConsole} {buffer b : ℕ → BitVec 8} {args : List VaArg}
  {str text : List (BitVec 8)}

/-! ## Numbers -/

/-- `ki_strlen` finds the zero behind a string. -/
theorem kiStrlenLoop_eq {a fuel : ℕ} (htext : ∀ c ∈ text, c ≠ 0) (h : Reads b a (text ++ [0]))
    (hfuel : text.length < fuel) : kiStrlenLoop fuel a b = some (a + text.length) := by
  induction text generalizing a fuel with
  | nil =>
    obtain ⟨fuel, rfl⟩ := Nat.exists_eq_succ_of_ne_zero (Nat.ne_of_gt hfuel)
    rw [kiStrlenLoop, if_pos h.1, List.length_nil, Nat.add_zero]
  | cons c text ih =>
    obtain ⟨fuel, rfl⟩ := Nat.exists_eq_succ_of_ne_zero (Nat.ne_of_gt (Nat.zero_lt_of_lt hfuel))
    obtain ⟨hc, htext⟩ := List.forall_mem_cons.mp htext
    have hhead : b a ≠ 0 := by rwa [h.1]
    rw [kiStrlenLoop, if_neg hhead, ih htext h.2 (Nat.lt_of_succ_lt_succ hfuel), List.length_cons,
      Nat.add_right_comm, Nat.add_assoc]

/-- No digit ends the string. -/
theorem kiLettermap_ne_zero {d : ℕ} (hd : d < 16) : kiLettermap d ≠ 0 := by
  have hall : ∀ d < 16, kiLettermap d ≠ 0 := by decide
  exact hall d hd

/-- The buffer holds the digits. -/
theorem kiMakeUlongString_eq (kinitErrno : BitVec 32) (buffer : ℕ → BitVec 8) {base : ℕ}
    (hbase : 2 ≤ base) (hle : base ≤ 16) (number : BitVec 32) :
    ∃ numStr, kiMakeUlongString kinitErrno buffer number base = some (kinitErrno, numStr) ∧
      Reads numStr 0 ((numeral base number.toNat).map kiLettermap ++ [0]) ∧
      (numeral base number.toNat).length ≤ 64 := by
  rw [kiMakeUlongString]
  by_cases hzero : number = 0
  · rw [if_pos hzero, hzero]
    exact ⟨_, rfl, ⟨rfl, rfl, trivial⟩, show 1 ≤ 64 by decide⟩
  have hpos : number.toNat ≠ 0 := fun h => hzero (BitVec.eq_of_toNat_eq h)
  have hlt : number.toNat < base ^ 64 :=
    toNat_lt_base_pow number hbase (show 32 ≤ 64 by decide)
  have hletter : ∀ d < base, kiLettermap d ≠ 0 := fun d hd =>
    kiLettermap_ne_zero (Nat.lt_of_lt_of_le hd hle)
  obtain ⟨q, b', hloop, hlength, hreads⟩ := reads_numeral
    (b := fun i => if i < 65 then 0 else buffer i) hbase hlt hpos rfl hletter
  rw [if_neg hzero, if_neg (by omega)]
  simp only [hloop]
  exact ⟨copyString (65 - q) 0 q b', rfl, hreads, by omega⟩

theorem Conv.base_le (conv : Conv) : conv.base ≤ 16 := by
  cases conv <;> decide

theorem putNumber_eq (con : EarlyConsole) (buffer : ℕ → BitVec 8) (conv : Conv) (w : BitVec 32) :
    con.putNumber buffer w conv.base = some (con.putText (Piece.number conv w).earlyText) := by
  obtain ⟨numStr, hmake, hreads, hlength⟩ := kiMakeUlongString_eq con.kinitErrno buffer
    conv.base_mem.1 conv.base_le w
  have hdigits : ∀ c ∈ (Piece.number conv w).earlyText, c ≠ 0 := by
    intro c hc
    obtain ⟨d, hd, rfl⟩ := List.mem_map.mp hc
    exact kiLettermap_ne_zero (Nat.lt_of_lt_of_le (numeral_lt conv.base_mem.1 hd) conv.base_le)
  have hstrlen : kiStrlen numStr = some (Piece.number conv w).earlyText.length := by
    rw [kiStrlen, kiStrlenLoop_eq hdigits hreads, Nat.zero_add]
    rw [Piece.earlyText, List.length_map]
    omega
  have htext : (List.range (Piece.number conv w).earlyText.length).map numStr =
      (Piece.number conv w).earlyText := (reads_append.mp hreads).1.map_range
  rw [EarlyConsole.putNumber, hmake]
  dsimp only
  rw [hstrlen]
  dsimp only
  rw [htext]

/-! ## The loop -/

theorem handed_putText (con : EarlyConsole) (text : List (BitVec 8)) :
    (con.putText text).handed = con.handed ++ text.map charOf := by
  induction text generalizing con with
  | nil => exact (List.append_nil _).symm
  | cons c text ih =>
    rw [EarlyConsole.putText, List.foldl_cons]
    refine (ih (con.putc (charOf c))).trans ?_
    rw [EarlyConsole.putc, List.append_assoc, List.map_cons, List.singleton_append]

theorem kiPrintfLoop_literal {c : BitVec 8} (hc : c ≠ 0x25) :
    kiPrintfLoop buffer (c :: str) args con =
      kiPrintfLoop buffer str args (con.putText [c]) := by
  cases str with
  | nil => exact if_neg hc
  | cons letter str => exact if_neg hc

theorem kiPrintfLoop_convert {letter : BitVec 8} {args' : List VaArg}
    (h : kiConvert buffer letter args con = some (args', con.putText text)) :
    kiPrintfLoop buffer (0x25 :: letter :: str) args con =
      kiPrintfLoop buffer str args' (con.putText text) := by
  rw [kiPrintfLoop, if_pos rfl, h]

theorem kiConvert_number {conv : Conv} (hconv : conv ≠ .u ∧ conv ≠ .o) (w : BitVec 32) :
    kiConvert buffer conv.letter (.int w :: args) con =
      (con.putNumber buffer w conv.base).map (args, ·) := by
  cases conv with
  | d => rfl
  | i => rfl
  | u => exact absurd rfl hconv.1
  | o => exact absurd rfl hconv.2
  | x => rfl
  | X => rfl
  | b => rfl

/-- Without its highest bit a `char` is the same with a sign or without. -/
theorem charOf_ascii {c : BitVec 8} (hc : c < 0x80) : c.setWidth 32 = charOf c := by
  revert c
  decide

/-- A piece among others. -/
theorem kiPrintfLoop_piece {p : Piece} (hp : p.Early) :
    kiPrintfLoop buffer (p.spelling ++ str) (p.args ++ args) con =
      kiPrintfLoop buffer str args (con.putText p.earlyText) := by
  cases p with
  | literal c noNul noPercent => exact kiPrintfLoop_literal noPercent
  | percent => exact kiPrintfLoop_convert rfl
  | char w =>
    refine kiPrintfLoop_convert ?_
    have hconvert : kiConvert buffer 0x63 (.int w :: args) con =
        some (args, con.putc ((w.setWidth 8).setWidth 32)) := rfl
    exact hconvert.trans (by rw [charOf_ascii hp]; rfl)
  | string s => exact kiPrintfLoop_convert rfl
  | number conv w =>
    refine kiPrintfLoop_convert ((kiConvert_number hp w).trans ?_)
    rw [putNumber_eq]
    rfl

theorem kiPrintfLoop_pieces {pieces : List Piece} (hpieces : ∀ p ∈ pieces, p.Early) :
    kiPrintfLoop buffer (formatOf pieces) (argsOf pieces) con =
      some (con.putText (pieces.flatMap Piece.earlyText)) := by
  induction pieces generalizing con with
  | nil => rw [formatOf, List.flatMap_nil, kiPrintfLoop]; rfl
  | cons p pieces ih =>
    obtain ⟨hp, hpieces⟩ := List.forall_mem_cons.mp hpieces
    rw [formatOf_cons, argsOf_cons, kiPrintfLoop_piece hp, ih hpieces, List.flatMap_cons]
    rw [EarlyConsole.putText, EarlyConsole.putText, EarlyConsole.putText, List.foldl_append]

/-! ## Both at once -/

/-- The two alphabets differ in case only. -/
theorem lettermap_sameButCase {d : ℕ} (hd : d < 16) :
    SameButCase (charOf (lettermap d)) (charOf (kiLettermap d)) := by
  rw [lettermap, kiLettermap]
  by_cases hten : d < 10
  · rw [if_pos hten, if_pos hten]
    exact Or.inl rfl
  · rw [if_neg hten, if_neg hten]
    exact Or.inr ⟨d - 10, by omega, rfl, rfl⟩

/-- All pieces but numbers have one text. -/
theorem Piece.earlyText_eq_or_number (p : Piece) :
    p.earlyText = p.text ∨ ∃ conv w, p = .number conv w := by
  cases p with
  | literal c noNul noPercent => exact .inl rfl
  | percent => exact .inl rfl
  | char w => exact .inl rfl
  | string s => exact .inl rfl
  | number conv w => exact .inr ⟨conv, w, rfl⟩

theorem Piece.text_sameButCase (p : Piece) :
    List.Forall₂ SameButCase (p.text.map charOf) (p.earlyText.map charOf) := by
  obtain hsame | ⟨conv, w, rfl⟩ := p.earlyText_eq_or_number
  · rw [hsame]
    exact List.forall₂_same.mpr fun _ _ => .inl rfl
  · rw [Piece.text, Piece.earlyText, List.map_map, List.map_map, List.forall₂_map_left_iff,
      List.forall₂_map_right_iff, List.forall₂_same]
    exact fun d hd => lettermap_sameButCase
      (Nat.lt_of_lt_of_le (numeral_lt conv.base_mem.1 hd) conv.base_le)

/-- ASCII text has no byte `0xff`. -/
theorem Piece.Early.eof_notMem {p : Piece} (hp : p.Early) : 0xff ∉ p.text := by
  have hascii : ∀ c : BitVec 8, c < 0x80 → 0xff ≠ c := by decide
  cases p with
  | literal c noNul noPercent => exact fun h => hascii c hp (List.mem_singleton.mp h)
  | percent => exact fun h => nomatch List.mem_singleton.mp h
  | char w => exact fun h => hascii _ hp (List.mem_singleton.mp h)
  | string s => exact fun h => hascii _ (hp _ h) rfl
  | number conv w => exact (eof_notMem_number conv w.toNat).1

theorem Piece.not_showsSign_false (p : Piece) : ¬ p.ShowsSign false := by
  obtain hplain | ⟨conv, w, rfl⟩ := p.plain_or_number
  · exact (hplain false).1
  · exact fun h => nomatch h.1

/-- The digits of `ki_make_ulong_string` are the ones of the rendering too. -/
theorem Piece.earlyText_matches (p : Piece) :
    List.Forall₂ RefChar.Matches (p.earlyText.map charOf) (p.rendering false) := by
  obtain hsame | ⟨conv, w, rfl⟩ := p.earlyText_eq_or_number
  · rw [hsame]
    exact p.text_matches p.not_showsSign_false
  · rw [rendering_number (Piece.not_showsSign_false _), digitChars, Piece.earlyText, List.map_map,
      List.forall₂_map_left_iff, List.forall₂_map_right_iff, List.forall₂_same]
    intro d hd
    have hlt := numeral_lt conv.base_mem.1 hd
    split
    · exact Or.inr rfl
    · have hten := conv.base_cases
      rw [RefChar.Matches, Function.comp_apply, kiLettermap, if_pos (by omega)]

/-- What belongs to the pieces one by one belongs to their texts. -/
theorem forall₂_flatMap {α β γ : Type} {R : β → γ → Prop} {f : α → List β} {g : α → List γ}
    {l : List α} (h : ∀ a ∈ l, List.Forall₂ R (f a) (g a)) :
    List.Forall₂ R (l.flatMap f) (l.flatMap g) := by
  induction l with
  | nil => exact .nil
  | cons a l ih =>
    obtain ⟨ha, hl⟩ := List.forall_mem_cons.mp h
    rw [List.flatMap_cons, List.flatMap_cons]
    exact List.rel_append ha (ih hl)

/-- `vprintf` gets to the end of ASCII text. -/
theorem vprintfLoop_pieces {pieces : List Piece} (hpieces : ∀ p ∈ pieces, p.Early)
    (buffer : ℕ → BitVec 8) (written : ℕ) (con : Console)
    (htotal : written + (renderingOf false pieces).length ≤ 2 ^ 31 - 1) :
    ∃ n con', vprintfLoop buffer (formatOf pieces) (argsOf pieces) written con = some (n, con') ∧
      con'.handed = con.handed ++ (pieces.flatMap Piece.text).map charOf := by
  induction pieces generalizing written con with
  | nil =>
    refine ⟨written, con, ?_, (List.append_nil _).symm⟩
    rw [formatOf, List.flatMap_nil, vprintfLoop]
  | cons p pieces ih =>
    obtain ⟨hp, hpieces⟩ := List.forall_mem_cons.mp hpieces
    have hlength : (p.rendering false).length = p.text.length := by
      rw [← (p.text_matches p.not_showsSign_false).length_eq, List.length_map]
    have hrun := length_takeWhile_le false pieces
    rw [renderingOf_cons, List.length_append, hlength] at htotal
    obtain ⟨con₁, hemit, -, hhanded⟩ :=
      emit_ok con (show written + p.text.length ≤ 2 ^ 31 - 1 by omega) hp.eof_notMem
    obtain ⟨n, con', hloop, hhanded'⟩ := ih hpieces (written + p.text.length) con₁ (by omega)
    refine ⟨n, con', ?_, ?_⟩
    · rw [formatOf_cons, argsOf_cons, vprintfLoop_piece p (by omega), hemit]
      exact hloop
    · rw [hhanded', hhanded, List.flatMap_cons, List.map_append, List.append_assoc]

/-- **The two printfs agree.** On a format that both know, with ASCII text and at most `INT_MAX`
characters of output, `ki_printf` sends to `ki_putc` what `vprintf` sends to `putchar`, but for the
case of hexadecimal letters: both send the rendering of the pieces.

Each loop is followed through the pieces on its own, and what it has sent is compared with the
rendering; the two are never run side by side. -/
theorem printfs_agree (buffer kiBuffer : ℕ → BitVec 8) (con : Console) (early : EarlyConsole)
    (pieces : List Piece) (hpieces : ∀ p ∈ pieces, p.Early)
    (htotal : (renderingOf false pieces).length ≤ 2 ^ 31 - 1) :
    ∃ n con' out early' earlyOut,
      vprintf buffer con (formatOf pieces) (argsOf pieces) = some (n, con') ∧
      con'.handed = con.handed ++ out ∧
      kiPrintf kiBuffer early (formatOf pieces) (argsOf pieces) = some early' ∧
      early'.handed = early.handed ++ earlyOut ∧
      List.Forall₂ SameButCase out earlyOut ∧
      List.Forall₂ RefChar.Matches out (renderingOf false pieces) ∧
      List.Forall₂ RefChar.Matches earlyOut (renderingOf false pieces) := by
  obtain ⟨n, con', hloop, hhanded⟩ := vprintfLoop_pieces hpieces buffer 0 con
    ((Nat.zero_add _).trans_le htotal)
  let after := early.putText (pieces.flatMap Piece.earlyText)
  have hki : kiPrintf kiBuffer early (formatOf pieces) (argsOf pieces) =
      some { after with term := kiUpdateCursor after.term } := by
    rw [kiPrintf, kiPrintfLoop_pieces hpieces, Option.map_some]
  refine ⟨n, con', (pieces.flatMap Piece.text).map charOf, _,
    (pieces.flatMap Piece.earlyText).map charOf, hloop, hhanded, hki, ?_, ?_, ?_, ?_⟩
  · exact handed_putText early (pieces.flatMap Piece.earlyText)
  · rw [List.map_flatMap, List.map_flatMap]
    exact forall₂_flatMap fun p _ => p.text_sameButCase
  · rw [List.map_flatMap]
    exact forall₂_flatMap fun p _ => p.text_matches p.not_showsSign_false
  · rw [List.map_flatMap]
    exact forall₂_flatMap fun p _ => p.earlyText_matches

/-- `"%d %x"` with -1 and 255: neither prints a sign, and the case of the letters differs. -/
theorem printfs_agree_hex :
    ∃ n con' out early' earlyOut,
      vprintf (fun _ => 0) ⟨.start fun _ => 0, [], 0⟩ [0x25, 0x64, 0x20, 0x25, 0x78]
        [.int (-1), .int 255] = some (n, con') ∧
      con'.handed = [] ++ out ∧
      kiPrintf (fun _ => 0) ⟨.start (fun _ => 0) 0x0f, [], 0⟩ [0x25, 0x64, 0x20, 0x25, 0x78]
        [.int (-1), .int 255] = some early' ∧
      early'.handed = [] ++ earlyOut ∧
      List.Forall₂ SameButCase out earlyOut ∧
      List.Forall₂ RefChar.Matches out (renderingOf false
        [.number .d (-1), .literal 0x20 (by decide) (by decide), .number .x 255]) ∧
      List.Forall₂ RefChar.Matches earlyOut (renderingOf false
        [.number .d (-1), .literal 0x20 (by decide) (by decide), .number .x 255]) :=
  printfs_agree (fun _ => 0) (fun _ => 0) ⟨.start fun _ => 0, [], 0⟩
    ⟨.start (fun _ => 0) 0x0f, [], 0⟩
    [.number .d (-1), .literal 0x20 (by decide) (by decide), .number .x 255]
    (by simp [Piece.Early])
    (by simp [renderingOf, Piece.rendering, Conv.base, digitChars, numeral])

end MissyKernel
