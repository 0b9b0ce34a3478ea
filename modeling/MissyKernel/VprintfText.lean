import MissyKernel.Vprintf

/-!
# What `vprintf` prints

Piece by piece: the loop on a format is what `emit` does with the text of the first piece,
and then the loop on the others. A literal belongs to a run that `vprintf` prints in one
go, which comes to the same as long as the run stays below `INT_MAX`. What is handed to
`putchar` is then the rendering of the pieces, but for a negative number, and for what
comes behind a byte `0xff`.

`Prints` is the property, for the whole format; `prints_iff` says of every list of pieces when it
holds, and needs that the output is not longer than `INT_MAX`, since the function stops there. A
piece with a sign cannot be printed: the loop would have to begin with a digit where the
rendering has `-` (`not_prints_of_showsSign`).
-/

namespace MissyKernel

/-- A text up to the first byte that `print` takes for the end of the file. -/
def uptoEof : List (BitVec 8) → List (BitVec 8)
  | [] => []
  | c :: rest => if c = 0xff then [c] else c :: uptoEof rest

/-- The text that `vprintf` prints for a piece. -/
def Piece.text : Piece → List (BitVec 8)
  | .literal c _ _ => [c]
  | .percent => [0x25]
  | .char w => [w.setWidth 8]
  | .string s => s.bytes
  | .number conv w => (numeral conv.base w.toNat).map lettermap

/-- The rest of the loop, if the branch did not fail. -/
def continueWith (buffer : ℕ → BitVec 8) (fmt : List (BitVec 8)) (args : List VaArg) :
    Except Console (ℕ × Console) → Option (ℤ × Console)
  | .error con => some (-1, con)
  | .ok (written, con) => vprintfLoop buffer fmt args written con

variable {con con' : Console} {written : ℕ} {text rest fmt : List (BitVec 8)}
  {args : List VaArg} {buffer : ℕ → BitVec 8} {errno : BitVec 32}

/-! ## Printing a text -/

theorem charOf_eq_eof_iff (c : BitVec 8) : charOf c = -1 ↔ c = 0xff := by
  revert c
  decide

theorem prefix_uptoEof (text : List (BitVec 8)) : uptoEof text <+: text := by
  induction text with
  | nil => exact List.nil_prefix
  | cons c rest ih =>
    rw [uptoEof]
    split
    · exact List.prefix_append [c] rest
    · exact List.cons_prefix_cons.mpr ⟨rfl, ih⟩

/-- Nothing is lost when the end of the file comes last. -/
theorem uptoEof_eq_self_iff (text : List (BitVec 8)) :
    uptoEof text = text ↔ 0xff ∉ text.dropLast := by
  induction text with
  | nil => simp [uptoEof]
  | cons c rest ih =>
    rw [uptoEof]
    cases rest with
    | nil => simp [uptoEof]
    | cons d rest =>
      rw [List.dropLast_cons_cons, List.mem_cons, not_or]
      by_cases hc : c = 0xff
      · simp [hc]
      · rw [if_neg hc, List.cons.injEq, ih, and_iff_right rfl, and_iff_right (Ne.symm hc)]

/-- `print` hands on the text up to the end of the file, and says whether there was one. -/
theorem print_eq (con : Console) (text : List (BitVec 8)) :
    ∃ con', print con text = (decide (0xff ∉ text), con') ∧ con'.errno = con.errno ∧
      con'.handed = con.handed ++ (uptoEof text).map charOf := by
  induction text generalizing con with
  | nil => exact ⟨con, rfl, rfl, (List.append_nil _).symm⟩
  | cons c rest ih =>
    rw [print, putchar, uptoEof]
    dsimp only
    by_cases hc : c = 0xff
    · rw [if_pos ((charOf_eq_eof_iff c).mpr hc), if_pos hc]
      have hmem : decide (0xff ∉ c :: rest) = false := by simp [hc]
      rw [hmem]
      exact ⟨_, rfl, rfl, rfl⟩
    · rw [if_neg (mt (charOf_eq_eof_iff c).mp hc), if_neg hc]
      obtain ⟨con', hprint, herrno, hhanded⟩ := ih { con with
        display := displayWrite con.display (charOf c), handed := con.handed ++ [charOf c] }
      refine ⟨con', ?_, herrno, ?_⟩
      · have hmem : (0xff ∉ c :: rest) ↔ 0xff ∉ rest := by
          rw [List.mem_cons, not_or, and_iff_right (Ne.symm hc)]
        rw [hprint, decide_eq_decide.mpr hmem]
      · rw [hhanded, List.map_cons, List.append_assoc, List.singleton_append]

theorem emit_ok (con : Console) (hfits : written + text.length ≤ 2 ^ 31 - 1) (heof : 0xff ∉ text) :
    ∃ con', emit con written text = .ok (written + text.length, con') ∧ con'.errno = con.errno ∧
      con'.handed = con.handed ++ text.map charOf := by
  obtain ⟨con', hprint, herrno, hhanded⟩ := print_eq con text
  have hall : uptoEof text = text :=
    (uptoEof_eq_self_iff text).mpr fun h => heof (List.mem_of_mem_dropLast h)
  rw [hall] at hhanded
  refine ⟨con', ?_, herrno, hhanded⟩
  rw [emit, if_neg (by omega), hprint, decide_eq_true heof]

theorem emit_eof (con : Console) (hfits : written + text.length ≤ 2 ^ 31 - 1) (heof : 0xff ∈ text) :
    ∃ con', emit con written text = .error con' ∧ con'.errno = con.errno ∧
      con'.handed = con.handed ++ (uptoEof text).map charOf := by
  obtain ⟨con', hprint, herrno, hhanded⟩ := print_eq con text
  refine ⟨con', ?_, herrno, hhanded⟩
  rw [emit, if_neg (by omega), hprint, decide_eq_false (not_not_intro heof)]

/-- Printing a text in one go, or its first character and then the others. -/
theorem continueWith_emit_cons (buffer : ℕ → BitVec 8) (fmt : List (BitVec 8)) (args : List VaArg)
    (con : Console) (c : BitVec 8) (hfits : written + (text.length + 1) ≤ 2 ^ 31 - 1) :
    continueWith buffer fmt args (emit con written (c :: text)) =
      match emit con written [c] with
      | .error con => some (-1, con)
      | .ok (written, con) => continueWith buffer fmt args (emit con written text) := by
  rw [emit, emit, if_neg (by rw [List.length_cons]; omega),
    if_neg (by rw [List.length_singleton]; omega), print, print]
  by_cases hc : (putchar con (charOf c)).1 = -1
  · simp only [hc, if_true]
    rfl
  · simp only [hc, if_false, print, List.length_singleton]
    rw [emit, if_neg (by omega), List.length_cons, Nat.add_right_comm, Nat.add_assoc]

/-! ## One piece -/

/-- A run of literal text, or its first byte and then the loop on the others. -/
theorem loop_run {c : BitVec 8}
    (hfits : written + 1 + (rest.takeWhile (· ≠ 0x25)).length ≤ 2 ^ 31 - 1) :
    (match emit con written
        ((c :: rest).take (1 + (rest.takeWhile (· ≠ 0x25)).length)) with
      | .error con => some (-1, con)
      | .ok (written, con) =>
        vprintfLoop buffer ((c :: rest).drop (1 + (rest.takeWhile (· ≠ 0x25)).length)) args written
          con) =
      continueWith buffer rest args (emit con written [c]) := by
  by_cases hnext : ∃ d rest', rest = d :: rest' ∧ d ≠ 0x25
  · obtain ⟨d, rest', rfl, hd⟩ := hnext
    have hrun : (d :: rest').takeWhile (· ≠ 0x25) = d :: rest'.takeWhile (· ≠ 0x25) :=
      List.takeWhile_cons_of_pos (decide_eq_true hd)
    have hle := (List.takeWhile_sublist (l := rest') (· ≠ 0x25)).length_le
    rw [hrun, List.length_cons] at hfits ⊢
    generalize hk : (rest'.takeWhile (· ≠ 0x25)).length = k at *
    have htake : ((d :: rest').take (k + 1)).length = k + 1 := by
      rw [List.length_take, List.length_cons]
      omega
    have hloop : ∀ written con, vprintfLoop buffer (d :: rest') args written con =
        continueWith buffer ((d :: rest').drop (k + 1)) args
          (emit con written ((d :: rest').take (k + 1))) := by
      intro written con
      rw [vprintfLoop, if_pos (Or.inl hd)]
      simp only [if_neg hd, List.tail_cons, hk, Nat.add_comm 1 k]
      rfl
    rw [Nat.add_comm 1 (k + 1), List.take_succ_cons, List.drop_succ_cons]
    have hsplit := continueWith_emit_cons buffer ((d :: rest').drop (k + 1)) args con c
      (show written + (((d :: rest').take (k + 1)).length + 1) ≤ 2 ^ 31 - 1 by omega)
    refine hsplit.trans ?_
    simp only [← hloop]
    rfl
  · have hrun : rest.takeWhile (· ≠ 0x25) = [] := by
      cases rest with
      | nil => rfl
      | cons d rest' =>
        refine List.takeWhile_cons_of_neg ?_
        rw [decide_eq_true_eq]
        exact fun hd => hnext ⟨d, rest', rfl, hd⟩
    rw [hrun]
    rfl

theorem vprintfLoop_literal {c : BitVec 8} (hc : c ≠ 0x25)
    (hfits : written + 1 + (rest.takeWhile (· ≠ 0x25)).length ≤ 2 ^ 31 - 1) :
    vprintfLoop buffer (c :: rest) args written con =
      continueWith buffer rest args (emit con written [c]) := by
  rw [vprintfLoop, if_pos (Or.inl hc)]
  simp only [if_neg hc, List.tail_cons]
  exact loop_run hfits

theorem vprintfLoop_percent
    (hfits : written + 1 + (rest.takeWhile (· ≠ 0x25)).length ≤ 2 ^ 31 - 1) :
    vprintfLoop buffer (0x25 :: 0x25 :: rest) args written con =
      continueWith buffer rest args (emit con written [0x25]) := by
  have hbranch : (0x25 : BitVec 8) ≠ 0x25 ∨ (0x25 :: rest).head? = some 0x25 := Or.inr rfl
  rw [vprintfLoop, if_pos hbranch]
  simp only [if_true, List.tail_cons]
  exact loop_run hfits

theorem vprintfLoop_convert {letter : BitVec 8} {args' : List VaArg} (hletter : letter ≠ 0x25)
    (hconvert : convert con.errno buffer (some letter) args = .text text con.errno args') :
    vprintfLoop buffer (0x25 :: letter :: rest) args written con =
      continueWith buffer rest args' (emit con written text) := by
  have hbranch : ¬ ((0x25 : BitVec 8) ≠ 0x25 ∨ (letter :: rest).head? = some 0x25) := by
    rintro (h | h)
    · exact h rfl
    · exact hletter (Option.some.inj h)
  rw [vprintfLoop, if_neg hbranch, List.head?_cons, hconvert]
  rfl

/-- No digit ends the string. -/
theorem lettermap_ne_zero {d : ℕ} (hd : d < 36) : lettermap d ≠ 0 := by
  have hall : ∀ d < 36, lettermap d ≠ 0 := by decide
  exact hall d hd

/-- Any word has its digits in 32 bytes. -/
theorem toNat_lt_base_pow {base p : ℕ} (num : BitVec 32) (hbase : 2 ≤ base) (hp : 32 ≤ p) :
    num.toNat < base ^ p :=
  calc num.toNat < 2 ^ 32 := num.isLt
    _ ≤ 2 ^ p := Nat.pow_le_pow_right (by decide) hp
    _ ≤ base ^ p := Nat.pow_le_pow_left hbase p

/-- The buffer of `itoa` is long enough for every number. -/
theorem itoa_eq (errno : BitVec 32) (buffer : ℕ → BitVec 8) {base : ℕ} (hbase : 2 ≤ base)
    (hle : base ≤ 36) (num : BitVec 32) :
    ∃ buffer', itoa errno buffer num base =
        (((numeral base num.toNat).length : ℤ), errno, buffer') ∧
      (numeral base num.toNat).length ≤ 32 ∧
      Reads buffer' 0 ((numeral base num.toNat).map lettermap ++ [0]) := by
  rw [itoa, if_neg (by omega)]
  by_cases hzero : num = 0
  · rw [if_pos hzero, hzero]
    exact ⟨_, rfl, show 1 ≤ 32 by decide, rfl, rfl, trivial⟩
  have hpos : num.toNat ≠ 0 := fun h => hzero (BitVec.eq_of_toNat_eq h)
  have hlt : num.toNat < base ^ 32 := toNat_lt_base_pow num hbase (le_refl 32)
  have hletter : ∀ d < base, lettermap d ≠ 0 := fun d hd =>
    lettermap_ne_zero (Nat.lt_of_lt_of_le hd hle)
  obtain ⟨q, b', hloop, hlength, hreads⟩ := reads_numeral
    (b := fun i => if i < 33 then 0 else buffer i) hbase hlt hpos rfl hletter
  rw [if_neg hzero]
  simp only [hloop]
  have hwritten : (32 : ℤ) - q = (numeral base num.toNat).length := by omega
  exact ⟨copyString (33 - q) 0 q b', by rw [hwritten], by omega, hreads⟩

theorem convertNumber_eq {base : ℕ} (hbase : 2 ≤ base) (hle : base ≤ 36) (num : BitVec 32) :
    convertNumber errno buffer base (.int num :: args) =
      .text ((numeral base num.toNat).map lettermap) errno args := by
  obtain ⟨buffer', hitoa, hlength, hreads⟩ := itoa_eq errno buffer hbase hle num
  have htext := (reads_append.mp hreads).1.map_range
  rw [List.length_map] at htext
  have hsize : (((numeral base num.toNat).length : ℤ) % 2 ^ 32).toNat =
      (numeral base num.toNat).length := by omega
  rw [convertNumber, hitoa]
  dsimp only
  rw [hsize, htext]

theorem Conv.base_mem (conv : Conv) : 2 ≤ conv.base ∧ conv.base ≤ 36 := by
  cases conv <;> decide

theorem convert_number (conv : Conv) :
    convert errno buffer (some conv.letter) args = convertNumber errno buffer conv.base args := by
  cases conv <;> rfl

/-- A conversion among the pieces. -/
theorem vprintfLoop_number (conv : Conv) (w : BitVec 32) :
    vprintfLoop buffer ((Piece.number conv w).spelling ++ rest) ((Piece.number conv w).args ++ args)
        written con =
      continueWith buffer rest args (emit con written (Piece.number conv w).text) := by
  refine vprintfLoop_convert (by cases conv <;> decide) ?_
  rw [convert_number]
  exact convertNumber_eq conv.base_mem.1 conv.base_mem.2 w

/-- Any piece among others, when the run of literal bytes behind it stays below `INT_MAX`. -/
theorem vprintfLoop_piece (p : Piece)
    (hfits : written + p.text.length + (rest.takeWhile (· ≠ 0x25)).length ≤ 2 ^ 31 - 1) :
    vprintfLoop buffer (p.spelling ++ rest) (p.args ++ args) written con =
      continueWith buffer rest args (emit con written p.text) := by
  cases p with
  | literal c noNul noPercent => exact vprintfLoop_literal noPercent hfits
  | percent => exact vprintfLoop_percent hfits
  | char w => exact vprintfLoop_convert (by decide) rfl
  | string s => exact vprintfLoop_convert (by decide) rfl
  | number conv w => exact vprintfLoop_number conv w

/-! ## Nothing is taken back -/

theorem prefix_emit :
    (∀ con', emit con written text = .error con' → con.handed <+: con'.handed) ∧
      ∀ n con', emit con written text = .ok (n, con') → con.handed <+: con'.handed := by
  obtain ⟨con₁, hprint, -, hhanded⟩ := print_eq con text
  have hprefix : con.handed <+: con₁.handed := hhanded ▸ List.prefix_append _ _
  rw [emit, hprint]
  by_cases hover : 2 ^ 31 - 1 - written < text.length
  · rw [if_pos hover]
    refine ⟨fun con' h => ?_, fun n con' h => nomatch h⟩
    rw [← Except.error.inj h]
  · rw [if_neg hover]
    cases decide (0xff ∉ text)
    · refine ⟨fun con' h => ?_, fun n con' h => nomatch h⟩
      rw [← Except.error.inj h]
      exact hprefix
    · refine ⟨fun con' h => (nomatch h), fun n con' h => ?_⟩
      obtain ⟨-, rfl⟩ := Prod.mk.inj (Except.ok.inj h)
      exact hprefix

theorem prefix_vprintfLoop {n : ℤ}
    (h : vprintfLoop buffer fmt args written con = some (n, con')) :
    con.handed <+: con'.handed := by
  fun_induction vprintfLoop buffer fmt args written con
  case case1 =>
    obtain ⟨-, rfl⟩ := Prod.mk.inj (Option.some.inj h)
    exact List.prefix_refl _
  case case2 =>
    rename_i hemit
    obtain ⟨-, rfl⟩ := Prod.mk.inj (Option.some.inj h)
    exact prefix_emit.1 _ hemit
  case case3 =>
    rename_i hemit ih
    exact (prefix_emit.2 _ _ hemit).trans (ih h)
  case case4 => exact nomatch h
  case case5 =>
    rename_i hemit
    obtain ⟨-, rfl⟩ := Prod.mk.inj (Option.some.inj h)
    have hprefix := prefix_emit.1 _ hemit
    exact hprefix
  case case6 =>
    rename_i hemit ih
    exact (prefix_emit.2 _ _ hemit).trans (ih h)
  case case7 =>
    rename_i hemit
    obtain ⟨-, rfl⟩ := Prod.mk.inj (Option.some.inj h)
    exact prefix_emit.1 _ hemit
  case case8 =>
    rename_i hemit
    obtain ⟨-, rfl⟩ := Prod.mk.inj (Option.some.inj h)
    exact prefix_emit.2 _ _ hemit

/-- What the first character of a text is, if anything is handed on. -/
theorem continueWith_emit_head {n : ℤ} {c : BitVec 8} {out : List (BitVec 32)}
    (h : continueWith buffer fmt args (emit con written (c :: text)) = some (n, con'))
    (hout : con'.handed = con.handed ++ out) : out = [] ∨ out.head? = some (charOf c) := by
  obtain ⟨con₁, hprint, -, hhanded⟩ := print_eq con (c :: text)
  by_cases hover : 2 ^ 31 - 1 - written < (c :: text).length
  · rw [emit, if_pos hover] at h
    obtain ⟨-, rfl⟩ := Prod.mk.inj (Option.some.inj h)
    exact Or.inl (List.append_right_eq_self.mp hout.symm)
  · right
    have hfirst : con.handed ++ [charOf c] <+: con₁.handed := by
      rw [hhanded, List.prefix_append_right_inj, uptoEof]
      split <;> exact List.prefix_append [charOf c] _
    have hafter : con₁.handed <+: con'.handed := by
      rw [emit, if_neg hover, hprint] at h
      cases hmem : decide (0xff ∉ c :: text)
      · rw [hmem] at h
        obtain ⟨-, rfl⟩ := Prod.mk.inj (Option.some.inj h)
        exact List.prefix_refl _
      · rw [hmem] at h
        exact prefix_vprintfLoop h
    have hhead := hfirst.trans hafter
    rw [hout, List.prefix_append_right_inj] at hhead
    obtain ⟨rest, rfl⟩ := hhead
    rfl

/-! ## Renderings -/

theorem numeral_lt {base n d : ℕ} (hbase : 2 ≤ base) (hd : d ∈ numeral base n) : d < base := by
  rw [numeral] at hd
  split at hd
  · rw [List.mem_singleton.mp hd]
    omega
  · exact Nat.digits_lt_base (by omega) (List.mem_reverse.mp hd)

theorem numeral_ne_nil (base n : ℕ) : numeral base n ≠ [] := by
  rw [numeral]
  split
  · exact List.cons_ne_nil 0 []
  · rename_i hpos
    rw [Ne, List.reverse_eq_nil_iff]
    exact Nat.digits_ne_nil_iff_ne_zero.mpr hpos

theorem Conv.base_cases (conv : Conv) : conv.base = 16 ∨ conv.base ≤ 10 := by
  cases conv <;> decide

/-- The digits of `itoa` are the ones of the rendering. -/
theorem matches_digitChars (conv : Conv) (n : ℕ) :
    List.Forall₂ RefChar.Matches (((numeral conv.base n).map lettermap).map charOf)
      (digitChars conv.base n) := by
  rw [digitChars, List.map_map, List.forall₂_map_left_iff, List.forall₂_map_right_iff,
    List.forall₂_same]
  intro d hd
  have hlt := numeral_lt conv.base_mem.1 hd
  split
  · exact Or.inl rfl
  · have hten := conv.base_cases
    rw [RefChar.Matches, Function.comp_apply, lettermap, if_pos (by omega)]

theorem eof_notMem_number (conv : Conv) (n : ℕ) :
    0xff ∉ (numeral conv.base n).map lettermap ∧ RefChar.byte 0xff ∉ digitChars conv.base n := by
  have hletter : ∀ d < 36, lettermap d ≠ 0xff := by decide
  have hdigit : ∀ d < 36, BitVec.ofNat 8 (0x30 + d) ≠ 0xff := by decide
  have hbase := conv.base_mem
  constructor
  · intro hmem
    obtain ⟨d, hd, heof⟩ := List.mem_map.mp hmem
    have hlt := numeral_lt hbase.1 hd
    exact hletter d (by omega) heof
  · intro hmem
    obtain ⟨d, hd, heof⟩ := List.mem_map.mp hmem
    have hlt := numeral_lt hbase.1 hd
    split at heof
    · exact nomatch heof
    · exact hdigit d (by omega) (RefChar.byte.inj heof)

theorem matches_bytes (text : List (BitVec 8)) :
    List.Forall₂ RefChar.Matches (text.map charOf) (text.map .byte) := by
  rw [List.forall₂_map_left_iff, List.forall₂_map_right_iff, List.forall₂_same]
  exact fun _ _ => rfl

/-- The rendering of a piece begins with a sign. -/
def Piece.ShowsSign (signed : Bool) : Piece → Prop
  | .literal _ _ _ => False
  | .percent => False
  | .char _ => False
  | .string _ => False
  | .number conv w => (signed && conv.signed) = true ∧ w.toInt < 0

theorem rendering_number {signed : Bool} {conv : Conv} {w : BitVec 32}
    (hsign : ¬ (Piece.number conv w).ShowsSign signed) :
    (Piece.number conv w).rendering signed = digitChars conv.base w.toNat := by
  rw [Piece.rendering]
  split
  · rename_i hsigned
    have hnonneg : ¬ w.toInt < 0 := fun h => hsign ⟨hsigned, h⟩
    have hbase : conv.base = 10 := by
      rw [Bool.and_eq_true] at hsigned
      cases conv <;> first | rfl | exact nomatch hsigned.2
    have habs : w.toInt.natAbs = w.toNat := by
      rw [BitVec.toInt_eq_toNat_cond] at hnonneg ⊢
      split at hnonneg <;> omega
    rw [signedChars, if_neg hnonneg, habs, hbase]
  · rfl

/-- All pieces but numbers stand for the bytes of their text. -/
theorem Piece.plain_or_number (p : Piece) :
    (∀ signed, ¬ p.ShowsSign signed ∧ p.rendering signed = p.text.map .byte) ∨
      ∃ conv w, p = .number conv w := by
  cases p with
  | literal c noNul noPercent => exact .inl fun _ => ⟨id, rfl⟩
  | percent => exact .inl fun _ => ⟨id, rfl⟩
  | char w => exact .inl fun _ => ⟨id, rfl⟩
  | string s => exact .inl fun _ => ⟨id, rfl⟩
  | number conv w => exact .inr ⟨conv, w, rfl⟩

/-- Without a sign the text of a piece is its rendering. -/
theorem Piece.text_matches {signed : Bool} {p : Piece} (hsign : ¬ p.ShowsSign signed) :
    List.Forall₂ RefChar.Matches (p.text.map charOf) (p.rendering signed) := by
  obtain hplain | ⟨conv, w, rfl⟩ := p.plain_or_number
  · rw [(hplain signed).2]
    exact matches_bytes p.text
  · rw [rendering_number hsign]
    exact matches_digitChars conv w.toNat

/-- No number has a byte `0xff`. -/
theorem Piece.rendering_of_eof {p : Piece} (signed : Bool) (heof : 0xff ∈ p.text) :
    p.rendering signed = p.text.map .byte := by
  obtain hplain | ⟨conv, w, rfl⟩ := p.plain_or_number
  · exact (hplain signed).2
  · exact absurd heof (eof_notMem_number conv w.toNat).1

theorem Piece.eof_mem_rendering {signed : Bool} {p : Piece} (hsign : ¬ p.ShowsSign signed) :
    .byte 0xff ∈ p.rendering signed ↔ 0xff ∈ p.text := by
  obtain hplain | ⟨conv, w, rfl⟩ := p.plain_or_number
  · rw [(hplain signed).2]
    exact List.mem_map_of_injective fun _ _ => RefChar.byte.inj
  · have hnone := eof_notMem_number conv w.toNat
    rw [rendering_number hsign]
    exact iff_of_false hnone.2 hnone.1

/-- A sign shows. -/
theorem Piece.ShowsSign.rendering_eq {signed : Bool} {p : Piece} (hsign : p.ShowsSign signed) :
    ∃ conv w, p = .number conv w ∧
      p.rendering signed = .byte 0x2d :: digitChars 10 w.toInt.natAbs := by
  obtain hplain | ⟨conv, w, rfl⟩ := p.plain_or_number
  · exact absurd hsign (hplain signed).1
  · refine ⟨conv, w, rfl, ?_⟩
    rw [Piece.rendering, if_pos hsign.1, signedChars, if_pos hsign.2]

/-- The number of literal bytes at the front of a format is at most the length of what it
renders. -/
theorem length_takeWhile_le (signed : Bool) (pieces : List Piece) :
    ((formatOf pieces).takeWhile (· ≠ 0x25)).length ≤ (renderingOf signed pieces).length := by
  induction pieces with
  | nil => exact le_refl _
  | cons p pieces ih =>
    rw [formatOf_cons, renderingOf_cons, List.length_append]
    cases p with
    | literal c noNul noPercent =>
      have hrun : (c :: formatOf pieces).takeWhile (· ≠ 0x25) =
          c :: (formatOf pieces).takeWhile (· ≠ 0x25) :=
        List.takeWhile_cons_of_pos (decide_eq_true noPercent)
      have hlength := congrArg List.length hrun
      rw [List.length_cons] at hlength
      exact hlength.trans_le ((Nat.add_le_add_right ih 1).trans_eq (Nat.add_comm _ _))
    | percent => exact Nat.zero_le _
    | char w => exact Nat.zero_le _
    | string s => exact Nat.zero_le _
    | number conv w => exact Nat.zero_le _

/-! ## Which formats are printed -/

/-- The loop hands on a rendering. -/
def Prints (buffer : ℕ → BitVec 8) (fmt : List (BitVec 8)) (args : List VaArg) (written : ℕ)
    (con : Console) (ref : List RefChar) : Prop :=
  ∃ n con' out, vprintfLoop buffer fmt args written con = some (n, con') ∧
    con'.handed = con.handed ++ out ∧ List.Forall₂ RefChar.Matches out ref

/-- The formats that are printed: without a negative number, and with the byte `0xff` at the
end at most. -/
def PrintedInFull (signed : Bool) (pieces : List Piece) : Prop :=
  (∀ p ∈ pieces, ¬ p.ShowsSign signed) ∧ .byte 0xff ∉ (renderingOf signed pieces).dropLast

variable {α : Type} {x : α} {l₁ l₂ : List α}

theorem notMem_dropLast_append (hx : x ∉ l₁) : x ∉ (l₁ ++ l₂).dropLast ↔ x ∉ l₂.dropLast := by
  cases l₂ with
  | nil =>
    rw [List.append_nil]
    exact iff_of_true (fun h => hx (List.mem_of_mem_dropLast h)) List.not_mem_nil
  | cons y l₂ =>
    rw [List.dropLast_append_of_ne_nil (List.cons_ne_nil y l₂), List.mem_append, not_or,
      and_iff_right hx]

theorem notMem_dropLast_append_of_mem (hx : x ∈ l₁) :
    x ∉ (l₁ ++ l₂).dropLast ↔ l₂ = [] ∧ x ∉ l₁.dropLast := by
  cases l₂ with
  | nil => rw [List.append_nil, and_iff_right rfl]
  | cons y l₂ =>
    rw [List.dropLast_append_of_ne_nil (List.cons_ne_nil y l₂), List.mem_append]
    exact iff_of_false (fun h => h (Or.inl hx)) fun h => nomatch h.1

theorem forall₂_append_left_iff {β : Type} {R : α → β → Prop} {m₁ m₂ : List β}
    (h : List.Forall₂ R l₁ m₁) :
    List.Forall₂ R (l₁ ++ l₂) (m₁ ++ m₂) ↔ List.Forall₂ R l₂ m₂ := by
  induction h with
  | nil => exact Iff.rfl
  | cons hab _ ih =>
    rw [List.cons_append, List.cons_append, List.forall₂_cons, and_iff_right hab, ih]

/-- A piece with a sign is not printed: the loop begins with a digit. -/
theorem not_prints_of_showsSign {signed : Bool} {p : Piece} {ref : List RefChar}
    (hsign : p.ShowsSign signed) :
    ¬ Prints buffer (p.spelling ++ fmt) (p.args ++ args) written con
      (p.rendering signed ++ ref) := by
  rintro ⟨n, con', out, hloop, hout, hmatches⟩
  obtain ⟨conv, w, rfl, hrendering⟩ := hsign.rendering_eq
  obtain ⟨d, digits, hdigits⟩ : ∃ d digits, numeral conv.base w.toNat = d :: digits :=
    List.exists_cons_of_ne_nil (numeral_ne_nil _ _)
  have hd : d < conv.base := numeral_lt conv.base_mem.1 (hdigits ▸ List.mem_cons_self)
  rw [vprintfLoop_number, Piece.text, hdigits, List.map_cons] at hloop
  rw [hrendering, List.cons_append] at hmatches
  have hletter : ∀ d < 36, charOf (lettermap d) ≠ charOf 0x2d := by decide
  have hbase := conv.base_mem.2
  obtain rfl | hhead := continueWith_emit_head hloop hout
  · exact nomatch hmatches
  · cases hmatches with
    | cons hminus _ =>
      rw [List.head?_cons, Option.some.injEq] at hhead
      exact hletter d (by omega) (hhead.symm.trans hminus)

/-- A piece that `print` gets to the end of. -/
theorem prints_piece {signed : Bool} {p : Piece} (buffer : ℕ → BitVec 8) (args : List VaArg)
    (con : Console) (ref : List RefChar) (hsign : ¬ p.ShowsSign signed) (heof : 0xff ∉ p.text)
    (hfits : written + p.text.length + (fmt.takeWhile (· ≠ 0x25)).length ≤ 2 ^ 31 - 1) :
    ∃ con₁, con₁.handed = con.handed ++ p.text.map charOf ∧
      (Prints buffer (p.spelling ++ fmt) (p.args ++ args) written con (p.rendering signed ++ ref) ↔
        Prints buffer fmt args (written + p.text.length) con₁ ref) := by
  obtain ⟨con₁, hemit, -, hhanded⟩ := emit_ok con (show written + p.text.length ≤ _ by omega) heof
  refine ⟨con₁, hhanded, ?_⟩
  have hloop : vprintfLoop buffer (p.spelling ++ fmt) (p.args ++ args) written con =
      vprintfLoop buffer fmt args (written + p.text.length) con₁ := by
    rw [vprintfLoop_piece p hfits, hemit]
    rfl
  have hmatches := p.text_matches hsign
  rw [Prints, Prints, hloop]
  constructor
  · rintro ⟨n, con', out, hrun, hout, hall⟩
    -- the text of the piece is at the front of what was handed on
    obtain ⟨out', hout'⟩ := prefix_vprintfLoop hrun
    have hsplit : p.text.map charOf ++ out' = out := by
      rw [← hout', hhanded, List.append_assoc] at hout
      exact List.append_cancel_left hout
    rw [← hsplit] at hall
    exact ⟨n, con', out', hrun, hout'.symm, (forall₂_append_left_iff hmatches).mp hall⟩
  · rintro ⟨n, con', out, hrun, hout, hall⟩
    refine ⟨n, con', p.text.map charOf ++ out, hrun, ?_,
      (forall₂_append_left_iff hmatches).mpr hall⟩
    rw [hout, hhanded, List.append_assoc]

/-- A piece with the end of the file in it has to be the last one, and the byte the last of
its text. -/
theorem prints_piece_eof {signed : Bool} {p : Piece} {ref : List RefChar} (heof : 0xff ∈ p.text)
    (hfits : written + p.text.length + (fmt.takeWhile (· ≠ 0x25)).length ≤ 2 ^ 31 - 1) :
    Prints buffer (p.spelling ++ fmt) (p.args ++ args) written con (p.rendering signed ++ ref) ↔
      ref = [] ∧ .byte 0xff ∉ (p.rendering signed).dropLast := by
  have hinj : Function.Injective RefChar.byte := fun _ _ => RefChar.byte.inj
  obtain ⟨con₁, hemit, -, hhanded⟩ := emit_eof con (show written + p.text.length ≤ _ by omega) heof
  have hloop : vprintfLoop buffer (p.spelling ++ fmt) (p.args ++ args) written con =
      some (-1, con₁) := by
    rw [vprintfLoop_piece p hfits, hemit]
    rfl
  rw [Prints, hloop, Piece.rendering_of_eof signed heof, ← List.map_dropLast,
    List.mem_map_of_injective hinj, ← uptoEof_eq_self_iff]
  constructor
  · rintro ⟨n, con', out, hrun, hout, hall⟩
    obtain ⟨-, rfl⟩ := Prod.mk.inj (Option.some.inj hrun)
    rw [hhanded, List.append_cancel_left_eq] at hout
    have hlength := hall.length_eq
    rw [← hout, List.length_map, List.length_append, List.length_map] at hlength
    have hle := (prefix_uptoEof p.text).length_le
    refine ⟨List.length_eq_zero_iff.mp (by omega), ?_⟩
    exact (prefix_uptoEof p.text).eq_of_length (by omega)
  · rintro ⟨rfl, hall⟩
    refine ⟨-1, con₁, p.text.map charOf, rfl, ?_, ?_⟩
    · rw [hhanded, hall]
    · rw [List.append_nil]
      exact matches_bytes p.text

/-- Of the formats with a total output of at most `INT_MAX` the loop prints the ones without a
negative number and without the byte `0xff` before the end. -/
theorem prints_iff (signed : Bool) (pieces : List Piece) (written : ℕ) (con : Console)
    (htotal : written + (renderingOf signed pieces).length ≤ 2 ^ 31 - 1) :
    Prints buffer (formatOf pieces) (argsOf pieces) written con (renderingOf signed pieces) ↔
      PrintedInFull signed pieces := by
  induction pieces generalizing written con with
  | nil =>
    refine iff_of_true ⟨written, con, [], ?_, (List.append_nil _).symm, .nil⟩
      ⟨fun p hp => (List.not_mem_nil hp).elim, List.not_mem_nil⟩
    rw [formatOf, List.flatMap_nil, vprintfLoop]
  | cons p pieces ih =>
    rw [renderingOf_cons, List.length_append] at htotal
    rw [PrintedInFull, List.forall_mem_cons, formatOf_cons, argsOf_cons, renderingOf_cons]
    by_cases hsign : p.ShowsSign signed
    · exact iff_of_false (not_prints_of_showsSign hsign) fun h => h.1.1 hsign
    have hlength : (p.rendering signed).length = p.text.length := by
      rw [← (p.text_matches hsign).length_eq, List.length_map]
    have hrun := length_takeWhile_le signed pieces
    have hfits : written + p.text.length +
        ((formatOf pieces).takeWhile (· ≠ 0x25)).length ≤ 2 ^ 31 - 1 := by omega
    have hmem := p.eof_mem_rendering hsign
    by_cases heof : 0xff ∈ p.text
    · rw [prints_piece_eof heof hfits, notMem_dropLast_append_of_mem (hmem.mpr heof)]
      -- nothing comes behind, so no sign does
      refine ⟨fun h => ⟨⟨hsign, fun q hq hshows => ?_⟩, h⟩, And.right⟩
      obtain ⟨conv, w, rfl, hq'⟩ := hshows.rendering_eq
      exact absurd (hq'.symm.trans (List.flatMap_eq_nil_iff.mp h.1 _ hq)) (List.cons_ne_nil _ _)
    · obtain ⟨con₁, -, hstep⟩ := prints_piece buffer (argsOf pieces) con
        (renderingOf signed pieces) hsign heof hfits
      rw [hstep, ih _ _ (by omega), notMem_dropLast_append (mt hmem.mp heof), PrintedInFull,
        and_iff_right hsign]

/-- `vprintf` prints what the format says exactly when no `%d` or `%i` has a negative argument and
the byte `0xff` is at most the last one of the output.

Piece by piece: the text of a piece is handed on up to its first byte `0xff`,
and the call goes on with the next piece only if there is none. A negative number goes through the
unsigned routine, so its sign does not come out. -/
theorem vprintf_prints_iff (buffer : ℕ → BitVec 8) (con : Console) (pieces : List Piece)
    (htotal : (renderingOf true pieces).length ≤ 2 ^ 31 - 1) :
    (∃ n con' out, vprintf buffer con (formatOf pieces) (argsOf pieces) = some (n, con') ∧
      con'.handed = con.handed ++ out ∧
      List.Forall₂ RefChar.Matches out (renderingOf true pieces)) ↔
      (∀ p ∈ pieces, ¬ p.ShowsSign true) ∧ .byte 0xff ∉ (renderingOf true pieces).dropLast :=
  prints_iff true pieces 0 con ((Nat.zero_add _).trans_le htotal)

/-- `"%d%%%x"` with 7 and 255. -/
theorem vprintf_prints_seven :
    ∃ n con' out, vprintf (fun _ => 0) ⟨.start fun _ => 0, [], 0⟩
        [0x25, 0x64, 0x25, 0x25, 0x25, 0x78] [.int 7, .int 255] = some (n, con') ∧
      con'.handed = [] ++ out ∧
      List.Forall₂ RefChar.Matches out [.byte 0x37, .byte 0x25, .hexDigit 15, .hexDigit 15] := by
  have hrendering : renderingOf true [.number .d 7, .percent, .number .x 255] =
      [.byte 0x37, .byte 0x25, .hexDigit 15, .hexDigit 15] := by
    simp [renderingOf, Piece.rendering, Conv.signed, Conv.base, signedChars, digitChars, numeral]
  have hprints := (vprintf_prints_iff (fun _ => 0) ⟨.start fun _ => 0, [], 0⟩
    [.number .d 7, .percent, .number .x 255] (by rw [hrendering]; decide)).mpr
    ⟨by simp [Piece.ShowsSign, Conv.signed], by rw [hrendering]; decide⟩
  rwa [hrendering] at hprints

/-- `"%d"` with -1 is printed as 4294967295. -/
theorem minus_one_printed_unsigned :
    (∃ con', vprintf (fun _ => 0) ⟨.start fun _ => 0, [], 0⟩ [0x25, 0x64] [.int (-1)] =
        some (10, con') ∧
      con'.handed = [0x34, 0x32, 0x39, 0x34, 0x39, 0x36, 0x37, 0x32, 0x39, 0x35]) ∧
    ¬ ∃ n con' out, vprintf (fun _ => 0) ⟨.start fun _ => 0, [], 0⟩ [0x25, 0x64] [.int (-1)] =
        some (n, con') ∧ con'.handed = [] ++ out ∧
      List.Forall₂ RefChar.Matches out [.byte 0x2d, .byte 0x31] := by
  have htext : (Piece.number .d (-1)).text =
      [0x34, 0x32, 0x39, 0x34, 0x39, 0x36, 0x37, 0x32, 0x39, 0x35] := by
    simp [Piece.text, Conv.base, numeral, lettermap]
  have hrendering : (Piece.number .d (-1)).rendering true ++ [] =
      [.byte 0x2d, .byte 0x31] := by
    simp [Piece.rendering, Conv.signed, signedChars, digitChars, numeral]
  constructor
  · obtain ⟨con', hemit, -, hhanded⟩ := emit_ok ⟨.start fun _ => 0, [], 0⟩
      (show 0 + (Piece.number .d (-1)).text.length ≤ 2 ^ 31 - 1 by rw [htext]; decide)
      (by rw [htext]; decide)
    refine ⟨con', ?_, by rw [hhanded, htext]; decide⟩
    have hloop : vprintf (fun _ => 0) ⟨.start fun _ => 0, [], 0⟩ [0x25, 0x64] [.int (-1)] =
        continueWith (fun _ => 0) [] []
          (emit ⟨.start fun _ => 0, [], 0⟩ 0 (Piece.number .d (-1)).text) :=
      vprintfLoop_number .d (-1)
    rw [hloop, hemit, htext, continueWith, vprintfLoop]
    rfl
  · rw [← hrendering]
    have hsign : (Piece.number .d (-1)).ShowsSign true := ⟨rfl, by decide⟩
    have hnot : ¬ Prints (fun _ => 0) [0x25, 0x64] [.int (-1)] 0 ⟨.start fun _ => 0, [], 0⟩
        ((Piece.number .d (-1)).rendering true ++ []) := not_prints_of_showsSign hsign
    exact hnot

end MissyKernel
