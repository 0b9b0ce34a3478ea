import MissyKernel.VprintfText
import MissyKernel.TerminalText

/-!
# Texts on the console

What `puts` and `printf` leave on the screen, for texts of printable characters and
newlines: the display driver writes the text, one character after the other. On a screen
that was cleared just before, the text is all there is to see, whatever the driver showed
and wherever its cursor was; `kernel_panic` clears the screen for that.

`puts`, `printf` and `kernel_panic` are over the models of `vprintf` and of the driver, so the
texts go through the same loops as in the modules before. `Display.Coloured` adds the attribute
bytes, which `TerminalText` leaves out. `abort` is a panic with one cause.
-/

namespace MissyKernel

/-- A text as bytes. -/
def ascii (s : String) : List (BitVec 8) := s.toByteArray.data.toList.map UInt8.toBitVec

/-- The string is a text of at most 500 printable characters and newlines. -/
def isShortText (s : String) : Bool :=
  Nat.ble s.toByteArray.data.toList.length 500 && s.toByteArray.data.toList.all fun c =>
    Nat.beq c.toNat 10 || (Nat.ble 0x20 c.toNat && Nat.ble c.toNat 0x7e)

/-! ## Characters of texts -/

theorem charOf_of_isText {c : BitVec 8} (hc : IsText c) : charOf c = c.setWidth 32 := by
  have hall : ∀ c : BitVec 8, IsText c → charOf c = c.setWidth 32 := by decide
  exact hall c hc

theorem ne_eof_of_isText {c : BitVec 8} (hc : IsText c) : c ≠ 0xff := by
  rintro rfl
  exact absurd hc (by decide)

theorem ne_nul_of_isText {c : BitVec 8} (hc : IsText c) : c ≠ 0 := by
  rintro rfl
  exact absurd hc (by decide)

theorem isText_ascii {s : String} (h : isShortText s = true) :
    (∀ c ∈ ascii s, IsText c) ∧ (ascii s).length ≤ 500 := by
  simp only [isShortText, Bool.and_eq_true, Nat.ble_eq] at h
  refine ⟨fun c hc => ?_, by rw [ascii, List.length_map]; exact h.1⟩
  obtain ⟨d, hd, rfl⟩ := List.mem_map.mp hc
  have hplain := List.all_eq_true.mp h.2 d hd
  simp only [Bool.or_eq_true, Bool.and_eq_true, Nat.beq_eq, Nat.ble_eq] at hplain
  rcases hplain with h10 | ⟨hlow, hhigh⟩
  · exact .inl (BitVec.eq_of_toNat_eq h10)
  · exact .inr ⟨hlow, hhigh⟩

/-- A short text as a string. -/
def textString (s : String) (h : isShortText s = true) : CString :=
  ⟨ascii s, fun c hc => ne_nul_of_isText ((isText_ascii h).1 c hc)⟩

/-! ## The functions -/

/-- `putchar` on one character of a text after the other. -/
def Console.write (con : Console) (text : List (BitVec 8)) : Console :=
  text.foldl (fun con c => (putchar con (charOf c)).2) con

/-- `puts` -/
def puts (con : Console) (str : CString) : ℤ × Console :=
  (str.bytes.length + 1, (putchar (con.write str.bytes) 0x0a).2)

/-- `printf`, which hands its arguments on. -/
def printf (buffer : ℕ → BitVec 8) (con : Console) (fmt : CString) (args : List VaArg) :
    Option (ℤ × Console) :=
  vprintf buffer con fmt.bytes args

/-- `KERNEL_PANIC_MESSAGE` -/
def kernelPanicMessage : CString :=
  textString "*** KERNEL PANIC ***\nThe kernel initiated a panic for the following cause:\n"
    (by decide +kernel)

/-- `kernel_panic`, up to the loop that it never leaves. -/
def kernelPanic (con : Console) (cause : CString) : Console :=
  let con := { con with display := (displayChangeColor con.display 0x4f).2 }
  let con := { con with display := displayClear con.display }
  (puts (puts con kernelPanicMessage).2 cause).2

/-- `abort` -/
def abort (con : Console) : Console :=
  kernelPanic con (textString "abort() was called" (by decide +kernel))

variable {con : Console} {text : List (BitVec 8)}

/-! ## What is written -/

theorem isText_digit {conv : Conv} {n : ℕ} :
    ∀ c ∈ (numeral conv.base n).map lettermap, IsText c := by
  intro c hc
  obtain ⟨d, hd, rfl⟩ := List.mem_map.mp hc
  have hlt := numeral_lt conv.base_mem.1 hd
  have hle := conv.base_mem.2
  have hall : ∀ d < 36, IsText (lettermap d) := by decide
  exact hall d (by omega)

namespace Console

theorem write_append (con : Console) (text more : List (BitVec 8)) :
    con.write (text ++ more) = (con.write text).write more := List.foldl_append

theorem display_write (con : Console) (htext : ∀ c ∈ text, IsText c) :
    (con.write text).display = text.foldl Display.writeChar con.display := by
  induction text generalizing con with
  | nil => rfl
  | cons c text ih =>
    obtain ⟨hc, htext⟩ := List.forall_mem_cons.mp htext
    rw [write, List.foldl_cons, ← write, ih _ htext, List.foldl_cons, Display.writeChar,
      ← charOf_of_isText hc]
    rfl

theorem print_eq_write (con : Console) (htext : ∀ c ∈ text, IsText c) :
    print con text = (true, con.write text) := by
  induction text generalizing con with
  | nil => rfl
  | cons c text ih =>
    obtain ⟨hc, htext⟩ := List.forall_mem_cons.mp htext
    have hne : ¬ charOf c = -1 := mt (charOf_eq_eof_iff c).mp (ne_eof_of_isText hc)
    rw [print]
    exact (if_neg hne).trans (ih _ htext)

theorem emit_eq_write (con : Console) {written : ℕ} (htext : ∀ c ∈ text, IsText c)
    (hfits : written + text.length ≤ 2 ^ 31 - 1) :
    emit con written text = .ok (written + text.length, con.write text) := by
  rw [emit, if_neg (by omega), print_eq_write con htext]

end Console

theorem puts_eq (con : Console) (str : CString) :
    (puts con str).2 = con.write (str.bytes ++ [0x0a]) := by
  rw [Console.write_append]
  rfl

/-! ## Formats -/

theorem length_rendering (p : Piece) : (p.rendering false).length = p.text.length := by
  have hsign : ¬ p.ShowsSign false := by
    cases p <;> simp [Piece.ShowsSign]
  rw [← (Piece.text_matches hsign).length_eq, List.length_map]

theorem length_renderingOf (pieces : List Piece) :
    (renderingOf false pieces).length = (pieces.flatMap Piece.text).length := by
  rw [renderingOf, List.length_flatMap, List.length_flatMap]
  exact congrArg List.sum (List.map_congr_left fun p _ => length_rendering p)

theorem vprintfLoop_texts {buffer : ℕ → BitVec 8} {pieces : List Piece} {written : ℕ}
    (htext : ∀ c ∈ pieces.flatMap Piece.text, IsText c)
    (hfits : written + (pieces.flatMap Piece.text).length ≤ 2 ^ 31 - 1) (con : Console) :
    vprintfLoop buffer (formatOf pieces) (argsOf pieces) written con =
      some (((written + (pieces.flatMap Piece.text).length : ℕ) : ℤ),
        con.write (pieces.flatMap Piece.text)) := by
  induction pieces generalizing written con with
  | nil =>
    rw [formatOf, List.flatMap_nil, vprintfLoop]
    rfl
  | cons p pieces ih =>
    rw [List.flatMap_cons] at htext hfits ⊢
    obtain ⟨hp, hpieces⟩ := List.forall_mem_append.mp htext
    rw [List.length_append] at hfits ⊢
    have hliteral := length_takeWhile_le false pieces
    rw [length_renderingOf] at hliteral
    rw [formatOf_cons, argsOf_cons, vprintfLoop_piece p (by omega),
      Console.emit_eq_write con hp (by omega), continueWith, ih hpieces (by omega),
      Console.write_append, Nat.add_assoc]

/-- A format of texts and numbers is written out. -/
theorem printf_texts {buffer : ℕ → BitVec 8} (pieces : List Piece) {fmt : CString}
    {args : List VaArg} (hfmt : fmt.bytes = formatOf pieces) (hargs : args = argsOf pieces)
    (htext : ∀ c ∈ pieces.flatMap Piece.text, IsText c)
    (hfits : (pieces.flatMap Piece.text).length ≤ 2 ^ 31 - 1) (con : Console) :
    printf buffer con fmt args = some (((pieces.flatMap Piece.text).length : ℤ),
      con.write (pieces.flatMap Piece.text)) := by
  rw [printf, vprintf, hfmt, hargs, vprintfLoop_texts htext (by omega), Nat.zero_add]

theorem formatOf_append (pieces more : List Piece) :
    formatOf (pieces ++ more) = formatOf pieces ++ formatOf more := List.flatMap_append

theorem argsOf_append (pieces more : List Piece) :
    argsOf (pieces ++ more) = argsOf pieces ++ argsOf more := List.flatMap_append

/-- The pieces of a text without `%`. -/
def literals (text : List (BitVec 8)) (htext : ∀ c ∈ text, IsText c ∧ c ≠ 0x25) : List Piece :=
  text.pmap (fun c h => .literal c (ne_nul_of_isText h.1) h.2) htext

@[simp] theorem formatOf_literals (htext : ∀ c ∈ text, IsText c ∧ c ≠ 0x25) :
    formatOf (literals text htext) = text := by
  induction text with
  | nil => rfl
  | cons c text ih =>
    rw [literals, List.pmap, formatOf_cons]
    exact congrArg (c :: ·) (ih _)

@[simp] theorem argsOf_literals (htext : ∀ c ∈ text, IsText c ∧ c ≠ 0x25) :
    argsOf (literals text htext) = [] := by
  induction text with
  | nil => rfl
  | cons c text ih =>
    rw [literals, List.pmap, argsOf_cons]
    exact ih _

@[simp] theorem text_literals (htext : ∀ c ∈ text, IsText c ∧ c ≠ 0x25) :
    (literals text htext).flatMap Piece.text = text := by
  induction text with
  | nil => rfl
  | cons c text ih =>
    rw [literals, List.pmap, List.flatMap_cons]
    exact congrArg (c :: ·) (ih _)

/-- The string is a short text without `%`. -/
def isLiteral (s : String) : Bool :=
  isShortText s && s.toByteArray.data.toList.all fun c => !Nat.beq c.toNat 0x25

theorem ne_percent_of_isLiteral {s : String} (h : isLiteral s = true) :
    ∀ c ∈ ascii s, IsText c ∧ c ≠ 0x25 := by
  rw [isLiteral, Bool.and_eq_true] at h
  intro c hc
  have htext := (isText_ascii h.1).1 c hc
  refine ⟨htext, ?_⟩
  rintro rfl
  obtain ⟨d, hd, heq⟩ := List.mem_map.mp hc
  have hne := List.all_eq_true.mp h.2 d hd
  have hval : d.toNat = 0x25 := congrArg BitVec.toNat heq
  rw [hval] at hne
  exact absurd hne (by decide)

/-- A number in hexadecimal. -/
def hexText (n : BitVec 32) : List (BitVec 8) := (numeral 16 n.toNat).map lettermap

theorem isText_numeral (conv : Conv) (n : BitVec 32) :
    (∀ c ∈ (numeral conv.base n.toNat).map lettermap, IsText c) ∧
      ((numeral conv.base n.toNat).map lettermap).length ≤ 32 := by
  obtain ⟨-, -, hlength, -⟩ := itoa_eq 0 (fun _ => 0) conv.base_mem.1 conv.base_mem.2 n
  refine ⟨isText_digit, ?_⟩
  rw [List.length_map]
  exact hlength

/-- A format with one number. -/
theorem printf_number (buffer : ℕ → BitVec 8) {fmt : CString} (before after : String)
    (conv : Conv) (hbefore : isLiteral before = true) (hafter : isLiteral after = true)
    (hfmt : fmt.bytes = ascii before ++ (0x25 :: conv.letter :: ascii after)) (n : BitVec 32)
    (con : Console) :
    ∃ count, printf buffer con fmt [.int n] = some (count, con.write
      (ascii before ++ ((numeral conv.base n.toNat).map lettermap ++ ascii after))) := by
  let pieces := literals (ascii before) (ne_percent_of_isLiteral hbefore) ++
    (.number conv n :: literals (ascii after) (ne_percent_of_isLiteral hafter))
  have hpieces : pieces.flatMap Piece.text =
      ascii before ++ ((numeral conv.base n.toNat).map lettermap ++ ascii after) := by
    simp [pieces, Piece.text]
  have hnumber := isText_numeral conv n
  have hfirst := isText_ascii (Bool.and_eq_true_iff.mp hbefore).1
  have hlast := isText_ascii (Bool.and_eq_true_iff.mp hafter).1
  rw [← hpieces]
  refine ⟨_, printf_texts pieces ?_ ?_ ?_ ?_ con⟩
  · rw [hfmt]
    simp [pieces, formatOf_append, Piece.spelling]
  · simp [pieces, argsOf_append, Piece.args]
  · rw [hpieces]
    simp only [List.forall_mem_append]
    exact ⟨hfirst.1, hnumber.1, hlast.1⟩
  · rw [hpieces, List.length_append, List.length_append]
    omega

/-- A format without arguments. -/
theorem printf_literal (buffer : ℕ → BitVec 8) {fmt : CString} (text : String)
    (htext : isLiteral text = true) (hfmt : fmt.bytes = ascii text) (con : Console) :
    ∃ count, printf buffer con fmt [] = some (count, con.write (ascii text)) := by
  let pieces := literals (ascii text) (ne_percent_of_isLiteral htext)
  have hpieces : pieces.flatMap Piece.text = ascii text := text_literals _
  have hplain := isText_ascii (Bool.and_eq_true_iff.mp htext).1
  rw [← hpieces]
  refine ⟨_, printf_texts pieces ?_ ?_ ?_ ?_ con⟩
  · rw [hfmt]
    exact (formatOf_literals _).symm
  · exact (argsOf_literals _).symm
  · rw [hpieces]
    exact hplain.1
  · rw [hpieces]
    omega

/-! ## A cleared screen -/

theorem displayClear_blank (st : Display) : (displayClear st).Blank := by
  refine blank_home fun i hi => ?_
  rw [VideoMemory.glyph, VideoMemory.cell_fillCells, if_pos (by omega), blankCell_glyph]

theorem Display.Blank.showsText {st : Display} (h : st.Blank) : st.ShowsText Layout.empty := by
  rw [ShowsText, h.column, h.row]
  refine Shows.empty (by decide) fun r hr c hc hshown => ?_
  refine h.cells _ (by omega) fun hzero => hshown ?_
  rw [underCursor, h.column, h.row]
  omega

/-- A text on a blank screen is what the screen shows. -/
theorem Console.showsText_write (hblank : con.display.Blank) (htext : ∀ c ∈ text, IsText c) :
    (con.write text).display.ShowsText (layout text) := by
  rw [display_write con htext]
  exact showsText_foldl (fun st l c hl h hc => h.put (h.inRange hl) hc) htext hblank.showsText

/-! ## Colours -/

/-- The attribute in a cell. -/
def VideoMemory.attribute (m : VideoMemory) (i : ℕ) : BitVec 8 := (m.cell i >>> 8).setWidth 8

/-- The driver writes in the colour, and every cell has it, blinking or not. -/
structure Display.Coloured (st : Display) (color : BitVec 8) : Prop where
  /-- the colour of the next character -/
  attrib : st.colorAttrib = color
  /-- the cells -/
  cells : ∀ i < 2000, st.video.attribute i = color ∨ st.video.attribute i = color ||| 0x80

theorem attribute_colorWord_or (color glyph : BitVec 8) :
    ((colorWord color ||| glyph.setWidth 16) >>> 8).setWidth 8 = color := by
  apply BitVec.eq_of_getLsbD_eq
  intro k hk
  simp [colorWord, hk, show 8 + k < 16 by omega, show k < 16 by omega]

namespace Display.Coloured

variable {st st' : Display} {color : BitVec 8}

theorem congr (h : st.Coloured color) (hvideo : st'.video = st.video)
    (hattrib : st'.colorAttrib = st.colorAttrib) : st'.Coloured color :=
  ⟨hattrib.trans h.attrib, by rw [hvideo]; exact h.cells⟩

theorem storeAt (h : st.Coloured color) {j : ℕ} {attrib : BitVec 8} (glyph : BitVec 8)
    (hattrib : attrib = color ∨ attrib = color ||| 0x80) :
    (st.storeAt (cellAddr j) (colorWord attrib ||| glyph.setWidth 16)).Coloured color := by
  refine ⟨h.attrib, fun i hi => ?_⟩
  change ((st.video.store _ _).cell i >>> 8).setWidth 8 = _ ∨ _
  rw [VideoMemory.attribute, Display.storeAt, VideoMemory.cell_store]
  by_cases hij : i = j
  · rw [if_pos hij, attribute_colorWord_or]
    exact hattrib
  · rw [if_neg hij]
    exact h.cells i hi

theorem updateBlinkyCursor (h : st.Coloured color) : st.updateBlinkyCursor.Coloured color := by
  rw [Display.updateBlinkyCursor, getWriteLocation_eq]
  refine h.storeAt 0x5f (.inr ?_)
  rw [h.attrib]

theorem blank (h : st.Coloured color) (j : ℕ) :
    (st.storeAt (cellAddr j) st.blankCell).Coloured color :=
  h.storeAt 0x20 (.inl h.attrib)

theorem scrollIfNeeded (h : st.Coloured color) : st.scrollIfNeeded.Coloured color := by
  rw [Display.scrollIfNeeded]
  split
  · refine ⟨h.attrib, fun i hi => ?_⟩
    have hcells := h.cells
    simp only [VideoMemory.attribute, scrollDisplay, VideoMemory.cell_fillCells,
      VideoMemory.cell_copyCells (show 0 < 80 by decide)] at hcells ⊢
    by_cases hlast : 1920 ≤ i
    · rw [if_pos ⟨hlast, hi⟩]
      exact .inl ((attribute_colorWord_or st.colorAttrib 0x20).trans h.attrib)
    · rw [if_neg (by omega), if_pos (by omega)]
      exact hcells (i + 80) (by omega)
  · exact h

theorem displayClear (st : Display) : (displayClear st).Coloured st.colorAttrib := by
  refine updateBlinkyCursor ⟨rfl, fun i hi => .inl ?_⟩
  rw [VideoMemory.attribute, VideoMemory.cell_fillCells, if_pos (by omega)]
  exact attribute_colorWord_or st.colorAttrib 0x20

theorem writeChar (h : st.Coloured color) {c : BitVec 8} (hc : IsText c) :
    (st.writeChar c).Coloured color := by
  rcases hc with rfl | hprintable
  · have hline := h.blank st.position
    rw [← getWriteLocation_eq] at hline
    have hrow : ({ st.storeAt st.getWriteLocation st.blankCell with
        xLoc := 0, yLoc := (st.yLoc + 1) % 2 ^ 16 } : Display).Coloured color := hline.congr rfl rfl
    exact hrow.scrollIfNeeded.updateBlinkyCursor
  · rw [writeChar_glyph hprintable, getWriteLocation_eq, incrementDrawLocation]
    have hstored := h.storeAt (j := st.position) c (.inl h.attrib)
    have hadvance : (st.storeAt (cellAddr st.position)
        (colorWord st.colorAttrib ||| c.setWidth 16)).advance.Coloured color := by
      refine hstored.congr ?_ ?_ <;> rw [advance] <;> split <;> rfl
    exact hadvance.scrollIfNeeded.updateBlinkyCursor

end Display.Coloured

theorem Console.coloured_write {color : BitVec 8} (h : con.display.Coloured color)
    (htext : ∀ c ∈ text, IsText c) : (con.write text).display.Coloured color := by
  rw [display_write con htext]
  induction text generalizing con with
  | nil => exact h
  | cons c text ih =>
    obtain ⟨hc, htext⟩ := List.forall_mem_cons.mp htext
    have hfirst : ({ con with display := con.display.writeChar c } : Console).display.Coloured
        color := h.writeChar hc
    exact ih hfirst htext

/-- **What a panic shows.** Whatever was on the screen, wherever the cursor was: the screen is
white on red, and shows the panic's two lines, an empty one, the cause, and nothing else.

The colour is changed before the clear, so that the blank cells have it too, and the clear homes
the cursor, so that nothing of the former screen is left. -/
theorem kernelPanic_screen (con : Console) (cause : CString)
    (hcause : ∀ c ∈ cause.bytes, IsText c) :
    (kernelPanic con cause).display.ShowsText
        (layout (kernelPanicMessage.bytes ++ [0x0a] ++ cause.bytes ++ [0x0a])) ∧
      (kernelPanic con cause).display.Coloured 0x4f := by
  have hmessage : ∀ c ∈ kernelPanicMessage.bytes, IsText c := (isText_ascii (by decide +kernel)).1
  have htext : ∀ c ∈ kernelPanicMessage.bytes ++ [0x0a] ++ cause.bytes ++ [0x0a], IsText c := by
    intro c hc
    simp only [List.mem_append, List.mem_singleton] at hc
    rcases hc with ((hc | hc) | hc) | hc
    · exact hmessage c hc
    · exact .inl hc
    · exact hcause c hc
    · exact .inl hc
  rw [kernelPanic, puts_eq, puts_eq, ← Console.write_append, ← List.append_assoc]
  exact ⟨Console.showsText_write (displayClear_blank _) htext,
    Console.coloured_write (Display.Coloured.displayClear _) htext⟩

/-- The screen after `abort`. -/
theorem abort_screen :
    let con : Console := ⟨.start fun _ => 0, [], 0⟩
    (abort con).display.ShowsText (layout
        (kernelPanicMessage.bytes ++ [0x0a] ++ ascii "abort() was called" ++ [0x0a])) ∧
      (abort con).display.Coloured 0x4f :=
  kernelPanic_screen _ _ (isText_ascii (by decide +kernel)).1

end MissyKernel
