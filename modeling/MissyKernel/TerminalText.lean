import MissyKernel.Display
import MissyKernel.Kterm
import MissyKernel.TextLayout

/-!
# What the terminals show

Both terminals lay the text they are given out in rows of 80 columns and show the last
25 rows of it. The display driver draws its cursor over the cell it writes next and wipes
it out again, the early terminal draws none; one call of either is a short sequence of the
rules of `Shows`.

The two terminals are compared with one layout and not with each other: `Display.ShowsText` and
`Kterm.ShowsText` are the same relation for different cells. `ShowsText.put` is the step for one
character, by cases on newline and glyph and on whether the screen scrolls; `showsText_foldl` is
the induction over the text.
-/

namespace MissyKernel

/-- Printable ASCII, and the newline. -/
def IsText (c : BitVec 8) : Prop := c = 0x0a ∨ (0x20 ≤ c ∧ c ≤ 0x7e)

instance : DecidablePred IsText :=
  fun c => inferInstanceAs (Decidable (c = 0x0a ∨ (0x20 ≤ c ∧ c ≤ 0x7e)))

/-- The text on an empty screen. -/
def layout (text : List (BitVec 8)) : Layout (BitVec 8) :=
  text.foldl (Layout.put 80 0x0a) Layout.empty

/-- The glyph in column `c` of row `r`. -/
def VideoMemory.glyphAt (m : VideoMemory) (r c : ℕ) : BitVec 8 := m.glyph (80 * r + c)

/-- `display_write` on a character of the text. -/
def Display.writeChar (st : Display) (c : BitVec 8) : Display := displayWrite st (c.setWidth 32)

/-- `ki_putc` on a character of the text. -/
def Kterm.putChar (st : Kterm) (c : BitVec 8) : Kterm := kiPutc st (c.setWidth 32)

/-- The cell under the cursor. -/
def Display.underCursor (st : Display) (r c : ℕ) : Prop := r = st.yLoc ∧ c = st.xLoc

/-- The driver shows the end of the text, but for the cell under its cursor. -/
def Display.ShowsText (st : Display) (l : Layout (BitVec 8)) : Prop :=
  Shows 80 25 0x20 st.video.glyphAt st.underCursor st.xLoc st.yLoc l

/-- The early terminal shows the end of the text. -/
def Kterm.ShowsText (st : Kterm) (l : Layout (BitVec 8)) : Prop :=
  ∃ x y : ℕ, st.curX = x ∧ st.curY = y ∧
    Shows 80 25 0x20 st.video.glyphAt (fun _ _ => False) x y l

/-- A blank screen with the cursor in the first cell. -/
structure Display.Blank (st : Display) : Prop where
  /-- the column -/
  column : st.xLoc = 0
  /-- the row -/
  row : st.yLoc = 0
  /-- the cells, but for the one under the cursor -/
  cells : ∀ i < 2000, i ≠ 0 → st.video.glyph i = 0x20

/-- A blank screen with the cursor in the first cell. -/
structure Kterm.Blank (st : Kterm) : Prop where
  /-- the column -/
  column : st.curX = 0
  /-- the row -/
  row : st.curY = 0
  /-- the cells -/
  cells : ∀ i < 2000, st.video.glyph i = 0x20

/-! ## Cells as rows and columns -/

section Cells

variable {m : VideoMemory} {w : BitVec 16} {x y r c : ℕ}

theorem glyphAt_store (hx : x < 80) (hc : c < 80) :
    (m.store (cellAddr (80 * y + x)) w).glyphAt r c =
      if r = y ∧ c = x then w.setWidth 8 else m.glyphAt r c := by
  rw [VideoMemory.glyphAt, VideoMemory.glyph, VideoMemory.cell_store]
  by_cases hpos : r = y ∧ c = x
  · rw [if_pos (by omega), if_pos hpos]
  · rw [if_neg (by omega), if_neg hpos]
    rfl

/-- The two loops of both scrolling functions. -/
theorem glyphAt_scroll (hr : r < 25) (hc : c < 80) :
    ((m.copyCells 80 1920 0).fillCells w 80 1920).glyphAt r c =
      if r < 24 then m.glyphAt (r + 1) c else w.setWidth 8 := by
  rw [VideoMemory.glyphAt, VideoMemory.glyph, VideoMemory.cell_fillCells]
  by_cases hlast : r < 24
  · rw [if_neg (by omega), if_pos hlast, VideoMemory.cell_copyCells (by decide), if_pos (by omega),
      show 80 * r + c + 80 = 80 * (r + 1) + c by omega]
    rfl
  · rw [if_pos (by omega), if_neg hlast]

end Cells

/-- A printable character is no control character. -/
theorem setWidth_ne_control {c : BitVec 8} {n : BitVec 32} (hc : 0x20 ≤ c) (hn : n < 0x20) :
    c.setWidth 32 ≠ n := by
  rintro rfl
  have hlow : 32 ≤ c.toNat := hc
  have hhigh : (c.setWidth 32).toNat < 32 := hn
  rw [BitVec.toNat_setWidth] at hhigh
  omega

theorem blankCell_glyph (st : Display) : st.blankCell.setWidth 8 = 0x20 :=
  VideoMemory.setWidth_colorWord_or st.colorAttrib 0x20

/-! ## The display driver -/

namespace Display

variable {st : Display} {l : Layout (BitVec 8)} {c : BitVec 8}

/-- The next row, scrolled if there is none, with the cursor drawn. -/
theorem showsText_newRow {x : ℕ}
    (h : Shows 80 25 0x20 st.video.glyphAt (fun _ _ => False) x st.yLoc l) (hy : st.yLoc < 25) :
    ({ st with xLoc := 0, yLoc := st.yLoc + 1 } :
      Display).scrollIfNeeded.updateBlinkyCursor.ShowsText l.newRow := by
  rw [scrollIfNeeded]
  by_cases hlast : st.yLoc = 24
  · rw [if_pos (show 25 ≤ st.yLoc + 1 by omega), updateBlinkyCursor, getWriteLocation_eq]
    have hscrolled : Shows 80 25 0x20
        ((st.video.copyCells 80 1920 0).fillCells st.blankCell 80 1920).glyphAt
        (fun _ _ => False) 0 st.yLoc l.newRow := by
      refine h.scroll (by omega) fun r hr c hc => ?_
      rw [glyphAt_scroll hr hc, blankCell_glyph, hlast]
    refine Shows.hide (hlast ▸ hscrolled) fun r _ c hc hshown => ?_
    exact (glyphAt_store (show 0 < 80 by decide) hc).trans (if_neg hshown)
  · rw [if_neg (show ¬ 25 ≤ st.yLoc + 1 by omega), updateBlinkyCursor, getWriteLocation_eq]
    refine Shows.hide (h.newRow (by omega)) fun r _ c hc hshown => ?_
    exact (glyphAt_store (show 0 < 80 by decide) hc).trans (if_neg hshown)

/-- A newline wipes the cursor out first. -/
theorem ShowsText.newline (h : st.ShowsText l) (hrange : st.InRange) :
    (st.writeChar 0x0a).ShowsText l.newRow := by
  have hy := hrange.row
  have hwiped : Shows 80 25 0x20 (st.storeAt st.getWriteLocation st.blankCell).video.glyphAt
      (fun _ _ => False) st.xLoc st.yLoc l := by
    refine Shows.reveal h (by decide) (fun r _ c hc => ?_) fun _ _ hrc => hrc
    rw [getWriteLocation_eq]
    exact (glyphAt_store hrange.column hc).trans (by rw [blankCell_glyph])
  have hrow := @showsText_newRow (st.storeAt st.getWriteLocation st.blankCell) l _ hwiped hy
  rw [writeChar, displayWrite, if_neg (by decide), if_neg (by decide), if_pos (by decide)]
  simp only [Nat.mod_eq_of_lt (show (st.storeAt st.getWriteLocation st.blankCell).yLoc + 1 < 2 ^ 16
    from Nat.lt_of_lt_of_le (Nat.succ_lt_succ hy) (by decide))]
  exact hrow

theorem writeChar_glyph (hc : 0x20 ≤ c ∧ c ≤ 0x7e) :
    st.writeChar c = (st.storeAt st.getWriteLocation
      (colorWord st.colorAttrib ||| c.setWidth 16)).incrementDrawLocation := by
  have hback : ¬ c.setWidth 32 = (0x08 : BitVec 32) := setWidth_ne_control hc.1 (by decide)
  have htab : ¬ c.setWidth 32 = (0x09 : BitVec 32) := setWidth_ne_control hc.1 (by decide)
  have hline : ¬ c.setWidth 32 = (0x0a : BitVec 32) := setWidth_ne_control hc.1 (by decide)
  have hreturn : ¬ c.setWidth 32 = (0x0d : BitVec 32) := setWidth_ne_control hc.1 (by decide)
  have hbyte : (c.setWidth 32).setWidth 8 = c := by
    rw [BitVec.setWidth_setWidth_of_le _ (by decide), BitVec.setWidth_eq]
  rw [writeChar, displayWrite, if_neg hback, if_neg htab, if_neg (not_or.mpr ⟨hline, hreturn⟩)]
  simp only [hbyte]

/-- A glyph is drawn over the cursor. -/
theorem ShowsText.glyph (h : st.ShowsText l) (hrange : st.InRange)
    (hc : 0x20 ≤ c ∧ c ≤ 0x7e) :
    (st.writeChar c).ShowsText
      (if (l.append c).current.length = 80 then (l.append c).newRow else l.append c) := by
  have hx := hrange.column
  have hy := hrange.row
  let stored := st.storeAt st.getWriteLocation (colorWord st.colorAttrib ||| c.setWidth 16)
  have hdrawn : Shows 80 25 0x20 stored.video.glyphAt (fun _ _ => False) (st.xLoc + 1) st.yLoc
      (l.append c) := by
    refine Shows.append h (by decide) (fun r _ k hk => ?_) fun _ _ hrc => hrc
    change (st.video.store st.getWriteLocation _).glyphAt r k = _
    rw [getWriteLocation_eq]
    exact (glyphAt_store hx hk).trans (by rw [VideoMemory.setWidth_colorWord_or])
  have hstored : stored.InRange := hrange.storeAt _ _
  have hlength : (l.append c).current.length = st.xLoc + 1 := hdrawn.column.symm
  rw [writeChar_glyph hc, hlength]
  change (stored.incrementDrawLocation).ShowsText _
  rw [incrementDrawLocation, hstored.advance]
  by_cases hfull : st.xLoc = 79
  · simp only [show stored.xLoc = 79 from hfull, hfull, ↓reduceIte]
    exact showsText_newRow hdrawn hy
  · simp only [show ¬ stored.xLoc = 79 from hfull, show ¬ st.xLoc + 1 = 80 by omega, ↓reduceIte]
    rw [scrollIfNeeded, if_neg (show ¬ 25 ≤ stored.yLoc from hy.not_ge), updateBlinkyCursor,
      getWriteLocation_eq]
    refine Shows.hide hdrawn fun r _ k hk hshown => ?_
    exact (glyphAt_store (show st.xLoc + 1 < 80 by omega) hk).trans (if_neg hshown)

/-- One call. -/
theorem ShowsText.put (h : st.ShowsText l) (hrange : st.InRange) (hc : IsText c) :
    (st.writeChar c).ShowsText (l.put 80 0x0a c) := by
  rw [Layout.put]
  rcases hc with rfl | hprintable
  · rw [if_pos rfl]
    exact h.newline hrange
  · rw [if_neg]
    · exact h.glyph hrange hprintable
    · rintro rfl
      exact absurd hprintable.1 (by decide)

end Display

/-! ## The early terminal -/

namespace Kterm

variable {st : Kterm} {l : Layout (BitVec 8)} {c : BitVec 8}

/-- The next row, scrolled if there is none. -/
theorem showsText_newRow {x y : ℕ} (hy : st.curY = y)
    (h : Shows 80 25 0x20 st.video.glyphAt (fun _ _ => False) x y l) (hlt : y < 25) :
    ({ st with curX := 0, curY := st.curY + 1 } : Kterm).scrollIfNeeded.ShowsText l.newRow := by
  rw [scrollIfNeeded]
  by_cases hlast : y = 24
  · rw [if_pos (show 24 < st.curY + 1 by omega)]
    refine ⟨0, 24, rfl, rfl, ?_⟩
    subst hlast
    refine h.scroll (by omega) fun r hr c hc => ?_
    have hblank : (colorWord 0x0f ||| 0x20).setWidth 8 = (0x20 : BitVec 8) := by decide
    exact (glyphAt_scroll hr hc).trans (by rw [hblank])
  · rw [if_neg (show ¬ 24 < st.curY + 1 by omega)]
    exact ⟨0, y + 1, rfl, by change st.curY + 1 = _; omega, h.newRow (by omega)⟩

theorem ShowsText.newline (h : st.ShowsText l) (hrange : st.InRange) :
    (st.putChar 0x0a).ShowsText l.newRow := by
  obtain ⟨x, y, -, hy, hshows⟩ := h
  have hrow := hrange.row
  rw [putChar, show (0x0a : BitVec 8).setWidth 32 = 0x0a from rfl, kiPutc_newline]
  exact showsText_newRow hy hshows (by omega)

theorem ShowsText.glyph (h : st.ShowsText l) (hrange : st.InRange)
    (hc : 0x20 ≤ c ∧ c ≤ 0x7e) :
    (st.putChar c).ShowsText
      (if (l.append c).current.length = 80 then (l.append c).newRow else l.append c) := by
  obtain ⟨x, y, hx, hy, hshows⟩ := h
  have hcolumn := hrange.column
  have hrow := hrange.row
  obtain ⟨haddr, -⟩ := hrange.videoPtr
  have hbyte : (c.setWidth 32).setWidth 16 = c.setWidth 16 :=
    BitVec.setWidth_setWidth_of_le _ (by decide)
  have hposition : st.position.toNat = 80 * y + x := by
    rw [position]
    omega
  have hdrawn : Shows 80 25 0x20 (st.video.store st.videoPtr
      (colorWord st.colorAttribute ||| c.setWidth 16)).glyphAt (fun _ _ => False) (x + 1) y
      (l.append c) := by
    refine hshows.append (by decide) (fun r _ k hk => ?_) fun _ _ hrc => hrc.elim
    rw [haddr, hposition]
    exact (glyphAt_store (by omega) hk).trans (by rw [VideoMemory.setWidth_colorWord_or])
  have hlength : (l.append c).current.length = x + 1 := hdrawn.column.symm
  rw [putChar, kiPutc_draw st (setWidth_ne_control hc.1 (by decide))
    (setWidth_ne_control hc.1 (by decide)) (setWidth_ne_control hc.1 (by decide)), draw, hlength,
    hbyte]
  by_cases hfull : x = 79
  · rw [if_pos (show 80 ≤ st.curX + 1 by omega), if_pos (by omega)]
    let drawn : Kterm :=
      { st with
        video := st.video.store st.videoPtr (colorWord st.colorAttribute ||| c.setWidth 16) }
    have hnext := @showsText_newRow drawn _ _ _ hy hdrawn (by omega)
    exact hnext
  · rw [if_neg (show ¬ 80 ≤ st.curX + 1 by omega), if_neg (by omega), scrollIfNeeded,
      if_neg (show ¬ 24 < st.curY by omega)]
    exact ⟨x + 1, y, by change st.curX + 1 = _; omega, hy, hdrawn⟩

/-- One call. -/
theorem ShowsText.put (h : st.ShowsText l) (hrange : st.InRange) (hc : IsText c) :
    (st.putChar c).ShowsText (l.put 80 0x0a c) := by
  rw [Layout.put]
  rcases hc with rfl | hprintable
  · rw [if_pos rfl]
    exact h.newline hrange
  · rw [if_neg]
    · exact h.glyph hrange hprintable
    · rintro rfl
      exact absurd hprintable.1 (by decide)

end Kterm

/-! ## The whole text -/

/-- What each call keeps, the whole text keeps. -/
theorem showsText_foldl {σ : Type} {put : σ → BitVec 8 → σ}
    {ShowsText : σ → Layout (BitVec 8) → Prop} {st : σ} {text : List (BitVec 8)}
    (hput : ∀ st l c, l.current.length < 80 → ShowsText st l → IsText c →
      ShowsText (put st c) (l.put 80 0x0a c))
    (htext : ∀ c ∈ text, IsText c) (hblank : ShowsText st Layout.empty) :
    ShowsText (text.foldl put st) (layout text) := by
  have hrun := foldl_simulation (R := fun st l => ShowsText st l ∧ l.current.length < 80)
    (fun st l c hc h => ⟨hput st l c h.2 h.1 hc, length_current_put_lt h.2 c⟩) text st
    Layout.empty htext ⟨hblank, by decide⟩
  exact hrun.1

/-- The position is on the screen. -/
theorem Display.ShowsText.inRange {st : Display} {l : Layout (BitVec 8)} (h : st.ShowsText l)
    (hl : l.current.length < 80) : st.InRange := by
  have hx := h.column
  have hy := h.row_eq (by decide)
  exact ⟨by omega, by omega⟩

/-- The position is on the screen. -/
theorem Kterm.ShowsText.inRange {st : Kterm} {l : Layout (BitVec 8)} (h : st.ShowsText l)
    (hl : l.current.length < 80) : st.InRange := by
  obtain ⟨x, y, hx, hy, hshows⟩ := h
  have hcolumn := hshows.column
  have hrow := hshows.row_eq (by decide)
  exact ⟨by omega, by omega, by omega, by omega⟩

/-- **Both terminals show the tail of the text.** From a blank screen, whatever text they are
given, the glyphs are the last 25 rows of its layout, for the display driver all but the one under
its cursor, and both report the same row and column.

Each terminal is compared with the layout on its own, character by character: a glyph at the
position, a new row where the last column is filled, a scroll where the last row is. The second
terminal needs no exception, as it draws no cursor. -/
theorem terminals_show_tail (text : List (BitVec 8)) (htext : ∀ c ∈ text, IsText c)
    (display : Display) (hdisplay : display.Blank) (kterm : Kterm) (hkterm : kterm.Blank) :
    let d := text.foldl Display.writeChar display
    let k := text.foldl Kterm.putChar kterm
    let rows := (layout text).lastRows 25
    (∀ r < 25, ∀ c < 80, ¬ (r = d.yLoc ∧ c = d.xLoc) →
      d.video.glyphAt r c = Layout.glyphAt 0x20 rows r c) ∧
    (∀ r < 25, ∀ c < 80, k.video.glyphAt r c = Layout.glyphAt 0x20 rows r c) ∧
    d.xLoc = (layout text).current.length ∧ d.yLoc + 1 = rows.length ∧
    k.curX = d.xLoc ∧ k.curY = d.yLoc := by
  have hd : (text.foldl Display.writeChar display).ShowsText (layout text) := by
    refine showsText_foldl (fun st l c hl h hc => h.put (h.inRange hl) hc) htext ?_
    rw [Display.ShowsText, hdisplay.column, hdisplay.row]
    refine Shows.empty (by decide) fun r hr c hc hshown => ?_
    refine hdisplay.cells _ (by omega) fun hzero => hshown ?_
    rw [Display.underCursor, hdisplay.column, hdisplay.row]
    omega
  have hk : (text.foldl Kterm.putChar kterm).ShowsText (layout text) := by
    refine showsText_foldl (fun st l c hl h hc => h.put (h.inRange hl) hc) htext ?_
    refine ⟨0, 0, hkterm.column, hkterm.row, ?_⟩
    exact Shows.empty (by decide) fun r hr c hc _ => hkterm.cells _ (by omega)
  obtain ⟨x, y, hx, hy, hk⟩ := hk
  refine ⟨hd.glyphs, fun r hr c hc => hk.glyphs r hr c hc id, hd.column, hd.row, ?_, ?_⟩
  · rw [hx, hk.column, hd.column]
  · have hrow := hk.row.trans hd.row.symm
    rw [hy, Nat.succ.inj hrow]

/-- The cursor in the first cell of a blank screen. -/
theorem blank_home {st : Display} {video : VideoMemory}
    (hvideo : ∀ i < 2000, video.glyph i = 0x20) :
    ({ st with video := video, xLoc := 0, yLoc := 0 } : Display).updateBlinkyCursor.Blank := by
  refine ⟨rfl, rfl, fun i hi hpos => ?_⟩
  rw [← hvideo i hi]
  change (video.store (cellAddr 0) _).glyph i = video.glyph i
  rw [VideoMemory.glyph, VideoMemory.cell_store, if_neg hpos]
  rfl

/-- After the initialisation the display is blank. -/
theorem displayInit_blank (st : Display) (preserve attributes : BitVec 8) :
    (displayInit st preserve attributes).Blank := by
  have hfilled : ∀ i < 2000, (st.video.fillCells st.blankCell 2000 0).glyph i = 0x20 := by
    intro i hi
    rw [VideoMemory.glyph, VideoMemory.cell_fillCells, if_pos (by omega), blankCell_glyph]
  have hclear : (displayClear st.disableHardwareCursor).Blank := blank_home hfilled
  exact ⟨hclear.column, hclear.row, hclear.cells⟩

/-- The early terminal starts blank on a blank screen. -/
theorem start_blank {word : ℕ → BitVec 16} (hword : ∀ a, (word a).setWidth 8 = 0x20)
    (color : BitVec 8) : (Kterm.start word color).Blank :=
  ⟨rfl, rfl, fun _ _ => hword _⟩

/-- Eighty-five letters, twenty-four newlines and a word. -/
def longText : List (BitVec 8) :=
  List.replicate 85 0x61 ++ List.replicate 24 0x0a ++ [0x79, 0x6f]

/-- The letters wrap and the newlines scroll: of 26 rows the first is gone, and the five letters
that went over to the second row stand at the top. -/
theorem terminals_show_tail_long :
    let d := longText.foldl Display.writeChar (displayInit (.start fun _ => 0) 0 0)
    let k := longText.foldl Kterm.putChar (.start (fun _ => 0x0f20) 0x0f)
    let rows := [List.replicate 5 0x61] ++ List.replicate 23 [] ++ [[0x79, 0x6f]]
    (∀ r < 25, ∀ c < 80, ¬ (r = d.yLoc ∧ c = d.xLoc) →
      d.video.glyphAt r c = Layout.glyphAt 0x20 rows r c) ∧
    (∀ r < 25, ∀ c < 80, k.video.glyphAt r c = Layout.glyphAt 0x20 rows r c) ∧
    d.xLoc = 2 ∧ d.yLoc + 1 = 25 ∧ k.curX = d.xLoc ∧ k.curY = d.yLoc := by
  have hrows : (layout longText).lastRows 25 =
      [List.replicate 5 0x61] ++ List.replicate 23 [] ++ [[0x79, 0x6f]] := by decide +kernel
  have hcolumn : (layout longText).current.length = 2 := by decide +kernel
  have hblank : (Kterm.start (fun _ => 0x0f20) 0x0f).Blank := start_blank (fun _ => by decide) 0x0f
  have htail := terminals_show_tail longText (by decide +kernel) _
    (displayInit_blank (.start fun _ => 0) 0 0) _ hblank
  rw [hrows, hcolumn] at htail
  exact htail

end MissyKernel
