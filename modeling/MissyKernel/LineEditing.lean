import MissyKernel.Display

/-!
# Tabs and backspaces

A tab steps over four cells as four spaces do, but with a pointer that it took in front of the
loop. The two agree as long as the screen is not scrolled between two of the steps; behind a
scroll the pointer is off the screen, and the cursor that was drawn in the first cell of the new
row stays there.

A backspace takes back the last character that was drawn in front of blank cells. So typing and
then as many backspaces leave the screen as it was, in any number of rows.

Both results are about whole screens, compared cell by cell and with their position
(`SameScreen`). For a tab, `tab_leaves_cursor` is what the other direction needs: the cursor left
behind stands where four spaces leave none. For the backspaces the induction is on the string,
the last character being taken back first.
-/

namespace MissyKernel

/-- `display_write` draws the character; all printable ones are among these. -/
def Drawn (c : BitVec 32) : Prop := c ≠ 0x08 ∧ c ≠ 0x09 ∧ c ≠ 0x0a ∧ c ≠ 0x0d

theorem drawn_of_printable {c : BitVec 32} (h : 0x20 ≤ c) : Drawn c := by
  have hle : 32 ≤ c.toNat := h
  refine ⟨?_, ?_, ?_, ?_⟩ <;>
  · rintro rfl
    exact absurd hle (by decide)

namespace Display

/-- The cursor in the current colour. -/
def cursorCell (st : Display) : BitVec 16 := colorWord (st.colorAttrib ||| 0x80) ||| 0x5f

/-- The same 2000 cells, and the cursor in the same place. -/
structure SameScreen (st st' : Display) : Prop where
  /-- the cells -/
  cells : ∀ i < 2000, st.video.cell i = st'.video.cell i
  /-- `x_loc` -/
  column : st.xLoc = st'.xLoc
  /-- `y_loc` -/
  row : st.yLoc = st'.yLoc

/-- The cursor stands where the blank rest of the screen begins. -/
structure AtEnd (st : Display) : Prop extends InRange st where
  /-- it is drawn -/
  cursor : st.video.cell st.position = st.cursorCell
  /-- the rest is blank -/
  blank : ∀ i, st.position < i → i < 2000 → st.video.cell i = st.blankCell

variable {st st' : Display} {i j n : ℕ} {c : BitVec 32} {w : BitVec 16}

/-! ## One step forward -/

theorem blankCell_ne_cursorCell (st : Display) : st.blankCell ≠ st.cursorCell := by
  intro heq
  have hglyph : (0x20 : BitVec 8) = 0x5f :=
    calc (0x20 : BitVec 8) = st.blankCell.setWidth 8 :=
          (VideoMemory.setWidth_colorWord_or st.colorAttrib 0x20).symm
      _ = st.cursorCell.setWidth 8 := by rw [heq]
      _ = 0x5f := VideoMemory.setWidth_colorWord_or (st.colorAttrib ||| 0x80) 0x5f
  exact absurd hglyph (by decide)

theorem cell_updateBlinkyCursor (st : Display) (j : ℕ) :
    st.updateBlinkyCursor.video.cell j =
      if j = st.position then st.cursorCell else st.video.cell j := by
  rw [updateBlinkyCursor, getWriteLocation_eq]
  exact VideoMemory.cell_store

theorem InRange.eq_of_position (h : st.InRange) (h' : st'.InRange)
    (hpos : st.position = st'.position) : st.xLoc = st'.xLoc ∧ st.yLoc = st'.yLoc := by
  have hx := h.column
  have hx' := h'.column
  rw [position, position] at hpos
  omega

theorem InRange.position_advance (h : st.InRange) : st.advance.position = st.position + 1 := by
  have hx := h.column
  rw [h.advance, position, position]
  dsimp only
  split_ifs <;> omega

theorem colorAttrib_advance (st : Display) : st.advance.colorAttrib = st.colorAttrib := by
  simp only [Display.advance]
  split <;> rfl

theorem colorAttrib_incrementDrawLocation (st : Display) :
    st.incrementDrawLocation.colorAttrib = st.colorAttrib := by
  have hscroll : st.advance.scrollIfNeeded.colorAttrib = st.advance.colorAttrib := by
    rw [scrollIfNeeded]
    split <;> rfl
  exact hscroll.trans (colorAttrib_advance st)

/-- Away from the last cell nothing is scrolled. -/
theorem InRange.incrementDrawLocation_of_lt (h : st.InRange) (hlt : st.position + 1 < 2000) :
    st.incrementDrawLocation = st.advance.updateBlinkyCursor := by
  have hnext : st.advance.yLoc < 25 := by
    have hpos := h.position_advance
    rw [position] at hpos
    omega
  rw [Display.incrementDrawLocation, scrollIfNeeded, if_neg (by omega)]

theorem InRange.position_incrementDrawLocation (h : st.InRange) (hlt : st.position + 1 < 2000) :
    st.incrementDrawLocation.position = st.position + 1 := by
  rw [h.incrementDrawLocation_of_lt hlt]
  exact h.position_advance

theorem InRange.cell_incrementDrawLocation (h : st.InRange) (hlt : st.position + 1 < 2000)
    (j : ℕ) : st.incrementDrawLocation.video.cell j =
      if j = st.position + 1 then st.cursorCell else st.video.cell j := by
  have hcursor : st.advance.cursorCell = st.cursorCell := by
    rw [h.advance]
    rfl
  rw [h.incrementDrawLocation_of_lt hlt, cell_updateBlinkyCursor, h.position_advance, hcursor,
    video_advance]

/-- From the last cell the position goes to the first one of the last row. -/
theorem InRange.position_incrementDrawLocation_last (h : st.InRange) (hlast : st.position = 1999) :
    st.incrementDrawLocation.position = 1920 := by
  have hnext : 25 ≤ st.advance.yLoc := by
    have hx : st.advance.xLoc < 80 := by
      have hx := h.column
      rw [h.advance]
      dsimp only
      split_ifs <;> omega
    have hpos := h.position_advance
    rw [position] at hpos
    omega
  rw [Display.incrementDrawLocation, scrollIfNeeded, if_pos hnext]
  rfl

/-- It ends with the cursor drawn. -/
theorem cell_position_incrementDrawLocation (st : Display) :
    st.incrementDrawLocation.video.cell st.incrementDrawLocation.position =
      st.incrementDrawLocation.cursorCell :=
  (cell_updateBlinkyCursor st.advance.scrollIfNeeded _).trans (if_pos rfl)

/-- A step of `tabulate`, or a character drawn: a store somewhere and the next position. -/
theorem InRange.cell_draw (h : st.InRange) (hlt : st.position + 1 < 2000) (i j : ℕ)
    (w : BitVec 16) : (st.storeAt (cellAddr i) w).incrementDrawLocation.video.cell j =
      if j = st.position + 1 then st.cursorCell else if j = i then w else st.video.cell j := by
  rw [(h.storeAt (cellAddr i) w).cell_incrementDrawLocation hlt]
  exact congrArg (ite _ st.cursorCell) VideoMemory.cell_store

theorem InRange.position_draw (h : st.InRange) (hlt : st.position + 1 < 2000) (a : ℕ)
    (w : BitVec 16) : (st.storeAt a w).incrementDrawLocation.position = st.position + 1 :=
  (h.storeAt a w).position_incrementDrawLocation hlt

theorem displayWrite_drawn (hc : Drawn c) (st : Display) :
    displayWrite st c = (st.storeAt (cellAddr st.position)
      (colorWord st.colorAttrib ||| (c.setWidth 8).setWidth 16)).incrementDrawLocation := by
  obtain ⟨hback, htab, hline, hreturn⟩ := hc
  rw [displayWrite, if_neg hback, if_neg htab, if_neg (by simp only [hline, hreturn, or_self,
    not_false_eq_true]), getWriteLocation_eq]

/-! ## Tabs -/

theorem displayWrite_space (st : Display) :
    displayWrite st 0x20 =
      (st.storeAt (cellAddr st.position) st.blankCell).incrementDrawLocation :=
  displayWrite_drawn (drawn_of_printable (by decide)) st

theorem displayWrite_tab (st : Display) :
    displayWrite st 0x09 = tabulateLoop 4 (cellAddr st.position) st := by
  rw [← getWriteLocation_eq]
  rfl

theorem tabulateLoop_succ (n i : ℕ) (st : Display) :
    tabulateLoop (n + 1) (cellAddr i) st = tabulateLoop n (cellAddr (i + 1))
      (st.storeAt (cellAddr i) st.blankCell).incrementDrawLocation := by
  have hnext : cellAddr i + 2 = cellAddr (i + 1) := by
    rw [cellAddr, cellAddr]
    omega
  rw [tabulateLoop, hnext]

theorem tabulateLoop_add (k n i : ℕ) (st : Display) :
    tabulateLoop (k + n) (cellAddr i) st =
      tabulateLoop n (cellAddr (i + k)) (tabulateLoop k (cellAddr i) st) := by
  induction k generalizing i st with
  | zero => rw [Nat.zero_add, Nat.add_zero, tabulateLoop]
  | succ k ih =>
    rw [Nat.succ_add, tabulateLoop_succ, ih, tabulateLoop_succ, Nat.add_right_comm, Nat.add_assoc]

/-- Up to the last cell the steps of a tab are spaces. -/
theorem tabulateLoop_eq_spaces (h : st.InRange) (hn : st.position + n ≤ 2000) :
    tabulateLoop n (cellAddr st.position) st = (displayWrite · 0x20)^[n] st := by
  induction n generalizing st with
  | zero => rfl
  | succ n ih =>
    rw [tabulateLoop_succ, Function.iterate_succ_apply, displayWrite_space]
    rcases Nat.lt_or_ge (st.position + 1) 2000 with hlt | hge
    · rw [← h.position_draw hlt (cellAddr st.position) st.blankCell]
      refine ih (h.storeAt _ _).incrementDrawLocation ?_
      rw [h.position_draw hlt]
      omega
    · obtain rfl : n = 0 := by omega
      rfl

/-- With its pointer off the screen a tab draws nothing but the cursor. -/
theorem cell_tabulateLoop (h : st.InRange) (hfirst : 1920 ≤ st.position)
    (hn : st.position + n < 2000) (hi : 2000 ≤ i) :
    (tabulateLoop n (cellAddr i) st).video.cell 1920 = st.video.cell 1920 := by
  induction n generalizing st i with
  | zero => rfl
  | succ n ih =>
    have hlt : st.position + 1 < 2000 := by omega
    rw [tabulateLoop_succ, ih (h.storeAt _ _).incrementDrawLocation _ _ (by omega),
      h.cell_draw hlt, if_neg (by omega), if_neg (by omega)]
    · rw [h.position_draw hlt]
      omega
    · rw [h.position_draw hlt]
      omega

/-- Spaces behind the first cell of the last row leave it alone. -/
theorem cell_spaces (h : st.InRange) (hfirst : 1920 < st.position)
    (hn : st.position + n < 2000) :
    ((displayWrite · 0x20)^[n] st).video.cell 1920 = st.video.cell 1920 := by
  induction n generalizing st with
  | zero => rfl
  | succ n ih =>
    have hlt : st.position + 1 < 2000 := by omega
    have hpos := h.position_draw hlt (cellAddr st.position) st.blankCell
    rw [Function.iterate_succ_apply, displayWrite_space,
      ih (h.storeAt _ _).incrementDrawLocation (by omega) (by omega), h.cell_draw hlt,
      if_neg (by omega), if_neg (by omega)]

/-- Where the spaces scroll: the cursor in the first cell of the last row. -/
theorem spaces_to_last (h : st.InRange) (hn : st.position + (n + 1) = 2000) :
    ((displayWrite · 0x20)^[n + 1] st).InRange ∧
      ((displayWrite · 0x20)^[n + 1] st).position = 1920 ∧
      ((displayWrite · 0x20)^[n + 1] st).video.cell 1920 =
        ((displayWrite · 0x20)^[n + 1] st).cursorCell := by
  induction n generalizing st with
  | zero =>
    have hlast : (st.storeAt (cellAddr st.position) st.blankCell).position = 1999 := by
      change st.position = 1999
      omega
    have hpos := (h.storeAt (cellAddr st.position) st.blankCell).position_incrementDrawLocation_last
      hlast
    rw [Function.iterate_succ_apply, displayWrite_space]
    refine ⟨(h.storeAt _ _).incrementDrawLocation, hpos, ?_⟩
    have hcursor := cell_position_incrementDrawLocation
      (st.storeAt (cellAddr st.position) st.blankCell)
    rwa [hpos] at hcursor
  | succ n ih =>
    rw [Function.iterate_succ_apply, displayWrite_space]
    refine ih (h.storeAt _ _).incrementDrawLocation ?_
    rw [h.position_draw (by omega)]
    omega

/-- Where it scrolls between two of its steps, a tab leaves a cursor behind. -/
theorem tab_leaves_cursor (h : st.InRange) (hge : 1997 ≤ st.position) :
    ¬ SameScreen (displayWrite st 0x09) ((displayWrite · 0x20)^[4] st) := by
  intro hsame
  have hlt := h.position_lt
  -- `k + 1` steps up to the scroll, `m + 1` behind it
  obtain ⟨k, m, hk, hm⟩ : ∃ k m, st.position + (k + 1) = 2000 ∧ k + 1 + (m + 1) = 4 :=
    ⟨1999 - st.position, st.position - 1997, by omega, by omega⟩
  have htab : displayWrite st 0x09 =
      tabulateLoop (m + 1) (cellAddr 2000) ((displayWrite · 0x20)^[k + 1] st) := by
    rw [displayWrite_tab, ← hm, tabulateLoop_add, hk, tabulateLoop_eq_spaces h hk.le]
  have hspaces : (displayWrite · 0x20)^[4] st =
      (displayWrite · 0x20)^[m + 1] ((displayWrite · 0x20)^[k + 1] st) := by
    rw [← Function.iterate_add_apply, Nat.add_comm, hm]
  obtain ⟨hrange, hpos, hcursor⟩ := spaces_to_last h hk
  rw [htab, hspaces] at hsame
  generalize (displayWrite · 0x20)^[k + 1] st = scrolled at hrange hpos hcursor hsame
  have hlt' : scrolled.position + 1 < 2000 := by omega
  have hnext := hrange.position_draw hlt' (cellAddr scrolled.position) scrolled.blankCell
  have hcell := hsame.cells 1920 (by decide)
  rw [cell_tabulateLoop hrange hpos.ge (by omega) (le_refl 2000), hcursor,
    Function.iterate_succ_apply, displayWrite_space,
    cell_spaces (hrange.storeAt _ _).incrementDrawLocation (by omega) (by omega),
    hrange.cell_draw hlt', if_neg (by omega), if_pos hpos.symm] at hcell
  exact blankCell_ne_cursorCell scrolled hcell.symm

/-- **A tab is four spaces** except in the last three cells of the screen.

In front of them neither scrolls before its last step, and each step of the tab is what a space
does, a blank drawn and the cursor moved on. In the last three a step before the last one scrolls:
the next one draws at the pointer from before, which is off the screen, and the cursor in the first
cell of the new row stays. -/
theorem tab_is_four_spaces_iff (h : st.InRange) :
    SameScreen (displayWrite st 0x09) ((displayWrite · 0x20)^[4] st) ↔
      ¬ (st.yLoc = 24 ∧ 77 ≤ st.xLoc) := by
  have hx := h.column
  have hy := h.row
  have hplace : (st.yLoc = 24 ∧ 77 ≤ st.xLoc) ↔ 1997 ≤ st.position := by
    rw [position]
    omega
  rw [hplace]
  constructor
  · exact fun hsame hge => tab_leaves_cursor h hge hsame
  · intro hbefore
    rw [displayWrite_tab, tabulateLoop_eq_spaces h (by omega)]
    exact ⟨fun i _ => rfl, rfl, rfl⟩

/-- Four cells in front of the end of the screen a tab still is. -/
theorem tab_is_four_spaces_near_end :
    SameScreen (displayWrite ⟨⟨fun _ => 0, []⟩, 76, 24, 0x07, []⟩ 0x09)
      ((displayWrite · 0x20)^[4] ⟨⟨fun _ => 0, []⟩, 76, 24, 0x07, []⟩) :=
  (tab_is_four_spaces_iff ⟨by decide, by decide⟩).mpr (by decide)

/-- In the last cell the cursor of the scrolled row stays, where a space wipes it out. -/
theorem tab_in_last_cell :
    ¬ SameScreen (displayWrite ⟨⟨fun _ => 0, []⟩, 79, 24, 0x07, []⟩ 0x09)
      ((displayWrite · 0x20)^[4] ⟨⟨fun _ => 0, []⟩, 79, 24, 0x07, []⟩) :=
  tab_leaves_cursor ⟨by decide, by decide⟩ (by decide)

/-! ## Backspaces -/

theorem AtEnd.draw (h : st.AtEnd) (hlt : st.position + 1 < 2000) (hc : Drawn c) :
    (displayWrite st c).AtEnd := by
  have hrange := (h.toInRange.storeAt (cellAddr st.position)
    (colorWord st.colorAttrib ||| (c.setWidth 8).setWidth 16)).incrementDrawLocation
  have hcolor := colorAttrib_incrementDrawLocation (st.storeAt (cellAddr st.position)
    (colorWord st.colorAttrib ||| (c.setWidth 8).setWidth 16))
  have hpos := h.position_draw hlt (cellAddr st.position)
    (colorWord st.colorAttrib ||| (c.setWidth 8).setWidth 16)
  rw [displayWrite_drawn hc]
  refine ⟨hrange, ?_, fun i hi hlt' => ?_⟩
  · exact cell_position_incrementDrawLocation _
  · rw [hpos] at hi
    rw [h.cell_draw hlt, if_neg (by omega), if_neg (by omega), blankCell, hcolor,
      h.blank i (by omega) hlt']
    rfl

theorem InRange.position_stepBack (h : st.InRange) (hpos : 0 < st.position) :
    st.stepBack.position = st.position - 1 := by
  have hx := h.column
  rw [position] at hpos
  rw [Display.stepBack]
  split_ifs with hfirst hrow
  · change 80 * (st.yLoc - 1) + 79 = 80 * st.yLoc + st.xLoc - 1
    omega
  · omega
  · change 80 * st.yLoc + (st.xLoc - 1) = 80 * st.yLoc + st.xLoc - 1
    omega

theorem displayWrite_backspace (st : Display) :
    displayWrite st 0x08 = st.backspace (cellAddr st.position) := by
  rw [← getWriteLocation_eq]
  rfl

theorem colorAttrib_stepBack (st : Display) : st.stepBack.colorAttrib = st.colorAttrib := by
  rw [Display.stepBack]
  split_ifs <;> rfl

theorem InRange.cell_backspace (h : st.InRange) (hpos : 0 < st.position) (j : ℕ) :
    (st.backspace (cellAddr st.position)).video.cell j =
      if j = st.position - 1 then st.cursorCell
      else if j = st.position then st.blankCell else st.video.cell j := by
  have hprev : cellAddr st.position - 2 = cellAddr (st.position - 1) := by
    rw [cellAddr, cellAddr]
    omega
  have hstored := (h.storeAt (cellAddr st.position) st.blankCell).storeAt
    (cellAddr (st.position - 1)) st.blankCell
  have hback := hstored.position_stepBack hpos
  have hblank : (st.storeAt (cellAddr st.position) st.blankCell).blankCell = st.blankCell := rfl
  rw [Display.backspace, hprev, hblank, cell_updateBlinkyCursor, cursorCell, colorAttrib_stepBack,
    video_stepBack]
  by_cases hj : j = st.position - 1
  · rw [if_pos (hj.trans hback.symm), if_pos hj]
    rfl
  · rw [if_neg (fun heq => hj (heq.trans hback)), if_neg hj]
    refine VideoMemory.cell_store.trans ?_
    rw [if_neg hj]
    exact VideoMemory.cell_store

theorem SameScreen.inRange (h : SameScreen st st') (h' : st'.InRange) : st.InRange :=
  ⟨h.column ▸ h'.column, h.row ▸ h'.row⟩

theorem SameScreen.position_eq (h : SameScreen st st') : st.position = st'.position := by
  rw [position, position, h.column, h.row]

theorem atEnd_home {video : VideoMemory} (h : ∀ i < 2000, video.cell i = st.blankCell) :
    ({ st with video := video, xLoc := 0, yLoc := 0 } : Display).updateBlinkyCursor.AtEnd := by
  refine ⟨⟨show 0 < 80 by decide, show 0 < 25 by decide⟩, ?_, fun i hi hlt => ?_⟩
  · exact (cell_updateBlinkyCursor _ _).trans (if_pos rfl)
  · exact (cell_updateBlinkyCursor _ _).trans ((if_neg (Nat.ne_of_gt hi)).trans (h i hlt))

/-- A cleared screen is blank behind its cursor. -/
theorem atEnd_displayClear (st : Display) :
    (displayClear st).AtEnd ∧ (displayClear st).position = 0 := by
  have hblank : ∀ i < 2000,
      (st.video.fillCells st.blankCell 2000 0).cell i = st.blankCell := fun i hi =>
    VideoMemory.cell_fillCells.trans (if_pos ⟨Nat.zero_le i, by omega⟩)
  rw [displayClear]
  generalize st.video.fillCells st.blankCell 2000 0 = video at hblank
  exact ⟨atEnd_home hblank, rfl⟩

/-- A backspace right behind a character takes it back, on any screen that shows the same. -/
theorem AtEnd.undo (h : st.AtEnd) (hlt : st.position + 1 < 2000) (hc : Drawn c)
    (hsame : SameScreen st' (displayWrite st c))
    (hcolor : st'.colorAttrib = (displayWrite st c).colorAttrib) :
    SameScreen (displayWrite st' 0x08) st ∧
      (displayWrite st' 0x08).colorAttrib = st.colorAttrib := by
  have hrange := hsame.inRange (h.draw hlt hc).toInRange
  have hpos := hsame.position_eq
  rw [displayWrite_drawn hc] at hsame hcolor hpos
  rw [h.position_draw hlt] at hpos
  rw [colorAttrib_incrementDrawLocation] at hcolor
  have hback : (displayWrite st' 0x08).InRange := hrange.step (.write 0x08)
  have hcells : ∀ i < 2000, (displayWrite st' 0x08).video.cell i = st.video.cell i := by
    intro i hi
    rw [displayWrite_backspace, hrange.cell_backspace (by omega), hpos, Nat.add_sub_cancel]
    by_cases hcursor : i = st.position
    · rw [if_pos hcursor, hcursor, h.cursor, cursorCell, hcolor]
      rfl
    rw [if_neg hcursor]
    by_cases hnext : i = st.position + 1
    · rw [if_pos hnext, h.blank i (by omega) hi, blankCell, hcolor]
      rfl
    rw [if_neg hnext, hsame.cells i hi, h.cell_draw hlt, if_neg hnext, if_neg hcursor]
  have hposition : (displayWrite st' 0x08).position = st.position := by
    have hstored := (hrange.storeAt (cellAddr st'.position) st'.blankCell).storeAt
      (cellAddr st'.position - 2) st'.blankCell
    rw [displayWrite_backspace]
    refine (hstored.position_stepBack ?_).trans ?_
    · change 0 < st'.position
      omega
    · change st'.position - 1 = st.position
      omega
  obtain ⟨hx, hy⟩ := hback.eq_of_position h.toInRange hposition
  refine ⟨⟨hcells, hx, hy⟩, ?_⟩
  rw [displayWrite_backspace]
  exact (colorAttrib_stepBack _).trans hcolor

/-- Typed characters and as many backspaces. -/
theorem AtEnd.undo_all (h : st.AtEnd) {s : List (BitVec 32)} (hs : ∀ c ∈ s, Drawn c)
    (hfit : st.position + s.length < 2000) :
    SameScreen ((s ++ List.replicate s.length 0x08).foldl displayWrite st) st ∧
      ((s ++ List.replicate s.length 0x08).foldl displayWrite st).colorAttrib =
        st.colorAttrib := by
  induction s generalizing st with
  | nil => exact ⟨⟨fun i _ => rfl, rfl, rfl⟩, rfl⟩
  | cons c s ih =>
    rw [List.length_cons] at hfit
    obtain ⟨hc, hs⟩ := List.forall_mem_cons.mp hs
    have hlt : st.position + 1 < 2000 := by omega
    have hnext : (displayWrite st c).position = st.position + 1 := by
      rw [displayWrite_drawn hc]
      exact h.position_draw hlt _ _
    obtain ⟨hsame, hcolor⟩ := ih (h.draw hlt hc) hs (by omega)
    -- the last backspace is the one for the first character
    rw [List.length_cons, List.replicate_succ', ← List.append_assoc, List.foldl_append,
      List.cons_append, List.foldl_cons]
    exact h.undo hlt hc hsame hcolor

/-- **Backspaces undo typing.** With blank cells behind the cursor, a string that does not scroll
and then as many backspaces leave every cell and the position as they were.

By induction on the string: its first character is drawn, the rest is typed and taken back behind
it, and the last backspace blanks it. The rows do not matter, a backspace in the first column goes
to the end of the row above. -/
theorem backspaces_undo_typing (h : st.InRange)
    (hcursor : st.video.cell st.position = st.cursorCell)
    (hblank : ∀ i, st.position < i → i < 2000 → st.video.cell i = st.blankCell)
    (s : List (BitVec 32)) (hs : ∀ c ∈ s, Drawn c) (hfit : st.position + s.length < 2000) :
    SameScreen ((s ++ List.replicate s.length 0x08).foldl displayWrite st) st :=
  (AtEnd.undo_all ⟨h, hcursor, hblank⟩ hs hfit).1

/-- A string of 81 characters on a cleared screen, which reaches the second row. -/
theorem backspaces_undo_two_rows :
    SameScreen ((List.replicate 81 (0x61 : BitVec 32) ++ List.replicate 81 0x08).foldl
      displayWrite (displayClear (.start fun _ => 0))) (displayClear (.start fun _ => 0)) := by
  obtain ⟨hclear, hpos⟩ := atEnd_displayClear (.start fun _ => 0)
  have hdrawn : ∀ c ∈ List.replicate 81 (0x61 : BitVec 32), Drawn c := fun c hc =>
    List.eq_of_mem_replicate hc ▸ drawn_of_printable (by decide)
  generalize displayClear (.start fun _ => 0) = st at hclear hpos
  have hfit : st.position + (List.replicate 81 (0x61 : BitVec 32)).length < 2000 := by
    rw [hpos, List.length_replicate]
    decide
  have hundone := backspaces_undo_typing hclear.toInRange hclear.cursor hclear.blank
    (List.replicate 81 0x61) hdrawn hfit
  rwa [List.length_replicate] at hundone

end Display

end MissyKernel
