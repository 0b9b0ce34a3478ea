import MissyKernel.VideoMemory
import MissyKernel.Runs

/-!
# The display driver (`display.c`)

The driver keeps a column, a row and a colour, and draws its cursor into the cell it
writes next. Most functions look the write location up when they need it; `backspace`
and `tabulate` get one and step along on their own. They leave the screen exactly where
that pointer runs over its edge: before the first cell (`backspace`) or behind the last
one (`tabulate`). The column and the row never leave it.

The functions of the driver are here with all they do: the position, the cells, the colour and
the two bytes for the cursor's ports. `InRange` is kept by every call (`InRange.step`), so the
position is never the trouble; `onScreen_step_iff` says for each call when its stores stay on the
screen, and the rule for exact conditions carries that over to runs.
-/

namespace MissyKernel

/-- The statics of `display.c`, over the video memory and the ports written to. -/
structure Display : Type where
  /-- the video memory -/
  video : VideoMemory
  /-- `x_loc` -/
  xLoc : ℕ
  /-- `y_loc` -/
  yLoc : ℕ
  /-- `color_attrib` -/
  colorAttrib : BitVec 8
  /-- what `outportb` was called with, newest first -/
  ports : List (ℕ × BitVec 8)

/-- The statics as the C initialisers leave them, over any video memory. -/
def Display.start (word : ℕ → BitVec 16) : Display where
  video := ⟨word, []⟩
  xLoc := 0
  yLoc := 0
  colorAttrib := 0x07
  ports := []

namespace Display

/-- `*a = w` -/
def storeAt (st : Display) (a : ℕ) (w : BitVec 16) : Display :=
  { st with video := st.video.store a w }

/-- `outportb` -/
def outportb (st : Display) (port : ℕ) (data : BitVec 8) : Display :=
  { st with ports := (port, data) :: st.ports }

/-- A blank cell: `CLEAR_SCREEN_CHAR` in the current colour. -/
def blankCell (st : Display) : BitVec 16 := colorWord st.colorAttrib ||| 0x20

/-- `get_write_location` -/
def getWriteLocation (st : Display) : ℕ := videoMemoryStart + st.yLoc * 80 * 2 + st.xLoc * 2

/-- `update_blinky_cursor` -/
def updateBlinkyCursor (st : Display) : Display :=
  st.storeAt st.getWriteLocation (colorWord (st.colorAttrib ||| 0x80) ||| 0x5f)

/-- `scroll_display` -/
def scrollDisplay (st : Display) : Display :=
  { st with
    video := (st.video.copyCells 80 1920 0).fillCells st.blankCell 80 1920
    xLoc := 0
    yLoc := 24 }

/-- The row is past the last one. -/
def scrollIfNeeded (st : Display) : Display := if 25 ≤ st.yLoc then st.scrollDisplay else st

/-- The next column, or the next row. -/
def advance (st : Display) : Display :=
  let st := { st with xLoc := (st.xLoc + 1) % 2 ^ 16 }
  if 80 ≤ st.xLoc then { st with xLoc := 0, yLoc := (st.yLoc + 1) % 2 ^ 16 } else st

/-- `increment_draw_location` -/
def incrementDrawLocation (st : Display) : Display := st.advance.scrollIfNeeded.updateBlinkyCursor

/-- The column before, or the end of the row before. -/
def stepBack (st : Display) : Display :=
  if st.xLoc = 0 then
    if 0 < st.yLoc then { st with yLoc := st.yLoc - 1, xLoc := 79 } else st
  else { st with xLoc := st.xLoc - 1 }

/-- `backspace` -/
def backspace (st : Display) (writeLoc : ℕ) : Display :=
  let st := st.storeAt writeLoc st.blankCell
  let st := st.storeAt (writeLoc - 2) st.blankCell
  st.stepBack.updateBlinkyCursor

/-- The loop of `tabulate`. -/
def tabulateLoop : ℕ → ℕ → Display → Display
  | 0, _, st => st
  | n + 1, writeLoc, st =>
    tabulateLoop n (writeLoc + 2) (st.storeAt writeLoc st.blankCell).incrementDrawLocation

/-- `tabulate` -/
def tabulate (st : Display) (writeLoc : ℕ) : Display := tabulateLoop 4 writeLoc st

/-- `disable_hardware_cursor` -/
def disableHardwareCursor (st : Display) : Display := (st.outportb 0x3d4 0x0a).outportb 0x3d5 0x20

/-- `enable_blinking_text`, with what the two reads answer. -/
def enableBlinkingText (st : Display) (preserve attributes : BitVec 8) : Display :=
  ((st.outportb 0x3c0 0x10).outportb 0x3c0 (attributes ||| 0x08)).outportb 0x3c0 preserve

end Display

/-- `display_clear` -/
def displayClear (st : Display) : Display :=
  { st with
    video := st.video.fillCells st.blankCell 2000 0
    xLoc := 0
    yLoc := 0 }.updateBlinkyCursor

/-- `display_init` -/
def displayInit (st : Display) (preserve attributes : BitVec 8) : Display :=
  (displayClear st.disableHardwareCursor).enableBlinkingText preserve attributes

/-- `display_change_color` -/
def displayChangeColor (st : Display) (newColor : BitVec 8) : BitVec 8 × Display :=
  (st.colorAttrib, { st with colorAttrib := newColor })

/-- `display_write` -/
def displayWrite (st : Display) (c : BitVec 32) : Display :=
  let writeLoc := st.getWriteLocation
  if c = 0x08 then st.backspace writeLoc
  else if c = 0x09 then st.tabulate writeLoc
  else if c = 0x0a ∨ c = 0x0d then
    let st := st.storeAt writeLoc st.blankCell
    let st := { st with xLoc := 0, yLoc := (st.yLoc + 1) % 2 ^ 16 }
    st.scrollIfNeeded.updateBlinkyCursor
  else
    let st := st.storeAt writeLoc (colorWord st.colorAttrib ||| (c.setWidth 8).setWidth 16)
    st.incrementDrawLocation

/-- A call of the driver. -/
inductive DisplayOp : Type where
  /-- `display_write(c)` -/
  | write (c : BitVec 32)
  /-- `display_change_color(color)` -/
  | changeColor (color : BitVec 8)
  /-- `display_clear()` -/
  | clear

/-- The effect of a call. -/
def DisplayOp.step (st : Display) : DisplayOp → Display
  | .write c => displayWrite st c
  | .changeColor color => (displayChangeColor st color).2
  | .clear => displayClear st

namespace Display

/-- The position is on the screen. -/
structure InRange (st : Display) : Prop where
  /-- the column -/
  column : st.xLoc < 80
  /-- the row -/
  row : st.yLoc < 25

/-- The position is on the screen, and every store so far went to a cell of it. -/
structure OnScreen (st : Display) : Prop extends InRange st where
  /-- the stores -/
  stores : st.video.InScreen

/-- The position as a cell number. -/
def position (st : Display) : ℕ := 80 * st.yLoc + st.xLoc

/-- The calls whose pointer stays on the screen: no backspace in the first cell, no tab in
the last three. -/
def Inside (st : Display) : DisplayOp → Prop
  | .write c => ¬ (c = 0x08 ∧ st.position = 0) ∧ ¬ (c = 0x09 ∧ 1997 ≤ st.position)
  | .changeColor _ => True
  | .clear => True

variable {st : Display} {i n : ℕ}

/-! ## Positions -/

theorem getWriteLocation_eq (st : Display) : st.getWriteLocation = cellAddr st.position := by
  rw [getWriteLocation, cellAddr, position]
  omega

theorem InRange.position_lt (h : st.InRange) : st.position < 2000 := by
  have hx := h.column
  have hy := h.row
  rw [position]
  omega

theorem InRange.updateBlinkyCursor (h : st.InRange) : st.updateBlinkyCursor.InRange :=
  ⟨h.column, h.row⟩

theorem InRange.storeAt (h : st.InRange) (a : ℕ) (w : BitVec 16) : (st.storeAt a w).InRange :=
  ⟨h.column, h.row⟩

theorem inRange_scrollIfNeeded (hx : st.xLoc < 80) (hy : st.yLoc ≤ 25) :
    st.scrollIfNeeded.InRange := by
  rw [scrollIfNeeded]
  by_cases hlast : 25 ≤ st.yLoc
  · rw [if_pos hlast]
    exact ⟨show 0 < 80 by decide, show 24 < 25 by decide⟩
  · rw [if_neg hlast]
    exact ⟨hx, by omega⟩

/-- Where the position goes before the screen is scrolled. -/
theorem InRange.advance (h : st.InRange) :
    st.advance = { st with
      xLoc := if st.xLoc = 79 then 0 else st.xLoc + 1
      yLoc := if st.xLoc = 79 then st.yLoc + 1 else st.yLoc } := by
  have hx := h.column
  have hy := h.row
  have hx' : (st.xLoc + 1) % 2 ^ 16 = st.xLoc + 1 := Nat.mod_eq_of_lt (by omega)
  have hy' : (st.yLoc + 1) % 2 ^ 16 = st.yLoc + 1 := Nat.mod_eq_of_lt (by omega)
  simp only [Display.advance, hx', hy']
  by_cases hwrap : st.xLoc = 79
  · rw [if_pos (by omega), if_pos hwrap, if_pos hwrap]
  · rw [if_neg (by omega), if_neg hwrap, if_neg hwrap]

theorem InRange.incrementDrawLocation (h : st.InRange) : st.incrementDrawLocation.InRange := by
  have hx := h.column
  have hy := h.row
  rw [Display.incrementDrawLocation, h.advance]
  refine (inRange_scrollIfNeeded ?_ ?_).updateBlinkyCursor
  · change (if st.xLoc = 79 then 0 else st.xLoc + 1) < 80
    split <;> omega
  · change (if st.xLoc = 79 then st.yLoc + 1 else st.yLoc) ≤ 25
    split <;> omega

theorem InRange.stepBack (h : st.InRange) : st.stepBack.InRange := by
  have hx := h.column
  have hy := h.row
  rw [Display.stepBack]
  split_ifs with h0 hfirst
  · refine ⟨show 79 < 80 by decide, ?_⟩
    change st.yLoc - 1 < 25
    omega
  · exact h
  · refine ⟨?_, hy⟩
    change st.xLoc - 1 < 80
    omega

theorem InRange.tabulateLoop (h : st.InRange) (a : ℕ) : (tabulateLoop n a st).InRange := by
  induction n generalizing st a with
  | zero => exact h
  | succ n ih => exact ih (h.storeAt a st.blankCell).incrementDrawLocation (a + 2)

/-- The position stays on the screen, whatever is called. -/
theorem InRange.step (h : st.InRange) (op : DisplayOp) : (op.step st).InRange := by
  cases op with
  | write c =>
    change (displayWrite st c).InRange
    rw [displayWrite]
    split_ifs
    · exact ((h.storeAt _ _).storeAt _ _).stepBack.updateBlinkyCursor
    · exact h.tabulateLoop _
    · have hy := h.row
      refine (inRange_scrollIfNeeded (show 0 < 80 by decide) ?_).updateBlinkyCursor
      change (st.yLoc + 1) % 2 ^ 16 ≤ 25
      omega
    · exact (h.storeAt _ _).incrementDrawLocation
  | changeColor color => exact ⟨h.column, h.row⟩
  | clear => exact InRange.updateBlinkyCursor ⟨show 0 < 80 by decide, show 0 < 25 by decide⟩

/-! ## Stores -/

/-- The stores of a call stay in the log. -/
theorem stores_scrollIfNeeded_subset : st.video.stores ⊆ st.scrollIfNeeded.video.stores := by
  rw [scrollIfNeeded]
  split
  · exact List.Subset.trans VideoMemory.stores_copyCells_subset VideoMemory.stores_fillCells_subset
  · exact List.Subset.refl _

theorem video_advance (st : Display) : st.advance.video = st.video := by
  simp only [Display.advance]
  split <;> rfl

theorem video_stepBack (st : Display) : st.stepBack.video = st.video := by
  rw [Display.stepBack]
  split_ifs <;> rfl

theorem stores_incrementDrawLocation_subset :
    st.video.stores ⊆ st.incrementDrawLocation.video.stores := by
  have hscroll : st.advance.video.stores ⊆ st.advance.scrollIfNeeded.video.stores :=
    stores_scrollIfNeeded_subset
  rw [video_advance] at hscroll
  exact List.Subset.trans hscroll (List.subset_cons_self _ _)

theorem stores_tabulateLoop_subset (a : ℕ) :
    st.video.stores ⊆ (tabulateLoop n a st).video.stores := by
  induction n generalizing st a with
  | zero => exact List.Subset.refl _
  | succ n ih =>
    have hstored : st.video.stores ⊆ (st.storeAt a st.blankCell).video.stores :=
      List.subset_cons_self _ _
    exact List.Subset.trans hstored (List.Subset.trans stores_incrementDrawLocation_subset (ih _))

/-- The loop of `tabulate` stores to `n` cells in a row. -/
theorem cellAddr_mem_stores_tabulateLoop {k : ℕ} (hk : k < n) :
    cellAddr (i + k) ∈ (tabulateLoop n (cellAddr i) st).video.stores := by
  induction n generalizing st i k with
  | zero => exact absurd hk (Nat.not_lt_zero k)
  | succ n ih =>
    have hnext : cellAddr i + 2 = cellAddr (i + 1) := by
      rw [cellAddr, cellAddr]
      omega
    rw [tabulateLoop, hnext]
    cases k with
    | zero =>
      apply stores_tabulateLoop_subset
      exact stores_incrementDrawLocation_subset List.mem_cons_self
    | succ k =>
      rw [Nat.add_comm k 1, ← Nat.add_assoc]
      exact ih (Nat.lt_of_succ_lt_succ hk)

theorem OnScreen.updateBlinkyCursor (h : st.OnScreen) : st.updateBlinkyCursor.OnScreen := by
  refine ⟨h.toInRange.updateBlinkyCursor, ?_⟩
  rw [Display.updateBlinkyCursor, getWriteLocation_eq]
  exact h.stores.store h.position_lt

theorem inScreen_scrollIfNeeded (h : st.video.InScreen) : st.scrollIfNeeded.video.InScreen := by
  rw [scrollIfNeeded]
  split
  · exact (h.copyCells (by decide)).fillCells (by decide)
  · exact h

/-- Storing to a cell of the screen. -/
theorem OnScreen.storeAt (h : st.OnScreen) (hi : i < 2000) (w : BitVec 16) :
    (st.storeAt (cellAddr i) w).OnScreen :=
  ⟨h.toInRange.storeAt _ _, h.stores.store hi⟩

theorem OnScreen.incrementDrawLocation (h : st.OnScreen) : st.incrementDrawLocation.OnScreen := by
  have hrange := h.toInRange.incrementDrawLocation
  have hstores : st.advance.scrollIfNeeded.video.InScreen := by
    apply inScreen_scrollIfNeeded
    rw [video_advance]
    exact h.stores
  exact OnScreen.updateBlinkyCursor ⟨⟨hrange.column, hrange.row⟩, hstores⟩

theorem OnScreen.tabulateLoop (h : st.OnScreen) (hi : i + n ≤ 2000) :
    (tabulateLoop n (cellAddr i) st).OnScreen := by
  induction n generalizing st i with
  | zero => exact h
  | succ n ih =>
    have hnext : cellAddr i + 2 = cellAddr (i + 1) := by
      rw [cellAddr, cellAddr]
      omega
    rw [Display.tabulateLoop, hnext]
    exact ih (h.storeAt (by omega) _).incrementDrawLocation (by omega)

/-! ## One call -/

theorem onScreen_backspace_iff (h : st.OnScreen) :
    (st.backspace st.getWriteLocation).OnScreen ↔ st.position ≠ 0 := by
  have hlt := h.position_lt
  rw [Display.backspace, getWriteLocation_eq]
  constructor
  · -- the second store is part of the log
    intro hafter hzero
    have hmem : cellAddr st.position - 2 ∈ ((((st.storeAt (cellAddr st.position)
        st.blankCell).storeAt (cellAddr st.position - 2)
          st.blankCell).stepBack).updateBlinkyCursor).video.stores := by
      refine List.mem_cons_of_mem _ ?_
      rw [video_stepBack]
      exact List.mem_cons_self
    obtain ⟨i, -, hi⟩ := hafter.stores _ hmem
    rw [hzero, cellAddr, cellAddr, videoMemoryStart] at hi
    omega
  · intro hpos
    have hprev : cellAddr st.position - 2 = cellAddr (st.position - 1) := by
      rw [cellAddr, cellAddr]
      omega
    have hstored := (h.storeAt hlt st.blankCell).storeAt (show st.position - 1 < 2000 by omega)
      st.blankCell
    rw [hprev]
    refine OnScreen.updateBlinkyCursor ⟨hstored.toInRange.stepBack, ?_⟩
    rw [video_stepBack]
    exact hstored.stores

theorem onScreen_tabulate_iff (h : st.OnScreen) :
    (st.tabulate st.getWriteLocation).OnScreen ↔ st.position < 1997 := by
  rw [tabulate, getWriteLocation_eq]
  constructor
  · -- the last of the four stores is part of the log
    intro hafter
    obtain ⟨i, hi, haddr⟩ :=
      hafter.stores _ (cellAddr_mem_stores_tabulateLoop (k := 3) (by decide))
    rw [cellAddr, cellAddr] at haddr
    omega
  · intro hlt
    exact h.tabulateLoop (by omega)

theorem OnScreen.newLine (h : st.OnScreen) :
    ({ st with xLoc := 0, yLoc := (st.yLoc + 1) % 2 ^ 16 } :
      Display).scrollIfNeeded.updateBlinkyCursor.OnScreen := by
  have hy := h.row
  refine OnScreen.updateBlinkyCursor ⟨inRange_scrollIfNeeded (show 0 < 80 by decide) ?_,
    inScreen_scrollIfNeeded h.stores⟩
  change (st.yLoc + 1) % 2 ^ 16 ≤ 25
  omega

/-- The first cell of another screen. -/
theorem onScreen_home {video : VideoMemory} (h : video.InScreen) :
    ({ st with video := video, xLoc := 0, yLoc := 0 } : Display).updateBlinkyCursor.OnScreen :=
  OnScreen.updateBlinkyCursor ⟨⟨show 0 < 80 by decide, show 0 < 25 by decide⟩, h⟩

theorem onScreen_displayClear (h : st.video.InScreen) : (displayClear st).OnScreen := by
  have hfilled : (st.video.fillCells st.blankCell 2000 0).InScreen := h.fillCells (by omega)
  exact onScreen_home hfilled

/-- A call keeps the driver on the screen exactly when its pointer stays there. -/
theorem onScreen_step_iff (h : st.OnScreen) (op : DisplayOp) :
    (op.step st).OnScreen ↔ st.Inside op := by
  have hlt := h.position_lt
  cases op with
  | write c =>
    change (displayWrite st c).OnScreen ↔ _
    rw [displayWrite, Inside]
    by_cases hback : c = 0x08
    · rw [if_pos hback, onScreen_backspace_iff h]
      subst hback
      simp
    rw [if_neg hback]
    by_cases htab : c = 0x09
    · rw [if_pos htab, onScreen_tabulate_iff h]
      subst htab
      simp
    rw [if_neg htab]
    refine iff_of_true ?_ ⟨fun hc => hback hc.1, fun hc => htab hc.1⟩
    have hstored := fun w => h.storeAt hlt w
    rw [getWriteLocation_eq]
    by_cases hline : c = 0x0a ∨ c = 0x0d
    · rw [if_pos hline]
      exact (hstored _).newLine
    · rw [if_neg hline]
      exact (hstored _).incrementDrawLocation
  | changeColor color => exact iff_of_true ⟨⟨h.column, h.row⟩, h.stores⟩ trivial
  | clear => exact iff_of_true (onScreen_displayClear h.stores) trivial

/-- The initialisation leaves the driver on the screen. -/
theorem onScreen_displayInit (word : ℕ → BitVec 16) (preserve attributes : BitVec 8) :
    (displayInit (.start word) preserve attributes).OnScreen := by
  have hempty : (Display.start word).disableHardwareCursor.video.InScreen :=
    fun a ha => absurd ha List.not_mem_nil
  have hclear := onScreen_displayClear hempty
  exact ⟨⟨hclear.column, hclear.row⟩, hclear.stores⟩

end Display

/-- **When the driver stays on the screen.** In every run from the initialisation on, the position
and the stores stay on the screen exactly as long as no backspace comes in the first cell and no
tab in the last three.

The position is kept on the screen by every call. What leaves it are the pointers that two
functions step along on their own, and whether they do can be told from the position before the
call. -/
theorem display_stays_on_screen_iff (word : ℕ → BitVec 16) (preserve attributes : BitVec 8)
    (ops : List DisplayOp) :
    (∀ pre, pre <+: ops →
        (pre.foldl DisplayOp.step (displayInit (.start word) preserve attributes)).OnScreen) ↔
      ∀ pre op, pre ++ [op] <+: ops →
        (pre.foldl DisplayOp.step (displayInit (.start word) preserve attributes)).Inside op := by
  have hinit := Display.onScreen_displayInit word preserve attributes
  have hrun := @forall_states_iff _ _ DisplayOp.step (fun _ => True) Display.OnScreen
    Display.Inside (fun _ _ _ => trivial) (fun _ op _ h => Display.onScreen_step_iff h op) ops
    (displayInit (.start word) preserve attributes) trivial
  exact hrun.trans (and_iff_right hinit)

/-- A backspace right after the initialisation stores before the first cell. -/
theorem backspace_leaves_screen :
    ¬ ∀ pre, pre <+: [DisplayOp.write 0x08] →
      (pre.foldl DisplayOp.step (displayInit (.start fun _ => 0) 0 0)).OnScreen := by
  intro h
  have hinit := Display.onScreen_displayInit (fun _ => 0) 0 0
  have hafter :=
    (Display.onScreen_step_iff hinit (.write 0x08)).mp (h [.write 0x08] (List.prefix_refl _))
  exact hafter.1 ⟨rfl, rfl⟩

end MissyKernel
