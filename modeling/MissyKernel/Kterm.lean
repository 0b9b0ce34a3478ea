import MissyKernel.VideoMemory
import MissyKernel.Runs

/-!
# The early terminal (`kterm.c`)

`ki_putc` keeps a signed column and row, and calls itself with a blank for a tab (four
times) and for a backspace (once, between two steps to the left). From column 0 a
backspace writes into the cell before and ends in column -1; every other call stays on
the screen.

The function calls itself, so what it does with a control character is read off what it does with
a blank. The condition of the result is exact at every state on the screen
(`onScreen_kiPutc_iff`), and covers the cursor as well, which is programmed from the position.
-/

namespace MissyKernel

/-- The statics of `kterm.c`, over the video memory and the ports written to. -/
structure Kterm : Type where
  /-- the video memory -/
  video : VideoMemory
  /-- `_cur_x` -/
  curX : ℤ
  /-- `_cur_y` -/
  curY : ℤ
  /-- `color_attribute` -/
  colorAttribute : BitVec 8
  /-- what `outportb_low` was called with, newest first -/
  ports : List (ℕ × BitVec 8)

/-- The statics as the C initialisers leave them, over any video memory. -/
def Kterm.start (word : ℕ → BitVec 16) (color : BitVec 8) : Kterm where
  video := ⟨word, []⟩
  curX := 0
  curY := 0
  colorAttribute := color
  ports := []

namespace Kterm

/-- `outportb_low` -/
def outportbLow (st : Kterm) (port : ℕ) (data : BitVec 8) : Kterm :=
  { st with ports := (port, data) :: st.ports }

/-- The address `video_ptr` gets. -/
def videoPtr (st : Kterm) : ℕ :=
  ((videoMemoryStart + st.curY * 80 * 2 + st.curX * 2) % 2 ^ 32).toNat

/-- The branch of `ki_putc` that draws a character. -/
def draw (st : Kterm) (c : BitVec 32) : Kterm :=
  let st := { st with
    video := st.video.store st.videoPtr (colorWord st.colorAttribute ||| c.setWidth 16)
    curX := st.curX + 1 }
  if 80 ≤ st.curX then { st with curX := 0, curY := st.curY + 1 } else st

end Kterm

/-- `kernel_early_scroll_display` -/
def kernelEarlyScrollDisplay (st : Kterm) : Kterm :=
  { st with
    video := (st.video.copyCells 80 1920 0).fillCells (colorWord 0x0f ||| 0x20) 80 1920
    curY := 24 }

/-- `ki_putc`, which returns its argument: only the state is kept. -/
def kiPutc (st : Kterm) (c : BitVec 32) : Kterm :=
  let st :=
    if c = 0x0a then { st with curX := 0, curY := st.curY + 1 }
    else if _h : c = 0x09 then
      kiPutc (kiPutc (kiPutc (kiPutc st 0x20) 0x20) 0x20) 0x20
    else if _h : c = 0x08 then
      let st := kiPutc { st with curX := st.curX - 1 } 0x20
      { st with curX := st.curX - 1 }
    else st.draw c
  if 24 < st.curY then kernelEarlyScrollDisplay st else st
termination_by if c = 0x09 ∨ c = 0x08 then 1 else 0
decreasing_by all_goals simp_all

/-- `ki_update_cursor` -/
def kiUpdateCursor (st : Kterm) : Kterm :=
  let pos : BitVec 16 := BitVec.ofInt 16 (st.curY * 80 + st.curX)
  let st := st.outportbLow 0x3d4 0x0f
  let st := st.outportbLow 0x3d5 ((pos &&& 0xff).setWidth 8)
  let st := st.outportbLow 0x3d4 0x0e
  st.outportbLow 0x3d5 (((pos >>> 8) &&& 0xff).setWidth 8)

namespace Kterm

/-- The position as a cell number. -/
def position (st : Kterm) : ℤ := 80 * st.curY + st.curX

/-- The column and the row are on the screen. -/
structure InRange (st : Kterm) : Prop where
  /-- no column before the first -/
  columnNonneg : 0 ≤ st.curX
  /-- none behind the last -/
  column : st.curX < 80
  /-- no row above the first -/
  rowNonneg : 0 ≤ st.curY
  /-- none below the last -/
  row : st.curY < 25

/-- What `ki_update_cursor` sends to the controller says where the position is: the low
byte goes to register 15, the high byte to register 14. -/
def ProgramsCursor (st : Kterm) (pos : ℕ) : Prop :=
  (kiUpdateCursor st).ports = (0x3d5, BitVec.ofNat 8 (pos / 256)) :: (0x3d4, 0x0e) ::
    (0x3d5, BitVec.ofNat 8 pos) :: (0x3d4, 0x0f) :: st.ports

/-- The terminal is on the screen: the position, every store so far, and the cursor that
`ki_update_cursor` would program now. -/
structure OnScreen (st : Kterm) : Prop extends InRange st where
  /-- the stores -/
  stores : st.video.InScreen
  /-- the cursor -/
  cursor : ∃ pos < 2000, st.ProgramsCursor pos

/-- The calls that stay on the screen: all but a backspace in the first column. -/
def Inside (st : Kterm) (c : BitVec 32) : Prop := ¬ (c = 0x08 ∧ st.curX = 0)

variable {st : Kterm} {c : BitVec 32}

/-! ## The branches of `ki_putc` -/

/-- The end of `ki_putc`. -/
def scrollIfNeeded (st : Kterm) : Kterm :=
  if 24 < st.curY then kernelEarlyScrollDisplay st else st

theorem kiPutc_newline (st : Kterm) :
    kiPutc st 0x0a = ({ st with curX := 0, curY := st.curY + 1 } : Kterm).scrollIfNeeded := by
  rw [kiPutc]
  rfl

theorem kiPutc_tab (st : Kterm) :
    kiPutc st 0x09 =
      (kiPutc (kiPutc (kiPutc (kiPutc st 0x20) 0x20) 0x20) 0x20).scrollIfNeeded := by
  rw [kiPutc]
  rfl

theorem kiPutc_backspace (st : Kterm) :
    kiPutc st 0x08 =
      ({ kiPutc { st with curX := st.curX - 1 } 0x20 with
        curX := (kiPutc { st with curX := st.curX - 1 } 0x20).curX - 1 }
          : Kterm).scrollIfNeeded := by
  rw [kiPutc]
  rfl

theorem kiPutc_draw (st : Kterm) (hline : c ≠ 0x0a) (htab : c ≠ 0x09) (hback : c ≠ 0x08) :
    kiPutc st c = (st.draw c).scrollIfNeeded := by
  rw [kiPutc, if_neg hline, dif_neg htab, dif_neg hback]
  rfl

/-! ## What the branches leave -/

theorem InRange.videoPtr (h : st.InRange) :
    st.videoPtr = cellAddr st.position.toNat ∧ st.position.toNat < 2000 := by
  have hx := h.columnNonneg
  have hx' := h.column
  have hy := h.rowNonneg
  have hy' := h.row
  rw [Kterm.videoPtr, cellAddr, position, videoMemoryStart]
  omega

theorem lowByte (p : ℕ) :
    ((BitVec.ofNat 16 p &&& 0xff).setWidth 8 : BitVec 8) = BitVec.ofNat 8 p := by
  have hmask : p % 256 &&& 255 = p % 256 % 2 ^ 8 := Nat.and_two_pow_sub_one_eq_mod _ 8
  apply BitVec.eq_of_toNat_eq
  simp [hmask]

theorem highByte {p : ℕ} (hp : p < 65536) :
    (((BitVec.ofNat 16 p >>> 8) &&& 0xff).setWidth 8 : BitVec 8) = BitVec.ofNat 8 (p / 256) := by
  have hmask : p / 256 % 256 &&& 255 = p / 256 % 256 % 2 ^ 8 := Nat.and_two_pow_sub_one_eq_mod _ 8
  apply BitVec.eq_of_toNat_eq
  simp [Nat.shiftRight_eq_div_pow, Nat.mod_eq_of_lt hp, hmask]

/-- The cursor of a position on the screen. -/
theorem InRange.programsCursor (h : st.InRange) : ∃ pos < 2000, st.ProgramsCursor pos := by
  obtain ⟨-, hlt⟩ := h.videoPtr
  have hx := h.columnNonneg
  have hy := h.rowNonneg
  refine ⟨st.position.toNat, hlt, ?_⟩
  have hpos : BitVec.ofInt 16 (st.curY * 80 + st.curX) = BitVec.ofNat 16 st.position.toNat := by
    rw [← BitVec.ofInt_natCast]
    congr 1
    rw [position]
    omega
  have hlow := lowByte st.position.toNat
  have hhigh := highByte (show st.position.toNat < 65536 by omega)
  simp only [ProgramsCursor, kiUpdateCursor, outportbLow, hpos, hlow, hhigh]

theorem onScreen_iff : st.OnScreen ↔ st.InRange ∧ st.video.InScreen :=
  ⟨fun h => ⟨h.toInRange, h.stores⟩, fun h => ⟨h.1, h.2, h.1.programsCursor⟩⟩

/-- Scrolling brings the row back. -/
theorem onScreen_scrollIfNeeded (hx : 0 ≤ st.curX ∧ st.curX < 80) (hy : 0 ≤ st.curY)
    (hs : st.video.InScreen) : st.scrollIfNeeded.OnScreen := by
  rw [scrollIfNeeded, onScreen_iff]
  by_cases hlast : 24 < st.curY
  · rw [if_pos hlast]
    refine ⟨⟨hx.1, hx.2, show (0 : ℤ) ≤ 24 by decide, show (24 : ℤ) < 25 by decide⟩, ?_⟩
    exact (hs.copyCells (by decide)).fillCells (by decide)
  · rw [if_neg hlast]
    exact ⟨⟨hx.1, hx.2, hy, by omega⟩, hs⟩

/-- Drawing in a row that is not full. -/
theorem kiPutc_draw_of_lt (hline : c ≠ 0x0a) (htab : c ≠ 0x09) (hback : c ≠ 0x08)
    (hx : st.curX < 79) (hy : st.curY < 25) :
    kiPutc st c = { st with
      video := st.video.store st.videoPtr (colorWord st.colorAttribute ||| c.setWidth 16)
      curX := st.curX + 1 } := by
  rw [kiPutc_draw st hline htab hback, draw, if_neg (show ¬ 80 ≤ st.curX + 1 by omega),
    scrollIfNeeded, if_neg (show ¬ 24 < st.curY by omega)]

/-- Drawing stays on the screen. -/
theorem OnScreen.draw (h : st.OnScreen) (hline : c ≠ 0x0a) (htab : c ≠ 0x09) (hback : c ≠ 0x08) :
    (kiPutc st c).OnScreen := by
  obtain ⟨haddr, hlt⟩ := h.toInRange.videoPtr
  have hx := h.columnNonneg
  have hx' := h.column
  have hy := h.rowNonneg
  have hstored : (st.video.store st.videoPtr
      (colorWord st.colorAttribute ||| c.setWidth 16)).InScreen := by
    rw [haddr]
    exact h.stores.store hlt
  rw [kiPutc_draw st hline htab hback, Kterm.draw]
  by_cases hwrap : 80 ≤ st.curX + 1
  · rw [if_pos hwrap]
    refine onScreen_scrollIfNeeded ⟨show (0 : ℤ) ≤ 0 by decide, show (0 : ℤ) < 80 by decide⟩ ?_
      hstored
    change 0 ≤ st.curY + 1
    omega
  · rw [if_neg hwrap]
    refine onScreen_scrollIfNeeded ⟨?_, ?_⟩ hy hstored
    · change 0 ≤ st.curX + 1
      omega
    · change st.curX + 1 < 80
      omega

theorem OnScreen.scrollIfNeeded (h : st.OnScreen) : st.scrollIfNeeded.OnScreen :=
  onScreen_scrollIfNeeded ⟨h.columnNonneg, h.column⟩ h.rowNonneg h.stores

/-- A backspace goes one column to the left, which must not be the one before the first. -/
theorem onScreen_backspace_iff (h : st.OnScreen) : (kiPutc st 0x08).OnScreen ↔ st.curX ≠ 0 := by
  have hx := h.columnNonneg
  have hx' := h.column
  have hy' := h.row
  have hinner := @kiPutc_draw_of_lt { st with curX := st.curX - 1 } 0x20
    (by decide) (by decide) (by decide) (show st.curX - 1 < 79 by omega) hy'
  rw [kiPutc_backspace, hinner]
  simp only [Kterm.scrollIfNeeded]
  rw [if_neg (by omega)]
  constructor
  · intro hafter hzero
    have hcolumn : 0 ≤ st.curX - 1 + 1 - 1 := hafter.columnNonneg
    omega
  · intro hne
    have hleft : Kterm.InRange { st with curX := st.curX - 1 } :=
      ⟨show 0 ≤ st.curX - 1 by omega, show st.curX - 1 < 80 by omega, h.rowNonneg, hy'⟩
    obtain ⟨haddr, hlt⟩ := hleft.videoPtr
    refine onScreen_iff.mpr ⟨⟨?_, ?_, h.rowNonneg, hy'⟩, ?_⟩
    · change 0 ≤ st.curX - 1 + 1 - 1
      omega
    · change st.curX - 1 + 1 - 1 < 80
      omega
    · rw [haddr]
      exact VideoMemory.InScreen.store h.stores hlt

/-- A call keeps the terminal on the screen exactly when it is none of the exceptions. -/
theorem onScreen_kiPutc_iff (h : st.OnScreen) (c : BitVec 32) :
    (kiPutc st c).OnScreen ↔ st.Inside c := by
  rw [Inside]
  by_cases hback : c = 0x08
  · subst hback
    rw [onScreen_backspace_iff h]
    simp
  refine iff_of_true ?_ fun hc => hback hc.1
  by_cases hline : c = 0x0a
  · subst hline
    have hy := h.rowNonneg
    rw [kiPutc_newline]
    refine onScreen_scrollIfNeeded ⟨show (0 : ℤ) ≤ 0 by decide, show (0 : ℤ) < 80 by decide⟩ ?_
      h.stores
    change 0 ≤ st.curY + 1
    omega
  by_cases htab : c = 0x09
  · subst htab
    have hblank : ∀ st : Kterm, st.OnScreen → (kiPutc st 0x20).OnScreen :=
      fun st h => h.draw (by decide) (by decide) (by decide)
    rw [kiPutc_tab]
    exact (hblank _ (hblank _ (hblank _ (hblank _ h)))).scrollIfNeeded
  exact h.draw hline htab hback

/-- The first cell of an untouched screen. -/
theorem onScreen_start (word : ℕ → BitVec 16) (color : BitVec 8) :
    (Kterm.start word color).OnScreen := by
  refine onScreen_iff.mpr ⟨⟨?_, ?_, ?_, ?_⟩, fun a ha => absurd ha List.not_mem_nil⟩
  · exact show (0 : ℤ) ≤ 0 by decide
  · exact show (0 : ℤ) < 80 by decide
  · exact show (0 : ℤ) ≤ 0 by decide
  · exact show (0 : ℤ) < 25 by decide

end Kterm

/-- **When the early terminal stays on the screen.** In every run from the first cell on, the
position, the stores and the cursor stay on the screen exactly as long as no backspace comes in the
first column.

A tab draws four blanks from where it is, each of which stays on the screen; a backspace goes one
to the left before it draws one, with no look at the column. -/
theorem kterm_stays_on_screen_iff (word : ℕ → BitVec 16) (color : BitVec 8)
    (text : List (BitVec 32)) :
    (∀ pre, pre <+: text → (pre.foldl kiPutc (.start word color)).OnScreen) ↔
      ∀ pre c, pre ++ [c] <+: text → (pre.foldl kiPutc (.start word color)).Inside c := by
  have hstart := Kterm.onScreen_start word color
  have hrun := @forall_states_iff _ _ kiPutc (fun _ => True) Kterm.OnScreen Kterm.Inside
    (fun _ _ _ => trivial) (fun _ c _ h => Kterm.onScreen_kiPutc_iff h c) text
    (.start word color) trivial
  exact hrun.trans (and_iff_right hstart)

/-- A backspace in the first cell leaves it. -/
theorem backspace_leaves_column :
    ¬ ∀ pre, pre <+: [(0x08 : BitVec 32)] →
      (pre.foldl kiPutc (.start (fun _ => 0) 0x0f)).OnScreen := by
  intro h
  have hafter := h [0x08] (List.prefix_refl _)
  exact (Kterm.onScreen_kiPutc_iff (Kterm.onScreen_start _ _) 0x08).mp hafter ⟨rfl, rfl⟩

end MissyKernel
