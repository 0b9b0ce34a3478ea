import MissyKernel.KernelHeap

/-!
# When a request for pages fails

A request that cannot be met is meant to change nothing. What `allocate_new_brk` does
instead depends on the first frame: if there was one it stays marked, because the
rollback frees nothing but block 0 and at most one table; if there was none, frame 0 is
mapped in its place, and a request for one page even succeeds. `NothingToUndo` is what
is left.

The condition is exact at every state that calls can lead to, also after calls that went wrong.
`allocateNewBrk_first` is what makes it so narrow: the frame that the first round takes stays
marked to the end, whatever the rollback does, so that only a request that takes no frame at all
can be undone.
-/

namespace MissyKernel

namespace Paging

variable {st st' : Paging} {b p q v w : ℕ}

/-! ## What stays marked -/

/-- Block `b` is marked, and no table. -/
structure Held (st : Paging) (b : ℕ) : Prop where
  /-- it is marked -/
  marked : st.balloc.used b = true
  /-- it is no table -/
  notTable : ∀ d < 1023, st.dirWord d ≠ 0 → st.table d ≠ b * 4096

/-- Setting the entry of a page to another frame, or to this one below the window. -/
theorem Held.setEntry (hheld : st.Held b) (h : st.Ok) (hv : v < 2 ^ 32) (hp : st.Mappable p)
    (hpb : pdirEntry v < 1023 ∨ p ≠ b * 4096) (hne : st.dirWord (pdirEntry v) ≠ 0) :
    (st.setEntry (pdirEntry v) (ptableEntry v) (p + 1)).Held b := by
  have hj := ptableEntry_lt v
  have hd := pdirEntry_lt hv
  by_cases hd' : pdirEntry v < 1023
  · refine ⟨hheld.marked, fun e he => ?_⟩
    have hap := h.apart _ hd' hne
    rw [dirWord_setEntry h.aligned hap hj (by omega), table_setEntry h.aligned hap hj (by omega)]
    exact hheld.notTable e he
  · -- in the window the entry is one of the directory
    rw [show pdirEntry v = 1023 by omega, setEntry_last h.recursive]
    refine ⟨hheld.marked, fun e he => ?_⟩
    have hbelow := hp.below
    have haligned := hp.aligned
    rw [dirWord_setDir, table_setDir, Nat.mod_eq_of_lt (by omega)]
    by_cases hej : e = ptableEntry v
    · rw [if_pos hej, if_pos hej, entryFrame_add haligned (by decide)]
      exact fun _ => hpb.resolve_left hd'
    · rw [if_neg hej, if_neg hej]
      exact hheld.notTable e he

/-- The frame that becomes a table is another one. -/
theorem Held.addTable (hheld : st.Held b) (h : st.Ok) {c d : ℕ} (hc : st.balloc.IsNextFree c) :
    (st.addTable d c).Held b := by
  have hcb : c ≠ b := fun hcb => by
    have hclear : st.balloc.used c = false := hc.2.clear
    rw [hcb, hheld.marked] at hclear
    cases hclear
  refine ⟨?_, fun e he => ?_⟩
  · change (st.balloc.allocate c).used b = true
    rw [Balloc.used_allocate, hheld.marked, Bool.true_or]
  · rw [dirWord_addTable h hc, table_addTable h hc]
    by_cases hed : e = d
    · rw [if_pos hed, if_pos hed]
      exact fun _ heq => hcb (Nat.eq_of_mul_eq_mul_right (by decide) heq)
    · rw [if_neg hed, if_neg hed]
      exact hheld.notTable e he

/-- Mapping another frame, or this one below the window, leaves the block held. -/
theorem Held.mapBlock (hheld : st.Held b) (h : st.Ok) (hv : v < 2 ^ 32) (hp : st.Mappable p)
    (hpb : pdirEntry v < 1023 ∨ p ≠ b * 4096) {r : ℤ}
    (hcall : pagemngrMapBlock st p v = some (r, st')) : st'.Held b := by
  obtain ⟨-, -, hres⟩ | ⟨hne, -, hres⟩ | ⟨-, -, e, hres⟩ | ⟨h0, c, hc, hres⟩ :=
    mapBlock_cases h hv hp.aligned
  · rw [hres] at hcall
    cases hcall
    exact hheld
  · rw [hres] at hcall
    cases hcall
    exact hheld.setEntry h hv hp hpb hne
  · rw [hres] at hcall
    cases hcall
    exact ⟨hheld.marked, hheld.notTable⟩
  · have hadd := hheld.addTable h (d := pdirEntry v) hc
    obtain ⟨-, hres⟩ | ⟨-, hres⟩ := hres
    · rw [hres] at hcall
      cases hcall
      exact hadd
    · rw [hres] at hcall
      cases hcall
      have hd' := lt_of_dirWord_eq_zero h hv h0
      refine hadd.setEntry (Ok.addTable h hd' hc) hv (hp.addTable h hc) hpb ?_
      rw [dirWord_addTable h hc, if_pos rfl]
      omega

/-- In the window, mapping takes no frame. -/
theorem mapBlock_window (h : st.Ok) (hv : v < 2 ^ 32) (hp : p % 4096 = 0)
    (hd : pdirEntry v = 1023) {r : ℤ} (hcall : pagemngrMapBlock st p v = some (r, st')) :
    st'.balloc = st.balloc := by
  have hne : st.dirWord (pdirEntry v) ≠ 0 := by
    rw [hd]
    exact fun h0 => not_present_zero (h0 ▸ h.recursive.1)
  obtain ⟨-, -, hres⟩ | ⟨-, -, hres⟩ | ⟨h0, -⟩ | ⟨h0, -⟩ := mapBlock_cases h hv hp
  · rw [hres] at hcall
    cases hcall
    rfl
  · rw [hres] at hcall
    cases hcall
    rfl
  · exact absurd h0 hne
  · exact absurd h0 hne

/-- Unmapping gives back no frame but that of the page's table. -/
theorem unmapBlock_used (h : st.Ok) (hv : v < 2 ^ 32) (hm : st.balloc.used b = true)
    (hnot : pdirEntry v < 1023 → st.dirWord (pdirEntry v) ≠ 0 →
      st.table (pdirEntry v) ≠ b * 4096)
    (hcall : pagemngrUnmapBlock st v = some (q, st')) : st'.balloc.used b = true := by
  obtain ⟨-, hres⟩ | ⟨-, hres⟩ | ⟨-, -, hres⟩ | ⟨hmap, hd, -, hres⟩ := unmapBlock_cases h hv
  · rw [hres] at hcall
    cases hcall
    exact hm
  · rw [hres] at hcall
    cases hcall
  · rw [hres] at hcall
    cases hcall
    exact hm
  · rw [hres] at hcall
    cases hcall
    have hne := hmap.dirWord_ne_zero
    have hdir := (h.clearEntry (pdirEntry_lt hv) (ptableEntry_lt v) hne (by omega)).2
    have htab := hnot hd hne
    rw [table, entryFrame] at htab
    change (ballocDeallocateBlock st.balloc _).used b = true
    rw [Balloc.used_deallocateBlock, hm, hdir]
    have hblock : b ≠ st.dirWord (pdirEntry v) / 4096 := by omega
    simp [hblock]

/-! ## What stays mapped -/

/-- The entry that was cleared is clear. -/
theorem Ok.entry_clearEntry (h : st.Ok) {d j : ℕ} (hd : d < 1024) (hj : j < 1024)
    (hne : st.dirWord d ≠ 0) (hlast : ¬ (d = 1023 ∧ j = 1023)) :
    (st.setEntry d j 0).entry d j = 0 := by
  have hdir := (h.clearEntry hd hj hne hlast).2
  rw [entry, table, hdir]
  change pageWord (st.phys.write32 (st.table d + 4 * j) 0) (st.table d) j = 0
  rw [pageWord_write32_self, if_pos rfl, Nat.zero_mod]

/-- After unmapping, the page is not mapped. -/
theorem unmapBlock_unmaps (h : st.Ok) (hv : v < 2 ^ 32)
    (hcall : pagemngrUnmapBlock st v = some (q, st')) : ¬ st'.Mapped v := by
  obtain ⟨hm, hres⟩ | ⟨-, hres⟩ | ⟨hm, hlast, hres⟩ | ⟨hm, hd, -, hres⟩ := unmapBlock_cases h hv
  · rw [hres] at hcall
    cases hcall
    exact hm
  · rw [hres] at hcall
    cases hcall
  · rw [hres] at hcall
    cases hcall
    rintro ⟨-, he⟩
    rw [h.entry_clearEntry (pdirEntry_lt hv) (ptableEntry_lt v) hm.dirWord_ne_zero hlast] at he
    exact not_present_zero he
  · rw [hres] at hcall
    cases hcall
    rintro ⟨hd', -⟩
    rw [dirWord_dropTable, if_pos rfl] at hd'
    exact not_present_zero hd'

/-- Clearing an entry below the window leaves the pages of the other entries. -/
theorem Mapped.clearEntry (hm : st.Mapped v) (h : st.Ok) (hv : v < 2 ^ 32) {d j : ℕ}
    (hd : d < 1023) (hj : j < 1024) (hne : st.dirWord d ≠ 0) (hjv : ptableEntry v ≠ j) :
    (st.setEntry d j 0).Mapped v := by
  have hdv := pdirEntry_lt hv
  have hap := h.apart d hd hne
  rw [Mapped, dirWord_setEntry h.aligned hap hj hdv,
    entry_setEntry h.aligned hap hj hdv (ptableEntry_lt v), if_neg fun hc => hjv hc.2]
  exact hm

/-- Clearing an entry of the directory leaves the pages of the other tables. -/
theorem Mapped.clearDir (hm : st.Mapped v) (h : st.Ok) (hv : v < 2 ^ 32) {j : ℕ} (hj : j < 1024)
    (hlast : j ≠ 1023) (hdv : pdirEntry v ≠ j) (hjv : pdirEntry v = 1023 → ptableEntry v ≠ j) :
    (st.setDir j 0).Mapped v := by
  have hjv' := ptableEntry_lt v
  have hlt := pdirEntry_lt hv
  by_cases hd : pdirEntry v < 1023
  · have hap := h.apart _ hd hm.dirWord_ne_zero
    rw [Mapped, dirWord_setDir, if_neg hdv, entry_setDir h.aligned hj hjv' hdv hap]
    exact hm
  · -- the page is a table that the window shows, or the directory
    have hv1023 : pdirEntry v = 1023 := by omega
    have he : (st.setDir j 0).entry 1023 (ptableEntry v) = st.entry 1023 (ptableEntry v) := by
      rw [entry, table_setDir, if_neg hlast.symm, entry, table_last h.recursive]
      change (st.setDir j 0).dirWord (ptableEntry v) = _
      rw [dirWord_setDir, if_neg (hjv hv1023), dirWord]
    rw [Mapped, hv1023] at hm
    rw [Mapped, hv1023, dirWord_setDir, if_neg hlast.symm, he]
    exact hm

/-- Giving back an empty table leaves every page below the window. -/
theorem Mapped.dropTable (hm : st.Mapped v) (h : st.Ok) (hv : pdirEntry v < 1023) {d : ℕ}
    (hd : d < 1023) (hempty : st.TableEmpty d) : (st.dropTable d).Mapped v := by
  have hj := ptableEntry_lt v
  -- the table of the page is not empty
  have hdne : pdirEntry v ≠ d := by
    rintro rfl
    exact not_present_zero (hempty _ hj ▸ hm.2)
  have hap := h.apart _ hv hm.dirWord_ne_zero
  rw [Mapped, dirWord_dropTable, if_neg hdne, entry_dropTable h.aligned (by omega) hj hdne hap]
  exact hm

/-- A page that is mapped stays mapped when the page behind it is unmapped. -/
theorem unmapBlock_keeps (h : st.Ok) (hv' : v + 4096 < 2 ^ 32)
    (hm : st.Mapped v) (hcall : pagemngrUnmapBlock st (v + 4096) = some (q, st')) :
    st'.Mapped v := by
  have hv : v < 2 ^ 32 := by omega
  have hd := pdirEntry_lt hv'
  have hj := ptableEntry_lt (v + 4096)
  -- the two pages differ in the entry, also where they differ in the table
  have hjj : ptableEntry v ≠ ptableEntry (v + 4096) := by
    rw [ptableEntry_eq, ptableEntry_eq]
    omega
  have hwin : pdirEntry (v + 4096) = 1023 → pdirEntry v < 1023 →
      pdirEntry v = 1022 ∧ ptableEntry (v + 4096) = 0 := by
    rw [pdirEntry_eq, pdirEntry_eq, ptableEntry_eq]
    omega
  obtain ⟨-, hres⟩ | ⟨-, hres⟩ | ⟨hm', hlast, hres⟩ | ⟨hm', hd', hempty, hres⟩ :=
    unmapBlock_cases h hv'
  · rw [hres] at hcall
    cases hcall
    exact hm
  · rw [hres] at hcall
    cases hcall
  · rw [hres] at hcall
    cases hcall
    by_cases hd' : pdirEntry (v + 4096) < 1023
    · exact hm.clearEntry h hv hd' hj hm'.dirWord_ne_zero hjj
    · -- an entry of the directory is cleared, and it is not the table of `v`
      have h1023 : pdirEntry (v + 4096) = 1023 := by omega
      rw [h1023, setEntry_last h.recursive]
      have hdv : pdirEntry v ≠ ptableEntry (v + 4096) := by
        have := pdirEntry_lt hv
        omega
      exact hm.clearDir h hv hj (fun hl => hlast ⟨h1023, hl⟩) hdv fun _ => hjj
  · rw [hres] at hcall
    cases hcall
    have hne := hm'.dirWord_ne_zero
    have hok := (h.clearEntry hd hj hne (by omega)).1
    have hdv : pdirEntry v ≤ pdirEntry (v + 4096) := by
      rw [pdirEntry_eq, pdirEntry_eq]
      omega
    exact (hm.clearEntry h hv hd' hj hne hjj).dropTable hok (by omega) hd' hempty

end Paging

/-! ## A request that got a frame -/

section Loop

variable {st st' : Paging} {b v : ℕ}

/-- One round of the rollback leaves every block but block 0 and the table's marked. -/
theorem rollback_used (h : st.Ok) (hv : v < 2 ^ 32) (hb : 0 < b)
    (hm : st.balloc.used b = true)
    (hnot : pdirEntry v < 1023 → st.dirWord (pdirEntry v) ≠ 0 →
      st.table (pdirEntry v) ≠ b * 4096)
    {rest i : ℕ} (hnone : ∀ c, ¬ st.balloc.IsNextFree c) (hi : 0 < i) {r : ℤ}
    (hcall : allocateNewBrk (rest + 1) i v st = some (r, st')) : st'.balloc.used b = true := by
  obtain ⟨e, hround⟩ := allocateNewBrk_of_none rest v hnone hi
  rw [hround] at hcall
  obtain ⟨⟨q, st₁⟩, hunmap, hcall⟩ := Option.bind_eq_some_iff.mp hcall
  have hq := Paging.unmapBlock_lt hunmap
  have hused := Paging.unmapBlock_used (h.setErrno e) hv hm hnot hunmap
  cases hcall
  change (if q ≠ 0 then st₁.setBalloc (ballocDeallocateBlock st₁.balloc q)
    else st₁).balloc.used b = true
  by_cases hq0 : q = 0
  · rw [if_neg (not_not_intro hq0)]
    exact hused
  · rw [if_pos hq0]
    change (ballocDeallocateBlock st₁.balloc q).used b = true
    rw [Balloc.used_deallocateBlock, hused]
    simp [show b ≠ q / 4096 by omega]

/-- A held block stays marked to the end of the loop. -/
theorem allocateNewBrk_held (hb : 0 < b) : ∀ (rest i v : ℕ) (st : Paging), 0 < i → st.Ok →
    st.Held b → v < 2 ^ 32 → ∀ (r : ℤ) (st' : Paging),
    allocateNewBrk rest i v st = some (r, st') → st'.balloc.used b = true
  | 0, _, _, st, _, _, hheld, _, r, st', hcall => by
    cases hcall
    exact hheld.marked
  | rest + 1, i, v, st, hi, h, hheld, hv, r, st', hcall => by
    by_cases hfree : ∃ c, st.balloc.IsNextFree c
    · obtain ⟨c, hc⟩ := hfree
      obtain ⟨r₁, st₁, hmap, hok⟩ := (h.setAllocate c).mapBlock hv (h.mappable hc)
      have hcb : c * 4096 ≠ b * 4096 := fun heq => by
        have hclear : st.balloc.used c = false := hc.2.clear
        rw [Nat.eq_of_mul_eq_mul_right (by decide) heq, hheld.marked] at hclear
        cases hclear
      have hheld₁ : (st.setBalloc (st.balloc.allocate c)).Held b := by
        refine ⟨?_, hheld.notTable⟩
        change (st.balloc.allocate c).used b = true
        rw [Balloc.used_allocate, hheld.marked, Bool.true_or]
      rw [allocateNewBrk_of_frame h hc, hmap, Option.bind_some] at hcall
      exact allocateNewBrk_held hb rest (i + 1) _ st₁ (by omega) hok
        (hheld₁.mapBlock (h.setAllocate c) hv (h.mappable hc) (.inr hcb) hmap)
        (Nat.mod_lt _ (by decide)) r st' hcall
    · refine rollback_used h hv hb hheld.marked (fun hd hne => hheld.notTable _ hd hne)
        (not_exists.mp hfree) hi hcall

/-- In the window every marked block stays marked to the end of the loop. -/
theorem allocateNewBrk_window (hb : 0 < b) : ∀ (rest i v : ℕ) (st : Paging), 0 < i → st.Ok →
    st.balloc.used b = true → (rest = 0 ∨ 0xffc00000 ≤ v ∧ v + rest * 4096 ≤ 2 ^ 32) →
    ∀ (r : ℤ) (st' : Paging),
    allocateNewBrk rest i v st = some (r, st') → st'.balloc.used b = true
  | 0, _, _, st, _, _, hm, _, r, st', hcall => by
    cases hcall
    exact hm
  | rest + 1, i, v, st, hi, h, hm, hwin, r, st', hcall => by
    obtain ⟨hlow, hhigh⟩ := hwin.resolve_left (by omega)
    have hd : pdirEntry v = 1023 := by
      rw [pdirEntry_eq]
      omega
    by_cases hfree : ∃ c, st.balloc.IsNextFree c
    · obtain ⟨c, hc⟩ := hfree
      obtain ⟨r₁, st₁, hmap, hok⟩ := (h.setAllocate c).mapBlock (show v < 2 ^ 32 by omega)
        (h.mappable hc)
      have hballoc := Paging.mapBlock_window (h.setAllocate c) (show v < 2 ^ 32 by omega)
        (h.mappable hc).aligned hd hmap
      rw [allocateNewBrk_of_frame h hc, hmap, Option.bind_some] at hcall
      refine allocateNewBrk_window hb rest (i + 1) _ st₁ (by omega) hok ?_ (by omega) r st' hcall
      rw [hballoc]
      change (st.balloc.allocate c).used b = true
      rw [Balloc.used_allocate, hm, Bool.true_or]
    · exact rollback_used h (by omega) hb hm (fun hd' => absurd hd (by omega))
        (not_exists.mp hfree) hi hcall

/-- The first frame a request takes stays marked. -/
theorem allocateNewBrk_first (h : st.Ok) (hb : st.balloc.IsNextFree b) {rest : ℕ}
    (hv : v + (rest + 1) * 4096 ≤ 2 ^ 32) {r : ℤ}
    (hcall : allocateNewBrk (rest + 1) 0 v st = some (r, st')) : st'.balloc.used b = true := by
  obtain ⟨hpos, -, -, htables⟩ := h.nextFree hb
  have hm : (st.setBalloc (st.balloc.allocate b)).balloc.used b = true := by
    change (st.balloc.allocate b).used b = true
    rw [Balloc.used_allocate, decide_eq_true rfl, Bool.or_true]
  obtain ⟨r₁, st₁, hmap, hok⟩ := (h.setAllocate b).mapBlock (show v < 2 ^ 32 by omega)
    (h.mappable hb)
  rw [allocateNewBrk_of_frame h hb, hmap, Option.bind_some] at hcall
  by_cases hwin : v < 0xffc00000
  · have hd : pdirEntry v < 1023 := by
      rw [pdirEntry_eq]
      omega
    have hheld : (st.setBalloc (st.balloc.allocate b)).Held b := ⟨hm, htables⟩
    exact allocateNewBrk_held hpos rest 1 _ st₁ (by omega) hok
      (hheld.mapBlock (h.setAllocate b) (by omega) (h.mappable hb) (.inl hd) hmap)
      (Nat.mod_lt _ (by decide)) r st' hcall
  · have hd : pdirEntry v = 1023 := by
      rw [pdirEntry_eq]
      omega
    refine allocateNewBrk_window hpos rest 1 _ st₁ (by omega) hok ?_ (by omega) r st' hcall
    rw [Paging.mapBlock_window (h.setAllocate b) (by omega) (h.mappable hb).aligned hd hmap]
    exact hm

/-! ## A request that got none -/

/-- The call left everything but `errno` as it was. -/
structure Undone (st st' : Paging) : Prop where
  /-- it reports that memory ran out -/
  errno : st'.balloc.errno = enomem
  /-- every translation is as it was -/
  translation : ∀ a < 2 ^ 32, translate st'.phys st'.cr3 a = translate st.phys st.cr3 a
  /-- every bit of the bitmap is as it was -/
  used : ∀ b, st'.balloc.used b = st.balloc.used b
  /-- the count is as it was -/
  count : st'.balloc.usedBlocks = st.balloc.usedBlocks

/-- The requests of `count` pages from `v` on that leave nothing to undo: no frame is
free, the first of at least two pages cannot be mapped, and the second is not mapped. -/
structure NothingToUndo (st : Paging) (v count : ℕ) : Prop where
  /-- no frame is free -/
  exhausted : ∀ b, ¬ st.balloc.IsNextFree b
  /-- there are two pages to map -/
  two : 2 ≤ count
  /-- the first has no table, or something in its entry -/
  first : ¬ (st.dirWord (pdirEntry v) ≠ 0 ∧ st.entry (pdirEntry v) (ptableEntry v) = 0)
  /-- the second is not mapped -/
  second : ¬ st.Mapped (v + 4096)

/-- A page whose mapping changed is not undone. -/
theorem Undone.mapped (hun : Undone st st') (hv : v < 2 ^ 32) : st'.Mapped v ↔ st.Mapped v := by
  have htr := hun.translation v hv
  rw [← not_iff_not, ← Paging.translate_eq_none, ← Paging.translate_eq_none, htr]

/-- Mapping frame 0 where no frame is free: either nothing happens, or its entry is set. -/
theorem mapNull_cases (h : st.Ok) (hv : v < 2 ^ 32) (hnone : ∀ b, ¬ st.balloc.IsNextFree b)
    (e : ℕ) :
    (¬ (st.dirWord (pdirEntry v) ≠ 0 ∧ st.entry (pdirEntry v) (ptableEntry v) = 0) ∧
      ∃ e', pagemngrMapBlock (st.setErrno e) 0 v = some (-1, st.setErrno e')) ∨
    (st.dirWord (pdirEntry v) ≠ 0 ∧ st.entry (pdirEntry v) (ptableEntry v) = 0 ∧
      pagemngrMapBlock (st.setErrno e) 0 v =
        some (0, (st.setErrno e).setEntry (pdirEntry v) (ptableEntry v) 1)) := by
  obtain ⟨-, hne, hres⟩ | ⟨hne, hempty, hres⟩ | ⟨h0, -, e', hres⟩ | ⟨-, b, hb, -⟩ :=
    Paging.mapBlock_cases (h.setErrno e) hv (show 0 % 4096 = 0 from rfl)
  · exact .inl ⟨fun hc => hne hc.2, e, hres⟩
  · exact .inr ⟨hne, hempty, hres⟩
  · exact .inl ⟨fun hc => hc.1 h0, e', hres⟩
  · exact absurd hb (hnone b)

/-- What the rollback does to the page before the one it unmaps, and to that one. -/
theorem rollback_mapped (h : st.Ok) (hv : v + 4096 < 2 ^ 32) {rest i : ℕ}
    (hnone : ∀ c, ¬ st.balloc.IsNextFree c) (hi : 0 < i) {r : ℤ}
    (hcall : allocateNewBrk (rest + 1) i (v + 4096) st = some (r, st')) :
    ¬ st'.Mapped (v + 4096) ∧ (st.Mapped v → st'.Mapped v) := by
  obtain ⟨e, hround⟩ := allocateNewBrk_of_none rest (v + 4096) hnone hi
  rw [hround] at hcall
  obtain ⟨⟨q, st₁⟩, hunmap, hcall⟩ := Option.bind_eq_some_iff.mp hcall
  have hgone := Paging.unmapBlock_unmaps (h.setErrno e) hv hunmap
  have hkept := fun hm => Paging.unmapBlock_keeps (h.setErrno e) hv hm hunmap
  cases hcall
  by_cases hq0 : q = 0
  · rw [if_neg (not_not_intro hq0)]
    exact ⟨hgone, hkept⟩
  · rw [if_pos hq0]
    exact ⟨hgone, hkept⟩

/-- The rollback has nothing to do when the page is not mapped. -/
theorem rollback_unmapped (h : st.Ok) (hv : v < 2 ^ 32) {rest i : ℕ}
    (hnone : ∀ c, ¬ st.balloc.IsNextFree c) (hi : 0 < i) (hm : ¬ st.Mapped v) :
    allocateNewBrk (rest + 1) i v st = some (-1, st.setErrno enomem) := by
  obtain ⟨e, hround⟩ := allocateNewBrk_of_none rest v hnone hi
  rw [hround, Paging.unmapBlock_of_unmapped (h.setErrno e) hv hm]
  rfl

/-- **The loop fails cleanly exactly when there is nothing to undo.** -/
theorem allocateNewBrk_undone_iff (h : st.Ok) {count : ℕ} (hpos : 0 < count)
    (hv : v + count * 4096 ≤ 2 ^ 32) :
    (∃ st', allocateNewBrk count 0 v st = some (-1, st') ∧ Undone st st') ↔
      NothingToUndo st v count := by
  obtain ⟨rest, rfl⟩ : ∃ rest, count = rest + 1 := ⟨count - 1, by omega⟩
  by_cases hfree : ∃ b, st.balloc.IsNextFree b
  · -- the frame that was taken stays marked
    obtain ⟨b, hb⟩ := hfree
    refine iff_of_false ?_ fun hn => hn.exhausted b hb
    rintro ⟨st', hcall, hun⟩
    have hm := allocateNewBrk_first h hb hv hcall
    have hclear : st.balloc.used b = false := hb.2.clear
    rw [hun.used b, hclear] at hm
    cases hm
  have hnone := not_exists.mp hfree
  obtain ⟨e, hround⟩ := allocateNewBrk_of_none_first rest v hnone
  rw [hround]
  rcases Nat.eq_zero_or_pos rest with rfl | hrest
  · -- a request for one page reports success
    refine iff_of_false ?_ fun hn => absurd hn.two (by omega)
    rintro ⟨st', hcall, -⟩
    obtain ⟨⟨r₁, st₁⟩, -, hcall⟩ := Option.bind_eq_some_iff.mp hcall
    cases hcall
  obtain ⟨rest, rfl⟩ : ∃ k, rest = k + 1 := ⟨rest - 1, by omega⟩
  have hmod : (v + 4096) % 2 ^ 32 = v + 4096 := Nat.mod_eq_of_lt (by omega)
  obtain ⟨hfirst, e', hmap⟩ | ⟨hne, hempty, hmap⟩ :=
    mapNull_cases h (show v < 2 ^ 32 by omega) hnone e
  · -- nothing was mapped; the rollback unmaps the second page
    have hok := h.setErrno e'
    rw [hmap, Option.bind_some, hmod]
    by_cases hm : st.Mapped (v + 4096)
    · refine iff_of_false ?_ fun hn => hn.second hm
      rintro ⟨st', hcall, hun⟩
      have hgone := (rollback_mapped hok (by omega) hnone (by decide) hcall).1
      exact hgone ((hun.mapped (by omega)).mpr hm)
    · refine iff_of_true ⟨_, rollback_unmapped hok (by omega) hnone (by decide) hm, ?_⟩
        ⟨hnone, by omega, hfirst, hm⟩
      exact ⟨rfl, fun _ _ => rfl, fun _ => rfl, rfl⟩
  · -- frame 0 was mapped and stays mapped
    refine iff_of_false ?_ fun hn => hn.first ⟨hne, hempty⟩
    rw [hmap, Option.bind_some, hmod]
    rintro ⟨st', hcall, hun⟩
    have hd := Paging.pdirEntry_lt (show v < 2 ^ 32 by omega)
    have hok := h.setErrno e
    have hnull := hok.mappable_null
    have hset := hok.setFrame hd hne (Paging.ptableEntry_lt v) hnull hempty
    obtain ⟨hdir, hentry⟩ := hok.entry_setFrame hd hne (Paging.ptableEntry_lt v) hnull hempty
    have hmapped : ((st.setErrno e).setEntry (pdirEntry v) (ptableEntry v) 1).Mapped v := by
      refine ⟨?_, hentry ▸ rfl⟩
      rw [hdir]
      exact hok.present hd hne
    have hkept := (rollback_mapped hset (by omega) hnone (by decide) hcall).2 hmapped
    have hm := ((hun.mapped (by omega)).mp hkept).2
    rw [hempty] at hm
    exact not_present_zero hm

end Loop

/-! ## Failed calls -/

/-- The pages the break at `addr` needs more than the present one. -/
def Heap.newPages (st : Heap) (addr : ℕ) : List ℕ :=
  (List.range (st.pageCount addr)).map fun k => (st.firstPage + k) * 4096

/-- The pages can all be allocated and mapped, one after the other. -/
def Provides : Paging → List ℕ → Prop
  | _, [] => True
  | st, v :: rest => ∃ b st', st.balloc.IsNextFree b ∧
      pagemngrMapBlock (st.setBalloc (st.balloc.allocate b)) (b * 4096) v = some (0, st') ∧
      Provides st' rest

/-- `brk` fails and leaves everything as it was. -/
def BrkFailsCleanly (st : Heap) (addr : ℕ) : Prop :=
  ∃ st', brk st addr = some (-1, st') ∧ st'.brk = st.brk ∧ Undone st.paging st'.paging

/-- `sbrk` fails and leaves everything as it was. -/
def SbrkFailsCleanly (st : Heap) (increment : ℤ) : Prop :=
  ∃ st', sbrk st increment = some (0xffffffff, st') ∧ st'.brk = st.brk ∧
    Undone st.paging st'.paging

/-- A request that cannot be met asks for pages. -/
theorem Heap.pageCount_pos {st : Heap} {addr : ℕ} (hno : ¬ Provides st.paging (st.newPages addr)) :
    0 < st.pageCount addr := by
  by_contra hzero
  rw [Heap.newPages, show st.pageCount addr = 0 by omega] at hno
  exact hno trivial

theorem brkFailsCleanly_iff {st : Heap} (h : st.Ok) {addr : ℕ} (haddr : addr < 2 ^ 32)
    (hno : ¬ Provides st.paging (st.newPages addr)) :
    BrkFailsCleanly st addr ↔
      NothingToUndo st.paging (st.firstPage * 4096) (st.pageCount addr) := by
  have hpos := Heap.pageCount_pos hno
  have hbase := h.positive
  have halign := h.aligned
  have habove := h.above
  have hle : st.heapBase ≤ addr := by
    rw [Heap.pageCount, Heap.firstPage] at hpos
    split at hpos <;> omega
  have hend : st.firstPage * 4096 + st.pageCount addr * 4096 ≤ 2 ^ 32 := by
    rw [Heap.pageCount] at hpos ⊢
    omega
  rw [← allocateNewBrk_undone_iff h.paging hpos hend, BrkFailsCleanly,
    brk_of_growth hbase halign hle haddr h.below habove hpos]
  constructor
  · rintro ⟨st', hcall, -, hun⟩
    obtain ⟨⟨r, paging⟩, hloop, hcall⟩ := Option.bind_eq_some_iff.mp hcall
    split at hcall
    case isTrue hr =>
      cases hcall
      obtain rfl : r = -1 := hr
      exact ⟨paging, hloop, hun⟩
    case isFalse hr => cases hcall
  · rintro ⟨paging, hloop, hun⟩
    refine ⟨{ st with paging := paging }, ?_, rfl, hun⟩
    rw [hloop]
    rfl

/-- The loop reports success, or fails with `errno` set. -/
theorem allocateNewBrk_result : ∀ (rest i v : ℕ) (st : Paging) (r : ℤ) (st' : Paging),
    allocateNewBrk rest i v st = some (r, st') →
    r = 0 ∨ r = -1 ∧ st'.balloc.errno = enomem
  | 0, _, _, st, r, st', hcall => by
    cases hcall
    exact .inl rfl
  | rest + 1, i, v, st, r, st', hcall => by
    rw [allocateNewBrk] at hcall
    by_cases hfail : (ballocAllocateBlock st.balloc).1 = 0 ∧ i > 0
    · simp only [if_pos hfail] at hcall
      obtain ⟨⟨q, st₁⟩, -, hcall⟩ := Option.bind_eq_some_iff.mp hcall
      cases hcall
      exact .inr ⟨rfl, rfl⟩
    · simp only [if_neg hfail] at hcall
      obtain ⟨⟨r₁, st₁⟩, -, hcall⟩ := Option.bind_eq_some_iff.mp hcall
      exact allocateNewBrk_result rest (i + 1) _ st₁ r st' hcall

/-- `sbrk` fails where `brk` does. -/
theorem sbrkFailsCleanly_iff {st : Heap} (h : st.Ok) {increment : ℤ}
    (hno : ¬ Provides st.paging (st.newPages (sbrkTarget st increment))) :
    SbrkFailsCleanly st increment ↔ BrkFailsCleanly st (sbrkTarget st increment) := by
  have hpos := Heap.pageCount_pos hno
  have hbase := h.positive
  have halign := h.aligned
  have habove := h.above
  have hbelow := h.below
  have haddr := sbrkTarget_lt st increment
  have hne : increment ≠ 0 := by
    rintro rfl
    rw [Heap.pageCount, Heap.firstPage, sbrkTarget] at hpos
    split at hpos <;> omega
  have hle : st.heapBase ≤ sbrkTarget st increment ∧ st.brk ≠ 0xffffffff := by
    rw [Heap.pageCount, Heap.firstPage] at hpos
    split at hpos <;> omega
  have hbrk := brk_of_growth hbase halign hle.1 haddr hbelow habove hpos
  rw [SbrkFailsCleanly, BrkFailsCleanly, sbrk, if_neg hne]
  constructor
  · rintro ⟨st', hcall, heq, hun⟩
    obtain ⟨⟨r, st₁⟩, hrun, hcall⟩ := Option.bind_eq_some_iff.mp hcall
    by_cases hr : r = 0
    · simp only [if_neg (not_not_intro hr)] at hcall
      exact absurd (congrArg Prod.fst (Option.some.inj hcall)) hle.2
    · simp only [if_pos hr] at hcall
      cases hcall
      have hbind := hrun
      rw [hbrk] at hbind
      obtain ⟨⟨r₁, paging⟩, hloop, hres⟩ := Option.bind_eq_some_iff.mp hbind
      by_cases hr₁ : r₁ = -1
      · simp only [if_pos hr₁] at hres
        cases hres
        have herrno := (allocateNewBrk_result _ _ _ _ _ _ hloop).resolve_left (by omega)
        exact ⟨_, hrun, heq, herrno.2, hun.translation, hun.used, hun.count⟩
      · simp only [if_neg hr₁] at hres
        cases hres
        exact absurd rfl hr
  · rintro ⟨st', hcall, heq, hun⟩
    refine ⟨st'.setErrno enomem, ?_, heq, rfl, hun.translation, hun.used, hun.count⟩
    rw [hcall]
    rfl

/-- **A failed call changes nothing exactly when it had nothing to undo.** After any run of calls,
a request for pages that cannot all be provided fails cleanly only if no frame is free, the first
of several pages cannot be mapped and the second is not mapped.

Where the loop is entered and a frame was free, that frame stays marked. Where none was, frame 0 is
mapped for the first page if it can be, and the rollback unmaps the page behind it, so that neither
must have anything to do. Both follow `allocate_new_brk` round by round, for any state the tables
may be in. -/
theorem failed_call_clean_iff (start st : Heap) (hstart : start.Ok)
    (hreach : HeapReach (fun st c => c.target st < 2 ^ 32) start st) :
    (∀ addr < 2 ^ 32, ¬ Provides st.paging (st.newPages addr) →
      (BrkFailsCleanly st addr ↔
        NothingToUndo st.paging (st.firstPage * 4096) (st.pageCount addr))) ∧
    ∀ increment, ¬ Provides st.paging (st.newPages (sbrkTarget st increment)) →
      (SbrkFailsCleanly st increment ↔ NothingToUndo st.paging (st.firstPage * 4096)
        (st.pageCount (sbrkTarget st increment))) := by
  have h := hreach.ok hstart fun _ _ hc => hc
  refine ⟨fun addr haddr hno => brkFailsCleanly_iff h haddr hno, fun increment hno => ?_⟩
  rw [sbrkFailsCleanly_iff h hno]
  exact brkFailsCleanly_iff h (sbrkTarget_lt st increment) hno

/-- Where no frame is free, no request is met. -/
theorem exhaustedHeap_not_provides {v : ℕ} {rest : List ℕ} :
    ¬ Provides exhaustedHeap.paging (v :: rest) :=
  fun ⟨b, _, hb, _⟩ => exhaustedHeap_none b hb

/-- Two pages are refused and nothing changes. -/
theorem exhaustedHeap_two_pages : BrkFailsCleanly exhaustedHeap 0x401000 := by
  refine ((failed_call_clean_iff exhaustedHeap exhaustedHeap exhaustedHeap_ok .start).1 0x401000
    (by decide) exhaustedHeap_not_provides).mpr ⟨exhaustedHeap_none, by decide, ?_, ?_⟩
  · exact fun hc => hc.1 (loneDirectory_dirWord 1)
  · rintro ⟨hd, -⟩
    have h0 : exhaustedHeap.paging.dirWord (pdirEntry 0x401000) = 0 := loneDirectory_dirWord 1
    exact not_present_zero (h0 ▸ hd)

/-- One page is not provided, but the call does not fail. -/
theorem exhaustedHeap_one_page :
    ¬ Provides exhaustedHeap.paging (exhaustedHeap.newPages 0x400000) ∧
      ¬ BrkFailsCleanly exhaustedHeap 0x400000 := by
  have hno : ¬ Provides exhaustedHeap.paging (exhaustedHeap.newPages 0x400000) :=
    exhaustedHeap_not_provides
  refine ⟨hno, fun hclean => ?_⟩
  have htwo := ((brkFailsCleanly_iff exhaustedHeap_ok (by decide) hno).mp hclean).two
  exact absurd htwo (by decide)

end MissyKernel
