import MissyKernel.Pagemngr

/-!
# What a mapping touches

`pagemngr_map_block` should change the translation of one page. Where the page has a
table this needs the table to be nobody else's. Where it has none, the next free frame
becomes the table with whatever it holds, unlike the boot's tables, which are cleared:
every present word in it maps a page, and a word in the entry itself makes the call
fail with the frame taken.

`MapIsLocal` is the condition, on the state before the call: what the next free frame holds, who
else has the table, and whether the allocator has a frame to give. `translate_setEntry_of_ne` and
`translate_addTable_of_ne` are the frame lemmas behind it: a write to an entry moves the page of
that entry, and a table that is entered moves the pages below its directory entry.
-/

namespace MissyKernel

/-- `v` has no table, and every frame that could become one is marked. -/
def NoFrameLeft (st : Paging) (v : ℕ) : Prop :=
  st.dirWord (pdirEntry v) = 0 ∧
    ∀ b, 1 ≤ b → b < st.balloc.totalBlocks → st.balloc.used b = true

/-- Page `v` was mapped to `p` and nothing else below the window moved. -/
structure PageAdded (st st' : Paging) (p v : ℕ) : Prop where
  /-- the page translates -/
  page : translate st'.phys st'.cr3 v = some p
  /-- the others do as before -/
  others : ∀ a < 0xffc00000, a / 4096 ≠ v / 4096 →
    translate st'.phys st'.cr3 a = translate st.phys st.cr3 a

/-- No translation moved, and no frame was taken. -/
structure Unmoved (st st' : Paging) : Prop where
  /-- every translation is as before -/
  translations : ∀ a < 2 ^ 32, translate st'.phys st'.cr3 a = translate st.phys st.cr3 a
  /-- so is the bitmap -/
  marks : ∀ b, st'.balloc.used b = st.balloc.used b
  /-- and the count -/
  count : st'.balloc.usedBlocks = st.balloc.usedBlocks

/-- `pagemngr_map_block(p, v)` touches its own page only: it maps it, or it fails for a
reason and changes nothing. -/
def MapTouchesOnlyPage (st : Paging) (p v : ℕ) : Prop :=
  ∃ r st', pagemngrMapBlock st p v = some (r, st') ∧
    (r = 0 ∧ PageAdded st st' p v ∨
      r = -1 ∧ Unmoved st st' ∧ (st.Mapped v ∨ NoFrameLeft st v))

/-- Nothing stands in the way of `v`: with a table, the page is mapped already, or its
entry is empty and the table is no other entry's; without one, the next free frame
holds no present word and nothing in the entry, and if there is no next free frame
there is no free frame at all. -/
def MapIsLocal (st : Paging) (v : ℕ) : Prop :=
  if st.dirWord (pdirEntry v) = 0 then
    (∀ b, st.balloc.IsNextFree b → pageWord st.phys (b * 4096) (ptableEntry v) = 0 ∧
      ∀ k < 1024, ¬ Present (pageWord st.phys (b * 4096) k)) ∧
    ((∀ b, ¬ st.balloc.IsNextFree b) → NoFrameLeft st v)
  else
    Present (st.entry (pdirEntry v) (ptableEntry v)) ∨
      st.entry (pdirEntry v) (ptableEntry v) = 0 ∧
        ∀ e < 1023, e ≠ pdirEntry v → st.dirWord e ≠ 0 → st.table e ≠ st.table (pdirEntry v)

/-! ## Pages and entries -/

theorem same_page_iff {a v : ℕ} :
    a / 4096 = v / 4096 ↔ pdirEntry a = pdirEntry v ∧ ptableEntry a = ptableEntry v := by
  rw [pdirEntry_eq, pdirEntry_eq, ptableEntry_eq, ptableEntry_eq]
  omega

/-- Every entry below the window belongs to a page. -/
theorem exists_page {d k : ℕ} (hd : d < 1023) (hk : k < 1024) :
    ∃ a < 0xffc00000, pdirEntry a = d ∧ ptableEntry a = k ∧ a % 4096 = 0 := by
  refine ⟨d * 2 ^ 22 + k * 4096, by omega, ?_, ?_, by omega⟩
  · rw [pdirEntry_eq]
    omega
  · rw [ptableEntry_eq]
    omega

theorem pdirEntry_lt_last {a : ℕ} (ha : a < 0xffc00000) : pdirEntry a < 1023 := by
  rw [pdirEntry_eq]
  omega

namespace Paging

variable {st st' : Paging} {a b d j p v w : ℕ}

/-- A translation depends on two entries. -/
theorem translate_congr_entry (hd : st'.dirWord (pdirEntry a) = st.dirWord (pdirEntry a))
    (he : st.dirWord (pdirEntry a) ≠ 0 →
      st'.entry (pdirEntry a) (ptableEntry a) = st.entry (pdirEntry a) (ptableEntry a)) :
    translate st'.phys st'.cr3 a = translate st.phys st.cr3 a := by
  rw [translate_eq, translate_eq, hd]
  rcases eq_or_ne (st.dirWord (pdirEntry a)) 0 with h0 | hne
  · rw [h0, if_neg not_present_zero, if_neg not_present_zero]
  · rw [he hne]

/-- Setting an entry of a table moves the pages of that entry only. -/
theorem translate_setEntry_of_ne (h : st.Ok) (hd : d < 1023) (hne : st.dirWord d ≠ 0)
    (hj : j < 1024) (ha : a < 2 ^ 32)
    (hother : st.dirWord (pdirEntry a) ≠ 0 → st.table (pdirEntry a) = st.table d →
      ptableEntry a ≠ j) :
    translate (st.setEntry d j w).phys (st.setEntry d j w).cr3 a =
      translate st.phys st.cr3 a := by
  have hap := h.apart d hd hne
  refine translate_congr_entry (dirWord_setEntry h.aligned hap hj (pdirEntry_lt ha)) ?_
  intro hne'
  rw [entry_setEntry h.aligned hap hj (pdirEntry_lt ha) (ptableEntry_lt a), if_neg]
  rintro ⟨htab, hja⟩
  exact hother hne' htab hja

/-- The pages of an entry that was set are mapped to its frame. -/
theorem translate_setEntry_self (h : st.Ok) (hd : d < 1023) (hne : st.dirWord d ≠ 0)
    (ha : a < 2 ^ 32) (hp : p % 4096 = 0) (hp' : p < 2 ^ 32)
    (hne' : st.dirWord (pdirEntry a) ≠ 0) (htab : st.table (pdirEntry a) = st.table d) :
    translate (st.setEntry d (ptableEntry a) (p + 1)).phys
      (st.setEntry d (ptableEntry a) (p + 1)).cr3 a = some (p + a % 4096) := by
  have hap := h.apart d hd hne
  have hj := ptableEntry_lt a
  have hentry := entry_setEntry (w := p + 1) h.aligned hap hj (pdirEntry_lt ha) hj
  rw [if_pos ⟨htab, rfl⟩, Nat.mod_eq_of_lt (by omega)] at hentry
  have hmapped : (st.setEntry d (ptableEntry a) (p + 1)).Mapped a := by
    refine ⟨?_, ?_⟩
    · rw [dirWord_setEntry h.aligned hap hj (pdirEntry_lt ha)]
      exact h.present (pdirEntry_lt ha) hne'
    · rw [hentry, Present]
      omega
  rw [translate_of_mapped hmapped, hentry, entryFrame_add hp (by decide)]

/-- A new table moves the pages of its own entry only. -/
theorem translate_addTable_of_ne (h : st.Ok) (hd : d < 1023) (hb : st.balloc.IsNextFree b)
    (ha : a < 0xffc00000) (had : pdirEntry a ≠ d) :
    translate (st.addTable d b).phys (st.addTable d b).cr3 a = translate st.phys st.cr3 a := by
  refine translate_congr_entry ?_ ?_
  · rw [dirWord_addTable h hb, if_neg had]
  · intro hne
    exact entry_addTable_of_ne h hd (ptableEntry_lt a) had
      (h.apart _ (pdirEntry_lt_last ha) hne)

/-- And these by what the frame holds. -/
theorem translate_addTable_self (h : st.Ok) (hd : pdirEntry a < 1023)
    (hb : st.balloc.IsNextFree b) :
    translate (st.addTable (pdirEntry a) b).phys (st.addTable (pdirEntry a) b).cr3 a = none ↔
      ¬ Present (pageWord st.phys (b * 4096) (ptableEntry a)) := by
  rw [translate_eq_none, Mapped, entry_addTable_self h hd hb (ptableEntry_lt a),
    dirWord_addTable h hb, if_pos rfl]
  have hpresent : Present (b * 4096 + 1) := by
    rw [Present]
    omega
  simp only [hpresent, true_and]

end Paging

section Cases

variable {st : Paging} {b p v : ℕ}

/-- A call that returned 0. -/
theorem mapTouchesOnlyPage_of_zero {st' : Paging}
    (hcall : pagemngrMapBlock st p v = some (0, st')) :
    MapTouchesOnlyPage st p v ↔ PageAdded st st' p v := by
  constructor
  · rintro ⟨r, s, hres, ⟨-, hadded⟩ | ⟨hr, -⟩⟩
    · rw [hcall] at hres
      cases hres
      exact hadded
    · rw [hcall] at hres
      cases hres
      cases hr
  · intro h
    exact ⟨0, st', hcall, .inl ⟨rfl, h⟩⟩

/-- A call that failed. -/
theorem mapTouchesOnlyPage_of_failed {st' : Paging}
    (hcall : pagemngrMapBlock st p v = some (-1, st')) :
    MapTouchesOnlyPage st p v ↔ Unmoved st st' ∧ (st.Mapped v ∨ NoFrameLeft st v) := by
  constructor
  · rintro ⟨r, s, hres, ⟨hr, -⟩ | ⟨-, h⟩⟩
    · rw [hcall] at hres
      cases hres
      cases hr
    · rw [hcall] at hres
      cases hres
      exact h
  · intro h
    exact ⟨-1, st', hcall, .inr ⟨rfl, h⟩⟩

/-- An entry of a table was set. -/
theorem pageAdded_setEntry_iff (h : st.Ok) (hv : v < 0xffc00000) (hv' : v % 4096 = 0)
    (hp : p % 4096 = 0) (hp' : p < 2 ^ 32) (hne : st.dirWord (pdirEntry v) ≠ 0)
    (hempty : st.entry (pdirEntry v) (ptableEntry v) = 0) :
    PageAdded st (st.setEntry (pdirEntry v) (ptableEntry v) (p + 1)) p v ↔
      ∀ e < 1023, e ≠ pdirEntry v → st.dirWord e ≠ 0 → st.table e ≠ st.table (pdirEntry v) := by
  have hd := pdirEntry_lt_last hv
  have hj := Paging.ptableEntry_lt v
  constructor
  · -- a page of another entry with the same table is mapped too
    intro hadded e he hev hne' htab
    obtain ⟨a, ha, rfl, haj, ha'⟩ := exists_page he hj
    have hother := hadded.others a ha fun hpage => hev (same_page_iff.mp hpage).1
    have hnone : translate st.phys st.cr3 a = none := by
      rw [Paging.translate_eq_none]
      rintro ⟨-, hpresent⟩
      rw [haj, Paging.entry, htab] at hpresent
      exact not_present_zero (hempty ▸ hpresent)
    rw [hnone, ← haj, Paging.translate_setEntry_self h hd hne (by omega) hp hp' hne' htab] at hother
    cases hother
  · intro hunshared
    refine ⟨?_, ?_⟩
    · rw [Paging.translate_setEntry_self h hd hne (by omega) hp hp' hne rfl, hv', Nat.add_zero]
    · intro a ha hpage
      refine Paging.translate_setEntry_of_ne h hd hne hj (by omega) ?_
      intro hne' htab haj
      by_cases hdir : pdirEntry a = pdirEntry v
      · exact hpage (same_page_iff.mpr ⟨hdir, haj⟩)
      · exact hunshared _ (pdirEntry_lt_last ha) hdir hne' htab

/-- The next free frame became the table. -/
theorem pageAdded_addTable_iff (h : st.Ok) (hv : v < 0xffc00000) (hv' : v % 4096 = 0)
    (hp : p % 4096 = 0) (hp' : p < 2 ^ 32) (h0 : st.dirWord (pdirEntry v) = 0)
    (hb : st.balloc.IsNextFree b) (hw : pageWord st.phys (b * 4096) (ptableEntry v) = 0) :
    PageAdded st
        ((st.addTable (pdirEntry v) b).setEntry (pdirEntry v) (ptableEntry v) (p + 1)) p v ↔
      ∀ k < 1024, ¬ Present (pageWord st.phys (b * 4096) k) := by
  have hd := pdirEntry_lt_last hv
  have hj := Paging.ptableEntry_lt v
  have hok := Paging.Ok.addTable h hd hb
  have hne : (st.addTable (pdirEntry v) b).dirWord (pdirEntry v) ≠ 0 := by
    rw [Paging.dirWord_addTable h hb, if_pos rfl]
    exact Nat.succ_ne_zero _
  have hempty : (st.addTable (pdirEntry v) b).entry (pdirEntry v) (ptableEntry v) = 0 := by
    rw [Paging.entry_addTable_self h hd hb hj, hw]
  -- the frame was free, so it is no other entry's table
  have hunshared : ∀ e < 1023, e ≠ pdirEntry v → (st.addTable (pdirEntry v) b).dirWord e ≠ 0 →
      (st.addTable (pdirEntry v) b).table e ≠
        (st.addTable (pdirEntry v) b).table (pdirEntry v) := by
    intro e he hev
    rw [Paging.dirWord_addTable h hb, Paging.table_addTable h hb, Paging.table_addTable h hb,
      if_neg hev, if_neg hev, if_pos rfl]
    exact (h.nextFree hb).2.2.2 e he
  have hadded := (pageAdded_setEntry_iff hok hv hv' hp hp' hne hempty).mpr hunshared
  have hnone : ∀ a, pdirEntry a = pdirEntry v → translate st.phys st.cr3 a = none := by
    intro a ha
    rw [Paging.translate_eq_none]
    rintro ⟨hpresent, -⟩
    exact not_present_zero (h0 ▸ ha ▸ hpresent)
  have hself : ∀ a, pdirEntry a = pdirEntry v →
      (translate (st.addTable (pdirEntry v) b).phys (st.addTable (pdirEntry v) b).cr3 a = none ↔
        ¬ Present (pageWord st.phys (b * 4096) (ptableEntry a))) := by
    intro a ha
    rw [← ha]
    exact Paging.translate_addTable_self h (ha ▸ hd) hb
  constructor
  · intro hst k hk
    rcases eq_or_ne k (ptableEntry v) with rfl | hkv
    · rw [hw]
      exact not_present_zero
    · obtain ⟨a, ha, had, rfl, -⟩ := exists_page hd hk
      have hpage : a / 4096 ≠ v / 4096 := fun heq => hkv (same_page_iff.mp heq).2
      rw [← hself a had, ← hadded.others a ha hpage, hst.others a ha hpage]
      exact hnone a had
  · intro hblank
    refine ⟨hadded.page, ?_⟩
    intro a ha hpage
    rw [hadded.others a ha hpage]
    by_cases had : pdirEntry a = pdirEntry v
    · rw [hnone a had, hself a had]
      exact hblank _ (Paging.ptableEntry_lt a)
    · exact Paging.translate_addTable_of_ne h hd hb ha had

end Cases

/-- **When a mapping touches only its own page**: unless the frame that becomes the table holds
something, the table is shared, or the allocator misses the free frames.

With a table one entry is written, and that moves other pages only if another directory entry has
the same table. Without one, what the frame held before becomes the translation of 1024 pages. -/
theorem map_touches_only_page_iff (st : Paging) (p v : ℕ) (h : st.Ok) (hv : v < 0xffc00000)
    (hv' : v % 4096 = 0) (hp : p < 2 ^ 32) (hp' : p % 4096 = 0) :
    MapTouchesOnlyPage st p v ↔ MapIsLocal st v := by
  have hd := pdirEntry_lt_last hv
  rw [MapIsLocal]
  obtain ⟨hne, hw, hcall⟩ | ⟨hne, hw, hcall⟩ | ⟨h0, hnone, e, hcall⟩ | ⟨h0, b, hb, hcall⟩ :=
    Paging.mapBlock_cases h (show v < 2 ^ 32 by omega) hp'
  · -- something is in the entry
    rw [mapTouchesOnlyPage_of_failed hcall, if_neg hne]
    constructor
    · rintro ⟨-, hm | hleft⟩
      · exact .inl hm.2
      · exact absurd hleft.1 hne
    · rintro (hpresent | ⟨hz, -⟩)
      · exact ⟨⟨fun _ _ => rfl, fun _ => rfl, rfl⟩, .inl ⟨h.present (by omega) hne, hpresent⟩⟩
      · exact absurd hz hw
  · -- the entry is set
    rw [mapTouchesOnlyPage_of_zero hcall, if_neg hne,
      pageAdded_setEntry_iff h hv hv' hp' hp hne hw, hw]
    simp only [not_present_zero, false_or, true_and]
  · -- there is no frame for a table
    rw [mapTouchesOnlyPage_of_failed hcall, if_pos h0]
    constructor
    · rintro ⟨-, hm | hleft⟩
      · exact absurd (h0 ▸ hm.1) not_present_zero
      · exact ⟨fun b hb => absurd hb (hnone b), fun _ => hleft⟩
    · rintro ⟨-, hleft⟩
      exact ⟨⟨fun _ _ => rfl, fun _ => rfl, rfl⟩, .inr (hleft hnone)⟩
  · rw [if_pos h0]
    have hunique : ∀ c, st.balloc.IsNextFree c → c = b := fun c hc => hc.unique hb
    obtain ⟨hw, hcall⟩ | ⟨hw, hcall⟩ := hcall
    · -- the frame is taken although the call fails
      rw [mapTouchesOnlyPage_of_failed hcall]
      refine iff_of_false ?_ fun hlocal => hw (hlocal.1 b hb).1
      rintro ⟨hunmoved, -⟩
      have hmark : (st.balloc.allocate b).used b = st.balloc.used b := hunmoved.marks b
      rw [Balloc.used_allocate, Balloc.used, hb.2.clear] at hmark
      simp at hmark
    · -- the frame becomes the table
      rw [mapTouchesOnlyPage_of_zero hcall, pageAdded_addTable_iff h hv hv' hp' hp h0 hb hw]
      constructor
      · intro hblank
        refine ⟨?_, fun hno => absurd hb (hno b)⟩
        intro c hc
        rw [hunique c hc]
        exact ⟨hw, hblank⟩
      · intro hlocal
        exact (hlocal.1 b hb).2

/-- The frame that becomes the first table of the lone directory is empty, so a mapping
at four megabytes is local. -/
theorem loneDirectory_local : MapTouchesOnlyPage loneDirectory 0x5000 0x400000 := by
  have h0 : loneDirectory.dirWord (pdirEntry 0x400000) = 0 := loneDirectory_dirWord 1
  have hfree : loneDirectory.balloc.IsNextFree 8 := ⟨by decide, by decide, by decide, by decide⟩
  have hblank : ∀ k, pageWord loneDirectory.phys (8 * 4096) k = 0 := by
    intro k
    exact (Mem.read32_write32_of_disjoint (by omega)).trans rfl
  refine (map_touches_only_page_iff loneDirectory 0x5000 0x400000 loneDirectory_ok (by decide)
    (by decide) (by decide) (by decide)).mpr ?_
  rw [MapIsLocal, if_pos h0]
  refine ⟨?_, fun hno => absurd hfree (hno 8)⟩
  intro b hb
  rw [hb.unique hfree, hblank]
  refine ⟨rfl, fun k _ => ?_⟩
  rw [hblank]
  exact not_present_zero

/-- The lone directory with an old present entry in the frame that is free next. -/
def staleFrame : Paging :=
  { loneDirectory with phys := loneDirectory.phys.write32 (8 * 4096 + 4 * 1) 0x9001 }

theorem staleFrame_dirWord (d : ℕ) (hd : d < 1024) :
    staleFrame.dirWord d = if d = 1023 then 0x2001 else 0 := by
  rw [← loneDirectory_dirWord]
  exact pageWord_write32_of_ne (by decide) (by decide) (by decide) hd (by decide)

theorem staleFrame_ok : staleFrame.Ok := by
  have h0 : ∀ d < 1023, staleFrame.dirWord d = 0 := fun d hd => by
    rw [staleFrame_dirWord d (by omega), if_neg (by omega)]
  have hlast : pageWord staleFrame.phys staleFrame.cr3 1023 = 0x2001 :=
    staleFrame_dirWord 1023 (by decide)
  refine ⟨by decide, by decide, by decide, ?_, fun d hd => .inl (h0 d hd),
    fun d hd hne => absurd (h0 d hd) hne, fun d hd hne => absurd (h0 d hd) hne,
    fun d hd _ _ hne => absurd (h0 d hd) hne, by decide⟩
  rw [Recursive, hlast]
  exact ⟨by decide, by decide⟩

/-- Mapping frame `0x5000` at four megabytes maps the next page too, to whatever the
old entry says. -/
theorem staleFrame_leaks : ¬ MapTouchesOnlyPage staleFrame 0x5000 0x400000 := by
  have h0 : staleFrame.dirWord (pdirEntry 0x400000) = 0 := staleFrame_dirWord 1 (by decide)
  have hfree : staleFrame.balloc.IsNextFree 8 := ⟨by decide, by decide, by decide, by decide⟩
  have hword : ∀ k, pageWord staleFrame.phys (8 * 4096) k = if k = 1 then 0x9001 else 0 := by
    intro k
    refine (pageWord_write32_self loneDirectory.phys (8 * 4096) k 1 0x9001).trans ?_
    split
    · rfl
    · exact (Mem.read32_write32_of_disjoint (by omega)).trans rfl
  have hw : pageWord staleFrame.phys (8 * 4096) (ptableEntry 0x400000) = 0 := hword 0
  have hcall := Paging.mapBlock_of_frame staleFrame_ok (by decide) h0 hfree 0x5000
  rw [if_neg (not_not_intro hw), Paging.or_one (by decide)] at hcall
  rw [mapTouchesOnlyPage_of_zero hcall]
  intro hadded
  refine (pageAdded_addTable_iff staleFrame_ok (by decide) (by decide) (by decide) (by decide) h0
    hfree hw).mp hadded 1 (by decide) ?_
  rw [hword]
  decide

end MissyKernel
