import MissyKernel.Pagemngr

/-!
# The frames under the page tables

`pagemngr_map_block` takes a frame for a table and `pagemngr_unmap_block` gives it
back. Directory, tables and bitmap stay in step over every run: the tables lie in
frames of their own, all marked, none of them is empty, and a frame is released in the
very call that clears the last word of its table, together with the entry that points
at it. Between the calls memory outside the directory and the tables may change, so a
frame that becomes a table may hold anything.

`TablesKept` is the invariant. The lemma for each call says that the call returns, that the
invariant holds after it, and how the frames of the directory and the bitmap moved together
(`FramesFollow`). The run starts with the tables that the boot leaves (`Built.tablesKept`), after
the allocator took the bitmap over.
-/

namespace MissyKernel

/-- A call into the page manager. -/
inductive PagingCall : Type where
  /-- `pagemngr_map_block(p, v)` -/
  | map (p v : ℕ)
  /-- `pagemngr_unmap_block(v)` -/
  | unmap (v : ℕ)

namespace PagingCall

/-- The state after a call; `none` is a fault. -/
def run (st : Paging) : PagingCall → Option Paging
  | map p v => (pagemngrMapBlock st p v).map Prod.snd
  | unmap v => (pagemngrUnmapBlock st v).map Prod.snd

/-- The address a call is about. -/
def address : PagingCall → ℕ
  | map _ v => v
  | unmap v => v

end PagingCall

/-- The states reached from `start` by calls below the window, while memory outside the
directory and the tables changes in any way. -/
inductive PagingReach (start : Paging) : Paging → Prop where
  | start : PagingReach start start
  | call {st st' : Paging} {call : PagingCall} (h : PagingReach start st)
    (hbelow : call.address < 0xffc00000) (hcall : call.run st = some st') :
    PagingReach start st'
  | write {st : Paging} {mem : Mem} (h : PagingReach start st)
    (hdir : ∀ a, st.cr3 ≤ a → a < st.cr3 + 4096 → mem a = st.phys a)
    (htab : ∀ d < 1023, Present (st.dirWord d) →
      ∀ a, st.table d ≤ a → a < st.table d + 4096 → mem a = st.phys a) :
    PagingReach start { st with phys := mem }

/-- What holds of the tables between two calls. -/
structure TablesSound (st : Paging) : Prop where
  /-- they lie in frames of their own -/
  distinct : ∀ d < 1023, ∀ e < 1023, Present (st.dirWord d) → Present (st.dirWord e) →
    st.table d = st.table e → d = e
  /-- which are marked -/
  marked : ∀ d < 1023, Present (st.dirWord d) → st.balloc.used (st.table d / 4096) = true
  /-- and none of them is empty -/
  filled : ∀ d < 1023, Present (st.dirWord d) → ∃ j < 1024, st.entry d j ≠ 0

/-- How the frames of the tables move with a call from `st` to `st'`. -/
structure FramesFollow (st st' : Paging) : Prop where
  /-- a table's frame is given back exactly when no word is left in it -/
  empty : ∀ d < 1023, Present (st.dirWord d) →
    (st'.balloc.used (st.table d / 4096) = false ↔
      ∀ j < 1024, pageWord st'.phys (st.table d) j = 0)
  /-- and exactly when its directory entry goes -/
  entry : ∀ d < 1023, Present (st.dirWord d) →
    (st'.balloc.used (st.table d / 4096) = false ↔ st'.dirWord d = 0)
  /-- no other frame is given back -/
  others : ∀ b, st.balloc.used b = true → st'.balloc.used b = false →
    ∃ d < 1023, Present (st.dirWord d) ∧ st.table d / 4096 = b

/-! ## The invariant -/

/-- The walk works and the tables lie in managed frames, none in frame 0. -/
structure TablesPlaced (st : Paging) : Prop where
  /-- the walk works -/
  ok : st.Ok
  /-- no table is frame 0 -/
  notNull : ∀ d < 1023, st.dirWord d ≠ 0 → st.table d ≠ 0
  /-- the allocator manages the tables -/
  managed : ∀ d < 1023, st.dirWord d ≠ 0 → st.table d / 4096 < st.balloc.totalBlocks

/-- Table `d` holds something. -/
def Filled (st : Paging) (d : ℕ) : Prop := ∃ j < 1024, st.entry d j ≠ 0

/-- The invariant of a run. -/
structure TablesKept (st : Paging) : Prop extends TablesPlaced st where
  /-- no table is empty -/
  filled : ∀ d < 1023, st.dirWord d ≠ 0 → Filled st d

section Step

variable {st st' : Paging} {b d j v w : ℕ}

theorem TablesPlaced.dirWord_ne_zero_iff (h : TablesPlaced st) (hd : d < 1023) :
    Present (st.dirWord d) ↔ st.dirWord d ≠ 0 := by
  constructor
  · intro hp h0
    exact not_present_zero (h0 ▸ hp)
  · intro hne
    exact h.ok.present (by omega) hne

theorem TablesPlaced.eq_of_table_eq {e : ℕ} (h : TablesPlaced st) (hd : d < 1023) (he : e < 1023)
    (hne : st.dirWord d ≠ 0) (hne' : st.dirWord e ≠ 0) (htab : st.table d = st.table e) : d = e :=
  h.ok.distinct d hd e he hne hne' htab (h.notNull d hd hne)

theorem TablesKept.sound (h : TablesKept st) : TablesSound st := by
  refine ⟨?_, ?_, ?_⟩
  · intro d hd e he hp hp'
    exact h.eq_of_table_eq hd he ((h.dirWord_ne_zero_iff hd).mp hp)
      ((h.dirWord_ne_zero_iff he).mp hp')
  · intro d hd hp
    have hne := (h.dirWord_ne_zero_iff hd).mp hp
    exact h.ok.tableMarked d hd hne (h.notNull d hd hne)
  · intro d hd hp
    exact h.filled d hd ((h.dirWord_ne_zero_iff hd).mp hp)

/-- A table that was left alone still holds something. -/
theorem TablesKept.filled_of_same (h : TablesKept st) (hd : d < 1023) (hne : st.dirWord d ≠ 0)
    (hsame : ∀ k < 1024, st'.entry d k = st.entry d k) : Filled st' d := by
  obtain ⟨j, hj, hword⟩ := h.filled d hd hne
  refine ⟨j, hj, ?_⟩
  rw [hsame j hj]
  exact hword

/-- Setting an entry leaves the tables where they are. -/
theorem TablesPlaced.setEntry (h : TablesPlaced st) (hd : d < 1023) (hne : st.dirWord d ≠ 0)
    (hj : j < 1024) (w : ℕ) : TablesPlaced (st.setEntry d j w) := by
  have hap := h.ok.apart d hd hne
  refine ⟨h.ok.setEntry hd hne hj w, ?_, ?_⟩
  · intro e he
    rw [Paging.dirWord_setEntry h.ok.aligned hap hj (by omega),
      Paging.table_setEntry h.ok.aligned hap hj (by omega)]
    exact h.notNull e he
  · intro e he
    rw [Paging.dirWord_setEntry h.ok.aligned hap hj (by omega),
      Paging.table_setEntry h.ok.aligned hap hj (by omega)]
    exact h.managed e he

/-- The entries of the other tables are as they were. -/
theorem TablesPlaced.entry_setEntry_of_ne {e k : ℕ} (h : TablesPlaced st) (hd : d < 1023)
    (hne : st.dirWord d ≠ 0) (hj : j < 1024) (he : e < 1023) (hne' : st.dirWord e ≠ 0)
    (hk : k < 1024) (hed : e ≠ d) : (st.setEntry d j w).entry e k = st.entry e k := by
  rw [Paging.entry_setEntry h.ok.aligned (h.ok.apart d hd hne) hj (by omega) hk, if_neg]
  rintro ⟨htab, -⟩
  exact hed (h.eq_of_table_eq he hd hne' hne htab)

theorem TablesPlaced.entry_setEntry_self (h : TablesPlaced st) (hd : d < 1023)
    (hne : st.dirWord d ≠ 0) (hj : j < 1024) : (st.setEntry d j w).entry d j = w % 2 ^ 32 := by
  rw [Paging.entry_setEntry h.ok.aligned (h.ok.apart d hd hne) hj (by omega) hj,
    if_pos ⟨rfl, rfl⟩]

/-- Setting an entry keeps the invariant if the table of the entry holds something
afterwards. -/
theorem TablesKept.setEntry (h : TablesKept st) (hd : d < 1023) (hne : st.dirWord d ≠ 0)
    (hj : j < 1024) (hfilled : Filled (st.setEntry d j w) d) : TablesKept (st.setEntry d j w) := by
  refine ⟨h.toTablesPlaced.setEntry hd hne hj w, ?_⟩
  intro e he hne'
  rw [Paging.dirWord_setEntry h.ok.aligned (h.ok.apart d hd hne) hj (by omega)] at hne'
  rcases eq_or_ne e d with rfl | hed
  · exact hfilled
  · exact h.filled_of_same he hne' fun k hk =>
      h.toTablesPlaced.entry_setEntry_of_ne hd hne hj he hne' hk hed

/-- A new table lies in a frame that the allocator manages. -/
theorem TablesPlaced.addTable (h : TablesPlaced st) (hd : d < 1023)
    (hb : st.balloc.IsNextFree b) : TablesPlaced (st.addTable d b) := by
  have hlt := hb.2.lt
  refine ⟨Paging.Ok.addTable h.ok hd hb, ?_, ?_⟩
  · intro e he
    rw [Paging.dirWord_addTable h.ok hb, Paging.table_addTable h.ok hb]
    split
    · have hpos := hb.1
      omega
    · exact h.notNull e he
  · intro e he
    rw [Paging.dirWord_addTable h.ok hb, Paging.table_addTable h.ok hb]
    change _ → _ < st.balloc.totalBlocks
    split
    · omega
    · exact h.managed e he

/-- Taking a table keeps the invariant of the others. -/
theorem TablesKept.filled_addTable {e : ℕ} (h : TablesKept st) (hd : d < 1023)
    (hb : st.balloc.IsNextFree b) (he : e < 1023) (hed : e ≠ d)
    (hne : (st.addTable d b).dirWord e ≠ 0) : Filled (st.addTable d b) e := by
  rw [Paging.dirWord_addTable h.ok hb, if_neg hed] at hne
  exact h.filled_of_same he hne fun k hk =>
    Paging.entry_addTable_of_ne h.ok hd hk hed (h.ok.apart e he hne)

/-- Giving a table back leaves the others where they are. -/
theorem TablesKept.dropTable (h : TablesPlaced st) (hd : d < 1023) (hne : st.dirWord d ≠ 0)
    (hfilled : ∀ e < 1023, e ≠ d → st.dirWord e ≠ 0 → Filled st e) :
    TablesKept (st.dropTable d) := by
  have htab : ∀ e, e ≠ d → (st.dropTable d).table e = st.table e := by
    intro e hed
    rw [Paging.table, Paging.dirWord_dropTable, if_neg hed]
    rfl
  have hkeep : ∀ e, (st.dropTable d).dirWord e ≠ 0 → e ≠ d ∧ st.dirWord e ≠ 0 := by
    intro e
    rw [Paging.dirWord_dropTable]
    split
    · intro h0
      exact absurd rfl h0
    · intro hne'
      exact ⟨by assumption, hne'⟩
  have htotal : (st.dropTable d).balloc.totalBlocks = st.balloc.totalBlocks :=
    st.balloc.deallocateBlock_totalBlocks _
  refine ⟨⟨h.ok.dropTable hd hne, ?_, ?_⟩, ?_⟩
  · intro e he hne'
    obtain ⟨hed, hne'⟩ := hkeep e hne'
    rw [htab e hed]
    exact h.notNull e he hne'
  · intro e he hne'
    obtain ⟨hed, hne'⟩ := hkeep e hne'
    rw [htab e hed, htotal]
    exact h.managed e he hne'
  · intro e he hne'
    obtain ⟨hed, hne'⟩ := hkeep e hne'
    obtain ⟨k, hk, hword⟩ := hfilled e he hed hne'
    refine ⟨k, hk, ?_⟩
    rw [Paging.entry_dropTable h.ok.aligned (by omega) hk hed (h.ok.apart e he hne')]
    exact hword

/-- The invariant is in the directory and the tables. -/
theorem TablesKept.write {mem : Mem} (h : TablesKept st)
    (hdir : ∀ a, st.cr3 ≤ a → a < st.cr3 + 4096 → mem a = st.phys a)
    (htab : ∀ d < 1023, Present (st.dirWord d) →
      ∀ a, st.table d ≤ a → a < st.table d + 4096 → mem a = st.phys a) :
    TablesKept { st with phys := mem } := by
  have hword : ∀ d < 1024, ({ st with phys := mem } : Paging).dirWord d = st.dirWord d :=
    fun d hd => pageWord_congr hd hdir
  have htable : ∀ d < 1024, ({ st with phys := mem } : Paging).table d = st.table d := by
    intro d hd
    rw [Paging.table, hword d hd]
    rfl
  have hentry : ∀ d < 1023, st.dirWord d ≠ 0 → ∀ j < 1024,
      ({ st with phys := mem } : Paging).entry d j = st.entry d j := by
    intro d hd hne j hj
    rw [Paging.entry, htable d (by omega)]
    exact pageWord_congr hj (htab d hd ((h.dirWord_ne_zero_iff hd).mpr hne))
  refine ⟨⟨⟨h.ok.aligned, h.ok.notNull, h.ok.marked, ?_, ?_, ?_, ?_, ?_, h.ok.blocks⟩, ?_, ?_⟩, ?_⟩
  · have hlast := hword 1023 (by decide)
    rw [Paging.dirWord] at hlast
    rw [Recursive, hlast]
    exact h.ok.recursive
  · intro d hd
    rw [hword d (by omega)]
    exact h.ok.presence d hd
  · intro d hd
    rw [hword d (by omega), htable d (by omega)]
    exact h.ok.apart d hd
  · intro d hd
    rw [hword d (by omega), htable d (by omega)]
    exact h.ok.tableMarked d hd
  · intro d hd e he
    rw [hword d (by omega), htable d (by omega), hword e (by omega), htable e (by omega)]
    exact h.ok.distinct d hd e he
  · intro d hd
    rw [hword d (by omega), htable d (by omega)]
    exact h.notNull d hd
  · intro d hd
    rw [hword d (by omega), htable d (by omega)]
    exact h.managed d hd
  · intro d hd hne
    rw [hword d (by omega)] at hne
    exact h.filled_of_same hd hne (hentry d hd hne)

/-! ## One call -/

/-- A call that gives nothing back. -/
theorem FramesFollow.of_kept (h : TablesKept st) (h' : TablesKept st')
    (hdir : ∀ d < 1023, st.dirWord d ≠ 0 → st'.dirWord d = st.dirWord d)
    (hmarks : ∀ b, st.balloc.used b = true → st'.balloc.used b = true) : FramesFollow st st' := by
  have hmarked : ∀ d < 1023, Present (st.dirWord d) →
      ¬ st'.balloc.used (st.table d / 4096) = false := by
    intro d hd hp
    rw [hmarks _ (h.sound.marked d hd hp)]
    simp
  refine ⟨?_, ?_, ?_⟩
  · intro d hd hp
    have hne := (h.dirWord_ne_zero_iff hd).mp hp
    have hsame := hdir d hd hne
    refine iff_of_false (hmarked d hd hp) ?_
    intro hzero
    obtain ⟨j, hj, hword⟩ := h'.filled d hd (by rw [hsame]; exact hne)
    rw [Paging.entry, Paging.table, hsame] at hword
    exact hword (hzero j hj)
  · intro d hd hp
    have hne := (h.dirWord_ne_zero_iff hd).mp hp
    refine iff_of_false (hmarked d hd hp) ?_
    rw [hdir d hd hne]
    exact hne
  · intro b hb hb'
    rw [hmarks b hb] at hb'
    cases hb'

/-- A new table that holds something. -/
theorem TablesKept.addTable (h : TablesKept st) (hd : d < 1023) (hb : st.balloc.IsNextFree b)
    (hj : j < 1024) (hw : pageWord st.phys (b * 4096) j ≠ 0) : TablesKept (st.addTable d b) := by
  refine ⟨h.toTablesPlaced.addTable hd hb, ?_⟩
  intro e he hne
  rcases eq_or_ne e d with rfl | hed
  · refine ⟨j, hj, ?_⟩
    rw [Paging.entry_addTable_self h.ok hd hb hj]
    exact hw
  · exact h.filled_addTable hd hb he hed hne

/-- A new table whose entry is set. -/
theorem TablesKept.addTable_setEntry (h : TablesKept st) (hd : d < 1023)
    (hb : st.balloc.IsNextFree b) (hj : j < 1024) (hw : w % 2 ^ 32 ≠ 0) :
    TablesKept ((st.addTable d b).setEntry d j w) := by
  have hplaced := h.toTablesPlaced.addTable hd hb
  have hne : (st.addTable d b).dirWord d ≠ 0 := by
    rw [Paging.dirWord_addTable h.ok hb, if_pos rfl]
    exact Nat.succ_ne_zero _
  refine ⟨hplaced.setEntry hd hne hj _, ?_⟩
  intro e he hne'
  rw [Paging.dirWord_setEntry hplaced.ok.aligned (hplaced.ok.apart _ hd hne) hj (by omega)] at hne'
  rcases eq_or_ne e d with rfl | hed
  · refine ⟨j, hj, ?_⟩
    rw [hplaced.entry_setEntry_self hd hne hj]
    exact hw
  · obtain ⟨k, hk, hfilled⟩ := h.filled_addTable hd hb he hed hne'
    refine ⟨k, hk, ?_⟩
    rw [hplaced.entry_setEntry_of_ne hd hne hj he hne' hk hed]
    exact hfilled

/-- A mapping keeps the invariant and gives nothing back. -/
theorem TablesKept.mapBlock (h : TablesKept st) (hv : v < 0xffc00000) (p : ℕ) :
    ∃ r st', pagemngrMapBlock st p v = some (r, st') ∧ TablesKept st' ∧ FramesFollow st st' := by
  have hd : pdirEntry v < 1023 := by
    rw [pdirEntry_eq]
    omega
  have hj := Paging.ptableEntry_lt v
  have hword : (p ||| 0x1) % 2 ^ 32 ≠ 0 := by
    have hodd : (p ||| 0x1) % 2 = 1 := by
      simp
    omega
  obtain ⟨-, -, hcall⟩ | ⟨hne, -, hcall⟩ | ⟨-, -, e, hcall⟩ | ⟨h0, b, hb, hcall⟩ :=
    Paging.mapBlock_cases_any h.ok (show v < 2 ^ 32 by omega) p
  · exact ⟨_, _, hcall, h, .of_kept h h (fun _ _ _ => rfl) fun _ hb => hb⟩
  · -- the entry is set
    have hkept : TablesKept (st.setEntry (pdirEntry v) (ptableEntry v) (p ||| 0x1)) := by
      refine h.setEntry hd hne hj ⟨ptableEntry v, hj, ?_⟩
      rw [h.toTablesPlaced.entry_setEntry_self hd hne hj]
      exact hword
    refine ⟨_, _, hcall, hkept, .of_kept h hkept ?_ fun _ hb => hb⟩
    intro e he _
    exact Paging.dirWord_setEntry h.ok.aligned (h.ok.apart _ hd hne) hj (by omega)
  · -- no frame for a table
    have hkept : TablesKept (st.setBalloc { st.balloc with errno := e }) :=
      ⟨⟨h.ok.setBalloc rfl h.ok.marked h.ok.tableMarked, h.notNull, h.managed⟩, h.filled⟩
    exact ⟨_, _, hcall, hkept, .of_kept h hkept (fun _ _ _ => rfl) fun _ hb => hb⟩
  · have hdir : ∀ e < 1023, st.dirWord e ≠ 0 →
        (st.addTable (pdirEntry v) b).dirWord e = st.dirWord e := by
      intro e _ hne'
      rw [Paging.dirWord_addTable h.ok hb, if_neg]
      rintro rfl
      exact hne' h0
    have hmarks : ∀ c, st.balloc.used c = true →
        (st.addTable (pdirEntry v) b).balloc.used c = true := by
      intro c hc
      change (st.balloc.allocate b).used c = true
      rw [Balloc.used_allocate, hc, Bool.true_or]
    obtain ⟨hw, hcall⟩ | ⟨-, hcall⟩ := hcall
    · -- what the new table holds is in the way
      have hkept := h.addTable hd hb hj hw
      exact ⟨_, _, hcall, hkept, .of_kept h hkept hdir hmarks⟩
    · -- the new table's entry is set
      have hkept := h.addTable_setEntry hd hb hj hword
      have hplaced := h.toTablesPlaced.addTable hd hb
      have hne : (st.addTable (pdirEntry v) b).dirWord (pdirEntry v) ≠ 0 := by
        rw [Paging.dirWord_addTable h.ok hb, if_pos rfl]
        exact Nat.succ_ne_zero _
      refine ⟨_, _, hcall, hkept, .of_kept h hkept ?_ hmarks⟩
      intro e he hne'
      rw [Paging.dirWord_setEntry hplaced.ok.aligned (hplaced.ok.apart _ hd hne) hj (by omega)]
      exact hdir e he hne'

/-- Giving back a table that is empty. -/
theorem FramesFollow.dropTable (h : TablesPlaced st) (h' : TablesKept (st.dropTable d))
    (hd : d < 1023) (hne : st.dirWord d ≠ 0) (hempty : st.TableEmpty d)
    (hmarks : ∀ e < 1023, st.dirWord e ≠ 0 → st.balloc.used (st.table e / 4096) = true) :
    FramesFollow st (st.dropTable d) := by
  have hframe : st.dirWord d / 4096 = st.table d / 4096 := by
    rw [Paging.table, entryFrame, Nat.mul_div_cancel _ (by decide)]
  have hmanaged := h.managed d hd hne
  have hused : ∀ b, (st.dropTable d).balloc.used b =
      (st.balloc.used b && !decide (b = st.table d / 4096)) := by
    intro b
    have hcall := Balloc.used_deallocateBlock st.balloc (st.dirWord d) b
    rw [hframe] at hcall
    rw [decide_eq_true hmanaged, Bool.true_and] at hcall
    exact hcall
  -- the other tables lie in other frames
  have hother : ∀ e < 1023, e ≠ d → st.dirWord e ≠ 0 →
      ¬ (st.dropTable d).balloc.used (st.table e / 4096) = false := by
    intro e he hed hne'
    have hframes : st.table e / 4096 ≠ st.table d / 4096 := by
      intro heq
      have := st.table_aligned e
      have := st.table_aligned d
      exact hed (h.eq_of_table_eq he hd hne' hne (by omega))
    rw [hused, hmarks e he hne']
    simp [hframes]
  have hself : (st.dropTable d).balloc.used (st.table d / 4096) = false := by
    rw [hused]
    simp
  refine ⟨?_, ?_, ?_⟩
  · intro e he hp
    have hne' := (h.dirWord_ne_zero_iff he).mp hp
    rcases eq_or_ne e d with rfl | hed
    · refine iff_of_true hself ?_
      intro j hj
      refine (pageWord_write32_of_ne h.ok.aligned (st.table_aligned e) (h.ok.apart e he hne) hj
        (by omega)).trans ?_
      exact hempty j hj
    · refine iff_of_false (hother e he hed hne') ?_
      intro hzero
      have hsame : (st.dropTable d).dirWord e = st.dirWord e := by
        rw [Paging.dirWord_dropTable, if_neg hed]
      obtain ⟨j, hj, hword⟩ := h'.filled e he (by rw [hsame]; exact hne')
      rw [Paging.entry, Paging.table, hsame] at hword
      exact hword (hzero j hj)
  · intro e he hp
    have hne' := (h.dirWord_ne_zero_iff he).mp hp
    rw [Paging.dirWord_dropTable]
    rcases eq_or_ne e d with rfl | hed
    · exact iff_of_true hself (if_pos rfl)
    · rw [if_neg hed]
      exact iff_of_false (hother e he hed hne') hne'
  · intro b hb hb'
    refine ⟨d, hd, (h.dirWord_ne_zero_iff hd).mpr hne, ?_⟩
    rw [hused, hb, Bool.true_and, Bool.not_eq_false', decide_eq_true_iff] at hb'
    exact hb'.symm

/-- The frames are named by the directory before the call. -/
theorem FramesFollow.congr_left {st₁ : Paging} (h : FramesFollow st₁ st')
    (hdir : ∀ d < 1023, st₁.dirWord d = st.dirWord d) (hballoc : st₁.balloc = st.balloc) :
    FramesFollow st st' := by
  have htab : ∀ d < 1023, st₁.table d = st.table d := by
    intro d hd
    rw [Paging.table, hdir d hd]
    rfl
  refine ⟨?_, ?_, ?_⟩
  · intro d hd
    rw [← hdir d hd, ← htab d hd]
    exact h.empty d hd
  · intro d hd
    rw [← hdir d hd, ← htab d hd]
    exact h.entry d hd
  · intro b
    rw [← hballoc]
    intro hb hb'
    obtain ⟨d, hd, hp, hframe⟩ := h.others b hb hb'
    rw [hdir d hd] at hp
    rw [htab d hd] at hframe
    exact ⟨d, hd, hp, hframe⟩

/-- An unmapping keeps the invariant, and gives a table back with its last word. -/
theorem TablesKept.unmapBlock (h : TablesKept st) (hv : v < 0xffc00000) :
    ∃ q st', pagemngrUnmapBlock st v = some (q, st') ∧ TablesKept st' ∧ FramesFollow st st' := by
  have hd : pdirEntry v < 1023 := by
    rw [pdirEntry_eq]
    omega
  have hj := Paging.ptableEntry_lt v
  by_cases hmapped : st.Mapped v
  swap
  · refine ⟨_, _, Paging.unmapBlock_of_unmapped h.ok (by omega) hmapped, h, ?_⟩
    exact .of_kept h h (fun _ _ _ => rfl) fun _ hb => hb
  have hne := (h.dirWord_ne_zero_iff hd).mp hmapped.1
  have hap := h.ok.apart _ hd hne
  have hplaced := h.toTablesPlaced.setEntry hd hne hj 0
  have hdir : ∀ e < 1023, (st.setEntry (pdirEntry v) (ptableEntry v) 0).dirWord e =
      st.dirWord e := by
    intro e he
    exact Paging.dirWord_setEntry h.ok.aligned hap hj (by omega)
  obtain ⟨hfilled, hcall⟩ | ⟨hempty, hcall⟩ :=
    Paging.unmapBlock_of_mapped h.ok (show v < 2 ^ 32 by omega) hmapped.1 hmapped.2 (by omega)
  · -- other words are left
    have hleft : Filled (st.setEntry (pdirEntry v) (ptableEntry v) 0) (pdirEntry v) := by
      by_contra hnone
      refine hfilled ?_
      intro k hk
      by_contra hword
      exact hnone ⟨k, hk, hword⟩
    have hkept := h.setEntry hd hne hj hleft
    exact ⟨_, _, hcall, hkept, .of_kept h hkept (fun e he _ => hdir e he) fun _ hb => hb⟩
  · -- the table goes with its last word
    have hne' : (st.setEntry (pdirEntry v) (ptableEntry v) 0).dirWord (pdirEntry v) ≠ 0 := by
      rw [hdir _ hd]
      exact hne
    have hothers : ∀ e < 1023, e ≠ pdirEntry v →
        (st.setEntry (pdirEntry v) (ptableEntry v) 0).dirWord e ≠ 0 →
        Filled (st.setEntry (pdirEntry v) (ptableEntry v) 0) e := by
      intro e he hed hne''
      rw [hdir e he] at hne''
      exact h.filled_of_same he hne'' fun k hk =>
        h.toTablesPlaced.entry_setEntry_of_ne hd hne hj he hne'' hk hed
    have hkept := TablesKept.dropTable hplaced hd hne' hothers
    refine ⟨_, _, hcall, hkept, ?_⟩
    refine (FramesFollow.dropTable hplaced hkept hd hne' hempty ?_).congr_left hdir rfl
    intro e he hne''
    exact hplaced.ok.tableMarked e he hne'' (hplaced.notNull e he hne'')

/-- Every call below the window returns. -/
theorem TablesKept.call (h : TablesKept st) {call : PagingCall}
    (hbelow : call.address < 0xffc00000) :
    ∃ st', call.run st = some st' ∧ TablesKept st' ∧ FramesFollow st st' := by
  cases call with
  | map p v =>
    have hbelow : v < 0xffc00000 := hbelow
    obtain ⟨r, st', hcall, hkept, hfollow⟩ := h.mapBlock hbelow p
    exact ⟨st', by rw [PagingCall.run, hcall]; rfl, hkept, hfollow⟩
  | unmap v =>
    have hbelow : v < 0xffc00000 := hbelow
    obtain ⟨q, st', hcall, hkept, hfollow⟩ := h.unmapBlock hbelow
    exact ⟨st', by rw [PagingCall.run, hcall]; rfl, hkept, hfollow⟩

/-- The invariant holds along a run. -/
theorem PagingReach.kept {start : Paging} (hstart : TablesKept start) (h : PagingReach start st) :
    TablesKept st := by
  induction h with
  | start => exact hstart
  | call _ hbelow hcall ih =>
    obtain ⟨st', hres, hkept, -⟩ := ih.call hbelow
    rw [hres] at hcall
    cases hcall
    exact hkept
  | write _ hdir htab ih => exact ih.write hdir htab

end Step

/-! ## From the boot directory on -/

/-- The kernel starts on the boot's directory, with a frame allocator of its own. -/
def kernelStart (bp : BootPaging) (balloc : Balloc) : Paging where
  phys := bp.early.mem
  cr3 := bp.pageDirectory
  balloc := balloc

/-- The allocator manages at most four gigabytes, and the frames of the directory and the
tables are among the marked ones. -/
structure BootMarked (bp : BootPaging) (balloc : Balloc) : Prop where
  /-- block numbers have 20 bits -/
  blocks : balloc.totalBlocks ≤ 2 ^ 20
  /-- the four frames are marked -/
  marked : ∀ p ∈ [bp.pageDirectory, bp.firstPagetable, bp.kernelPagetable, bp.kernelStackMap],
    balloc.used (p / 4096) = true ∧ p / 4096 < balloc.totalBlocks

/-- None of the boot's tables is empty. -/
theorem BootFilled.not_empty {bp : BootPaging} {frame : ℕ} (h : BootFilled bp frame)
    (hkernel : 0xc0100000 < bp.kernelEndVirtual) :
    ∀ t ∈ [bp.firstPagetable, bp.kernelPagetable, bp.kernelStackMap],
      ∃ j < 1024, pageWord bp.early.mem t j ≠ 0 := by
  intro t ht
  simp only [List.mem_cons, List.not_mem_nil, or_false] at ht
  rcases ht with rfl | rfl | rfl
  · refine ⟨0, by decide, ?_⟩
    rw [h.megabyte 0 (by decide)]
    decide
  · obtain ⟨f, hf, hwords⟩ := h.kernel
    obtain ⟨j, hj, hne⟩ := hwords.filled hkernel
    refine ⟨j, hj, ?_⟩
    rw [hf j hj]
    exact hne
  · refine ⟨1023, by decide, ?_⟩
    rw [h.stack 1023 (by decide), stackWords, if_pos rfl]
    omega

/-- The boot leaves the invariant behind. -/
theorem Built.tablesKept {image : KernelImage} {api : MultibootApi} {old : Kmemlow}
    {live : List ℕ} {bp : BootPaging} {frame : ℕ} {words : ℕ → ℕ → ℕ}
    (hb : Built image api old live bp.early (bootFrames bp frame) words)
    (hfilled : BootFilled bp frame) (hkernel : 0xc0100000 < bp.kernelEndVirtual)
    {balloc : Balloc} (hmarked : BootMarked bp balloc) : TablesKept (kernelStart bp balloc) := by
  have hok := hb.bootPaging_ok hfilled .start
  have hframes := fun t => mem_bootFrames_of_table (t := t) (List.nodup_append.mp hb.nodup).1
  -- an entry in use points at one of the three tables
  have htable : ∀ d < 1023, (kernelStart bp balloc).dirWord d ≠ 0 →
      (kernelStart bp balloc).table d ∈
        [bp.firstPagetable, bp.kernelPagetable, bp.kernelStackMap] := by
    intro d hd hne
    have hword : (kernelStart bp balloc).dirWord d = directoryWords bp d :=
      hfilled.directory d (by omega)
    rw [hword] at hne
    obtain ⟨t, ht, hdt⟩ := (directoryWords_cases bp hd).resolve_left hne
    have halign := (hb.page (hframes t ht).1).1
    rw [Paging.table, hword, hdt, entryFrame_add halign (by decide)]
    exact ht
  have hmark : ∀ d < 1023, (kernelStart bp balloc).dirWord d ≠ 0 →
      balloc.used ((kernelStart bp balloc).table d / 4096) = true ∧
        (kernelStart bp balloc).table d / 4096 < balloc.totalBlocks := by
    intro d hd hne
    exact hmarked.marked _ (List.mem_cons_of_mem _ (htable d hd hne))
  have hmarkedOk : (kernelStart bp balloc).Ok :=
    ⟨hok.aligned, hok.notNull, (hmarked.marked _ List.mem_cons_self).1, hok.recursive, hok.presence,
      hok.apart, fun d hd hne _ => (hmark d hd hne).1, hok.distinct, hmarked.blocks⟩
  refine ⟨⟨hmarkedOk, ?_, fun d hd hne => (hmark d hd hne).2⟩, ?_⟩
  · intro d hd hne h0
    have hmem := htable d hd hne
    rw [h0] at hmem
    exact hb.ne_zero (hframes 0 hmem).1 rfl
  · intro d hd hne
    exact hfilled.not_empty hkernel _ (htable d hd hne)

/-- **Page-table frames are neither leaked nor released early.** From the boot directory on,
however the calls are ordered: the tables lie in frames of their own, marked and not empty, every
call returns, and it gives a table's frame back exactly when it clears the table's last word,
together with the directory entry.

The invariant is `TablesKept`, and each of the two calls keeps it (`TablesKept.mapBlock`,
`TablesKept.unmapBlock`). That no table is empty is what makes the release exact: a table is given
back in the call that clears its last word, and there is no other way for a word to be cleared. -/
theorem table_frames_kept (image : KernelImage) (api : MultibootApi) (old : Kmemlow)
    (live : List ℕ) (h : BootReach image api (.early old live))
    (hok : (kiSetupPaging (.start old)).1 = 0)
    (hkernel : (kmemlowLayout image api).kernelEndPhysical < 2 ^ 30) (balloc : Balloc)
    (hmarked : BootMarked (kiSetupPaging (.start old)).2 balloc) (st : Paging)
    (hst : PagingReach (kernelStart (kiSetupPaging (.start old)).2 balloc) st) :
    TablesSound st ∧ ∀ call : PagingCall, call.address < 0xffc00000 →
      ∃ st', call.run st = some st' ∧ TablesSound st' ∧ FramesFollow st st' := by
  obtain ⟨-, hfail⟩ | ⟨bp, frame, words, hres, hkend, hb, hfilled⟩ := kiSetupPaging_cases h
  · rw [hok] at hfail
    cases hfail
  rw [hres] at hmarked hst
  have hlow := (kernelBlocks_bounds image api).1
  have hkendpage := kernelBlocks_eq image api
  have hstart := hb.tablesKept hfilled (by omega) hmarked
  have hkept := hst.kept hstart
  refine ⟨hkept.sound, ?_⟩
  intro call hbelow
  obtain ⟨st', hcall, hkept', hfollow⟩ := hkept.call hbelow
  exact ⟨st', hcall, hkept'.sound, hfollow⟩

/-- The 64 MiB machine as the kernel takes over, with the bitmap of the early allocator. -/
def pcKernelStart : Paging :=
  kernelStart (kiSetupPaging (.start pcBoot)).2
    (handOver (kiSetupPaging (.start pcBoot)).2.early .start)

/-- The 64 MiB machine, and every first call of its kernel. -/
theorem table_frames_kept_pc :
    TablesSound pcKernelStart ∧ ∀ call : PagingCall, call.address < 0xffc00000 →
      ∃ st', call.run pcKernelStart = some st' ∧ TablesSound st' ∧
        FramesFollow pcKernelStart st' := by
  have hmarked : BootMarked (kiSetupPaging (.start pcBoot)).2
      (handOver (kiSetupPaging (.start pcBoot)).2.early .start) := by
    obtain ⟨-, hfail⟩ | ⟨bp, frame, words, hres, -, hb, -⟩ := kiSetupPaging_cases pcBoot_reach
    · rw [pcBoot_setup.1] at hfail
      cases hfail
    rw [hres]
    have htotal := kmemlowLayout_totalBlocks_lt smallImage pcApi
    refine ⟨?_, ?_⟩
    · change bp.early.layout.totalBlocks ≤ _
      rw [hb.layout]
      omega
    · intro p hp
      have hmem : p ∈ bootFrames bp frame := by
        simp only [List.mem_cons, List.not_mem_nil, or_false] at hp
        rcases hp with rfl | rfl | rfl | rfl <;> simp [bootFrames]
      have hown := (FrameState.inv_of_reach hb.reach).2
      refine ⟨hown.marked p (List.mem_append_left _ hmem), ?_⟩
      change _ < bp.early.layout.totalBlocks
      rw [hb.layout]
      exact (hown.page p (List.mem_append_left _ hmem)).2.2
  exact table_frames_kept smallImage pcApi pcBoot [] pcBoot_reach pcBoot_setup.1 (by decide) _
    hmarked pcKernelStart .start

end MissyKernel
