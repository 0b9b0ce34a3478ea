import MissyKernel.FlatMemory
import MissyKernel.HeapBreak
import MissyKernel.PageLocality

/-!
# The heap as memory

The kernel stores into its heap through the page tables, and raises the break in between. What
is mapped below the window on the tables lies in frames of its own (`Paging.Apart`), so that a
store changes one byte of what the kernel sees and no table. A growth that is supplied writes
into the directory and the tables only, and takes frames that were free, so that everything
that was mapped stays where it is and holds what it held (`Paging.Grows`).

`heapSteps` is the instance of the rule of `FlatMemory`; its invariant `HeapKept` says that the
heap's invariant holds, that what is mapped lies apart, and that pages were only added since the
start. `HeapInv.call_kept` is the hard part of it: the pages that a growth adds, and the tables
it needs for them, are all on frames that nothing was mapped to.
-/

namespace MissyKernel

namespace Paging

/-- What is mapped below the window lies in marked frames other than the directory's and the
tables', and no byte of them is mapped twice. -/
structure Apart (st : Paging) : Prop where
  /-- the frames are marked -/
  marked : ∀ v < 0xffc00000, ∀ p, translate st.phys st.cr3 v = some p →
    st.balloc.used (p / 4096) = true
  /-- none is the directory -/
  notDirectory : ∀ v < 0xffc00000, ∀ p, translate st.phys st.cr3 v = some p →
    p / 4096 * 4096 ≠ st.cr3
  /-- none is a table -/
  notTable : ∀ v < 0xffc00000, ∀ p, translate st.phys st.cr3 v = some p →
    ∀ d < 1023, st.dirWord d ≠ 0 → st.table d ≠ p / 4096 * 4096
  /-- nothing is mapped twice -/
  injective : ∀ v < 0xffc00000, ∀ w < 0xffc00000, ∀ p, translate st.phys st.cr3 v = some p →
    translate st.phys st.cr3 w = some p → v = w

/-- Pages were added below the window, on frames that were free. -/
structure Extends (st st' : Paging) : Prop where
  /-- what was mapped is where it was -/
  maps : ∀ v < 0xffc00000, ∀ p, translate st.phys st.cr3 v = some p →
    translate st'.phys st'.cr3 v = some p
  /-- what was not is on a frame that was free -/
  fresh : ∀ v < 0xffc00000, ∀ p, translate st'.phys st'.cr3 v = some p →
    translate st.phys st.cr3 v = some p ∨ st.balloc.used (p / 4096) = false
  /-- what was marked stays marked -/
  marks : ∀ b, st.balloc.used b = true → st'.balloc.used b = true

/-- Pages were added, and what was mapped holds what it held. -/
structure Grows (st st' : Paging) : Prop extends Extends st st' where
  /-- the bytes -/
  bytes : ∀ v < 0xffc00000, ∀ p, translate st.phys st.cr3 v = some p → st'.phys p = st.phys p

/-- Outside the directory and the tables, memory is as it was. -/
def TablesOnly (st st' : Paging) : Prop :=
  ∀ a, a / 4096 * 4096 ≠ st.cr3 →
    (∀ d < 1023, st'.dirWord d ≠ 0 → st'.table d ≠ a / 4096 * 4096) → st'.phys a = st.phys a

/-- Store a byte. -/
def storeByte (st : Paging) (p : ℕ) (x : BitVec 8) : Paging :=
  { st with phys := st.phys.write8 p x }

end Paging

namespace Heap

/-- The byte that the kernel sees at an address below the window. -/
def seen (st : Heap) (v : ℕ) : Option (BitVec 8) :=
  if v < 0xffc00000 then (translate st.paging.phys st.paging.cr3 v).map st.paging.phys else none

/-- Store a byte at the physical address `p`. -/
def storeByte (st : Heap) (p : ℕ) (x : BitVec 8) : Heap :=
  { st with paging := st.paging.storeByte p x }

end Heap

/-- What the kernel does with its heap: calls of `brk` and `sbrk` that are supplied, and stores
into heap pages that are mapped. -/
inductive HeapStep : Heap → MemoryEvent ℕ (BitVec 8) HeapCall → Heap → Prop where
  | call {st st' : Heap} {c : HeapCall} {ok : Bool} :
    CallSupplied st c → c.run st = some (ok, st') → HeapStep st (.other c) st'
  | store {st : Heap} {v p : ℕ} (x : BitVec 8) :
    st.heapBase ≤ v → v < kernelStackMapping →
    translate st.paging.phys st.paging.cr3 v = some p → HeapStep st (.store v x) (st.storeByte p x)

namespace Paging

variable {st st' st'' : Paging} {b v w p : ℕ} {x : BitVec 8}

theorem Extends.refl (st : Paging) : st.Extends st :=
  ⟨fun _ _ _ h => h, fun _ _ _ h => .inl h, fun _ h => h⟩

theorem Extends.trans (h : st.Extends st') (h' : st'.Extends st'') : st.Extends st'' where
  maps v hv p htr := h'.maps v hv p (h.maps v hv p htr)
  fresh v hv p htr := by
    obtain htr' | hfree := h'.fresh v hv p htr
    · exact h.fresh v hv p htr'
    · refine .inr ?_
      cases hused : st.balloc.used (p / 4096) with
      | false => rfl
      | true =>
        rw [h.marks _ hused] at hfree
        cases hfree
  marks b hb := h'.marks b (h.marks b hb)

theorem Grows.refl (st : Paging) : st.Grows st := ⟨.refl st, fun _ _ _ _ => rfl⟩

theorem Grows.trans (h : st.Grows st') (h' : st'.Grows st'') : st.Grows st'' where
  toExtends := h.toExtends.trans h'.toExtends
  bytes v hv p htr := (h'.bytes v hv p (h.maps v hv p htr)).trans (h.bytes v hv p htr)

/-! ## Stores -/

section Store

variable (h : st.Ok) (hapart : st.Apart) (hv : v < 0xffc00000)
  (htr : translate st.phys st.cr3 v = some p)

include h hapart hv htr

theorem dirWord_storeByte {d : ℕ} (hd : d < 1024) :
    (st.storeByte p x).dirWord d = st.dirWord d := by
  refine pageWord_congr hd fun a ha ha' => Mem.write8_of_ne ?_
  have hdir := hapart.notDirectory v hv p htr
  have halign := h.aligned
  have hcr3 : (st.storeByte p x).cr3 = st.cr3 := rfl
  omega

theorem table_storeByte {d : ℕ} (hd : d < 1024) : (st.storeByte p x).table d = st.table d := by
  rw [table, dirWord_storeByte h hapart hv htr hd]
  rfl

theorem entry_storeByte {d j : ℕ} (hd : d < 1023) (hne : st.dirWord d ≠ 0) (hj : j < 1024) :
    (st.storeByte p x).entry d j = st.entry d j := by
  rw [entry, table_storeByte h hapart hv htr (by omega)]
  refine pageWord_congr hj fun a ha ha' => Mem.write8_of_ne ?_
  have htab := hapart.notTable v hv p htr d hd hne
  have halign := st.table_aligned d
  omega

theorem translate_storeByte (hw : w < 0xffc00000) :
    translate (st.storeByte p x).phys (st.storeByte p x).cr3 w = translate st.phys st.cr3 w := by
  have hd := pdirEntry_lt_last hw
  exact translate_congr_entry (dirWord_storeByte h hapart hv htr (by omega)) fun hne =>
    entry_storeByte h hapart hv htr hd hne (ptableEntry_lt w)

theorem ok_storeByte : (st.storeByte p x).Ok := by
  have hword := fun d (hd : d < 1024) => dirWord_storeByte (x := x) h hapart hv htr hd
  have htable := fun d (hd : d < 1024) => table_storeByte (x := x) h hapart hv htr hd
  refine ⟨h.aligned, h.notNull, h.marked, ?_, ?_, ?_, ?_, ?_, h.blocks⟩
  · have hlast := hword 1023 (by decide)
    rw [dirWord] at hlast
    rw [Recursive, hlast]
    exact h.recursive
  · intro d hd
    rw [hword d (by omega)]
    exact h.presence d hd
  · intro d hd
    rw [hword d (by omega), htable d (by omega)]
    exact h.apart d hd
  · intro d hd
    rw [hword d (by omega), htable d (by omega)]
    exact h.tableMarked d hd
  · intro d hd e he
    rw [hword d (by omega), htable d (by omega), hword e (by omega), htable e (by omega)]
    exact h.distinct d hd e he

theorem apart_storeByte : (st.storeByte p x).Apart := by
  have hsame := fun w (hw : w < 0xffc00000) => translate_storeByte (x := x) h hapart hv htr hw
  refine ⟨fun w hw q hq => ?_, fun w hw q hq => ?_, fun w hw q hq d hd hne => ?_,
    fun w hw w' hw' q hq hq' => ?_⟩
  · rw [hsame w hw] at hq
    exact hapart.marked w hw q hq
  · rw [hsame w hw] at hq
    exact hapart.notDirectory w hw q hq
  · rw [hsame w hw] at hq
    rw [dirWord_storeByte h hapart hv htr (by omega)] at hne
    rw [table_storeByte h hapart hv htr (by omega)]
    exact hapart.notTable w hw q hq d hd hne
  · rw [hsame w hw] at hq
    rw [hsame w' hw'] at hq'
    exact hapart.injective w hw w' hw' q hq hq'

theorem extends_storeByte : st.Extends (st.storeByte p x) := by
  have hsame := fun w (hw : w < 0xffc00000) => translate_storeByte (x := x) h hapart hv htr hw
  refine ⟨fun w hw q hq => ?_, fun w hw q hq => ?_, fun b hb => hb⟩
  · rw [hsame w hw]
    exact hq
  · rw [hsame w hw] at hq
    exact .inl hq

end Store

/-! ## One page more -/

theorem tablesOnly_setEntry {d j : ℕ} (h : st.Ok) (hd : d < 1023) (hne : st.dirWord d ≠ 0)
    (hj : j < 1024) (e : ℕ) : st.TablesOnly (st.setEntry d j e) := by
  intro a _ hnot
  have hap := h.apart d hd hne
  have htable := hnot d hd
  rw [dirWord_setEntry h.aligned hap hj (by omega),
    table_setEntry h.aligned hap hj (by omega)] at htable
  have halign := st.table_aligned d
  have hother := htable hne
  exact Mem.write32_apply_outside (by omega)

theorem TablesOnly.addTable {d t : ℕ} (h : st.Ok) (hd : d < 1023)
    (hs : (st.addTable d t).TablesOnly st') : st.TablesOnly st' := by
  intro a hdir hnot
  have halign := h.aligned
  have hcr3 : (st.setBalloc (st.balloc.allocate t)).cr3 = st.cr3 := rfl
  exact (hs a hdir hnot).trans (Mem.write32_apply_outside (by omega))

end Paging

namespace Grown

variable {st st' : Paging} {b m v p : ℕ}

/-- The bytes of the new page. -/
theorem translate_page (hg : Grown st st' (m * 4096) b) (hv : v < 0xffc00000)
    (hvm : v / 4096 = m) :
    translate st'.phys st'.cr3 v = some (b * 4096 + v % 4096) := by
  obtain ⟨hd, hj⟩ := same_page_iff.mp (show v / 4096 = m * 4096 / 4096 by omega)
  have hlast := pdirEntry_lt_last hv
  have hne := (hg.hasTable _ hlast).mpr (.inr hd)
  have hentry := hg.page
  rw [← hd, ← hj] at hentry
  have hmapped : st'.Mapped v := by
    refine ⟨hg.ok.present (by omega) hne, ?_⟩
    rw [hentry, Present]
    omega
  rw [Paging.translate_of_mapped hmapped, hentry, entryFrame_add (by omega) (by decide)]

/-- The others are where they were. -/
theorem translate_below (hg : Grown st st' (m * 4096) b) (h : st.Ok) (hv : v < 0xffc00000)
    (hvm : v / 4096 ≠ m) :
    translate st'.phys st'.cr3 v = translate st.phys st.cr3 v := by
  have hd := pdirEntry_lt_last hv
  have hother : ¬ (pdirEntry v = pdirEntry (m * 4096) ∧
      ptableEntry v = ptableEntry (m * 4096)) := by
    rw [← same_page_iff]
    omega
  rw [Paging.translate_eq, Paging.translate_eq]
  by_cases h0 : st'.dirWord (pdirEntry v) = 0
  · have h0' : st.dirWord (pdirEntry v) = 0 := by
      by_contra hne
      exact (hg.hasTable _ hd).mpr (.inl hne) h0
    rw [h0, h0', if_neg not_present_zero, if_neg not_present_zero]
  · obtain ⟨hne, hentry⟩ | ⟨h0', hentry⟩ :=
      hg.entries _ hd _ (Paging.ptableEntry_lt v) hother h0
    · rw [if_pos (hg.ok.present (by omega) h0), if_pos (h.present (by omega) hne), hentry]
    · rw [hentry, h0', if_neg not_present_zero, if_neg not_present_zero, ite_self]

/-- Every byte that is mapped is one of the new page or was mapped before. -/
theorem translate_cases (hg : Grown st st' (m * 4096) b) (h : st.Ok) (hv : v < 0xffc00000)
    (htr : translate st'.phys st'.cr3 v = some p) :
    (v / 4096 = m ∧ p = b * 4096 + v % 4096) ∨
      (v / 4096 ≠ m ∧ translate st.phys st.cr3 v = some p) := by
  by_cases hvm : v / 4096 = m
  · rw [hg.translate_page hv hvm] at htr
    exact .inl ⟨hvm, (Option.some.inj htr).symm⟩
  · rw [hg.translate_below h hv hvm] at htr
    exact .inr ⟨hvm, htr⟩

theorem apart (hg : Grown st st' (m * 4096) b) (h : st.Ok) (hapart : st.Apart)
    (hb : st.balloc.IsNextFree b) : st'.Apart := by
  have hclear : st.balloc.used b = false := hb.2.clear
  obtain ⟨-, -, hcr3, -⟩ := h.nextFree hb
  -- an old frame was marked, so it is not the new one
  have hold : ∀ v < 0xffc00000, ∀ p, translate st.phys st.cr3 v = some p → p / 4096 ≠ b := by
    intro v hv p htr heq
    have hmarked := hapart.marked v hv p htr
    rw [heq, hclear] at hmarked
    cases hmarked
  refine ⟨fun v hv p htr => ?_, fun v hv p htr => ?_, fun v hv p htr d hd hne => ?_,
    fun v hv w hw p htr htr' => ?_⟩
  · obtain ⟨-, rfl⟩ | ⟨-, htr⟩ := hg.translate_cases h hv htr
    · rw [show (b * 4096 + v % 4096) / 4096 = b by omega]
      exact hg.marked
    · exact hg.marks _ (hapart.marked v hv p htr)
  · rw [hg.cr3]
    obtain ⟨-, rfl⟩ | ⟨-, htr⟩ := hg.translate_cases h hv htr
    · rw [show (b * 4096 + v % 4096) / 4096 = b by omega]
      exact hcr3
    · exact hapart.notDirectory v hv p htr
  · obtain ⟨-, hnew, hwhere⟩ := hg.tables d hd hne
    obtain ⟨-, rfl⟩ | ⟨-, htr⟩ := hg.translate_cases h hv htr
    · rw [show (b * 4096 + v % 4096) / 4096 = b by omega]
      exact hnew
    · obtain ⟨hne', htab⟩ | hfree := hwhere
      · rw [htab]
        exact hapart.notTable v hv p htr d hd hne'
      · intro heq
        have hmarked := hapart.marked v hv p htr
        rw [show p / 4096 = st'.table d / 4096 by omega, hfree] at hmarked
        cases hmarked
  · obtain ⟨hvm, rfl⟩ | ⟨-, htr⟩ := hg.translate_cases h hv htr
    · obtain ⟨hwm, heq⟩ | ⟨-, htr'⟩ := hg.translate_cases h hw htr'
      · omega
      · exact absurd (by omega) (hold w hw _ htr')
    · obtain ⟨-, rfl⟩ | ⟨-, htr'⟩ := hg.translate_cases h hw htr'
      · exact absurd (by omega) (hold v hv _ htr)
      · exact hapart.injective v hv w hw p htr htr'

theorem grows (hg : Grown st st' (m * 4096) b) (h : st.Ok) (hapart : st.Apart)
    (hb : st.balloc.IsNextFree b) (hnew : ¬ st.Mapped (m * 4096)) (hbytes : st.TablesOnly st') :
    st.Grows st' := by
  have hclear : st.balloc.used b = false := hb.2.clear
  refine ⟨⟨fun v hv p htr => ?_, fun v hv p htr => ?_, hg.marks⟩, fun v hv p htr => ?_⟩
  · have hvm : v / 4096 ≠ m := by
      intro hvm
      obtain ⟨hd, hj⟩ := same_page_iff.mp (show v / 4096 = m * 4096 / 4096 by omega)
      have hunmapped : ¬ st.Mapped v := by
        rw [Paging.Mapped, hd, hj]
        exact hnew
      rw [Paging.translate_eq_none.mpr hunmapped] at htr
      cases htr
    rw [hg.translate_below h hv hvm]
    exact htr
  · obtain ⟨-, rfl⟩ | ⟨-, htr⟩ := hg.translate_cases h hv htr
    · rw [show (b * 4096 + v % 4096) / 4096 = b by omega]
      exact .inr hclear
    · exact .inl htr
  · refine hbytes p (hapart.notDirectory v hv p htr) fun d hd hne => ?_
    obtain ⟨-, -, ⟨hne', htab⟩ | hfree⟩ := hg.tables d hd hne
    · rw [htab]
      exact hapart.notTable v hv p htr d hd hne'
    · intro heq
      have hmarked := hapart.marked v hv p htr
      rw [show p / 4096 = st'.table d / 4096 by omega, hfree] at hmarked
      cases hmarked

end Grown

/-! ## A growth -/

section Growth

variable {st st' : Paging} {blank : ℕ → Prop} {hasTable : ℕ → Bool} {first page count v p : ℕ}

/-- One round of the loop. -/
theorem Growing.step (hgr : Growing st blank hasTable first page (count + 1))
    (hend : page + (count + 1) ≤ heapEnd)
    (hsup : Supplies blank (count + 1) page hasTable st.balloc) :
    ∃ b st₁ hasTable', st.balloc.IsNextFree b ∧ Grown st st₁ (page * 4096) b ∧
      ¬ st.Mapped (page * 4096) ∧ st.TablesOnly st₁ ∧
      Growing st₁ blank hasTable' first (page + 1) count ∧
      Supplies blank count (page + 1) hasTable' st₁.balloc ∧
      ∀ i, allocateNewBrk (count + 1) i (page * 4096) st =
        allocateNewBrk count (i + 1) ((page + 1) * 4096) st₁ := by
  obtain ⟨b, hb, hsup⟩ := hsup
  have hpage : page < 0xffbff := Nat.lt_of_lt_of_le (by omega) hend
  have hd := Grown.pdirEntry_heap hpage
  have hv : page * 4096 < 2 ^ 32 := by omega
  have hdir : page / 1024 = pdirEntry (page * 4096) := by
    rw [pdirEntry_eq]
    omega
  have hnext : (page * 4096 + 4096) % 2 ^ 32 = (page + 1) * 4096 := by omega
  have hj := Paging.ptableEntry_lt (page * 4096)
  have hok := hgr.ok.setAllocate b
  have hor : b * 4096 ||| 0x1 = b * 4096 + 1 := or_flags (Nat.mul_mod_left b 4096) (by decide)
  cases htab : hasTable (page / 1024) with
  | true =>
    -- there is a table, with nothing in the entry
    rw [if_pos htab] at hsup
    have hne : st.dirWord (pdirEntry (page * 4096)) ≠ 0 := (hgr.hasTable _ hd).mp (hdir ▸ htab)
    have hclear : (st.setBalloc (st.balloc.allocate b)).entry (pdirEntry (page * 4096))
        (ptableEntry (page * 4096)) = 0 := hgr.clear page le_rfl (by omega) hne
    have hg := grown_of_table hgr.ok hgr.tables hb hd hne
    have hmap := Paging.mapBlock_of_table hok hv (hok.present (by omega) hne) (b * 4096)
    rw [if_neg (not_not_intro hclear), hor] at hmap
    refine ⟨b, _, hasTable, hb, hg, fun hm => ?_, Paging.tablesOnly_setEntry hok hd hne hj _,
      hgr.next hasTable hb hg hend fun d _ => ⟨.inl, fun hc => hc.elim id fun heq => heq ▸ htab⟩,
      hsup, fun i => ?_⟩
    · have hpresent := hm.2
      rw [hgr.clear page le_rfl (by omega) hne] at hpresent
      exact not_present_zero hpresent
    · rw [allocateNewBrk_of_frame hgr.ok hb, hmap, Option.bind_some, hnext]
  | false =>
    -- the next frame becomes the table
    rw [if_neg (by simp [htab])] at hsup
    obtain ⟨t, ht, hblank, hsup⟩ := hsup
    have h0 : st.dirWord (pdirEntry (page * 4096)) = 0 := by
      by_contra hne
      rw [hdir, (hgr.hasTable _ hd).mpr hne] at htab
      cases htab
    have hfree : st.balloc.used t = false := by
      have hclear : (st.balloc.allocate b).used t = false := ht.2.clear
      rw [Balloc.used_allocate] at hclear
      exact (Bool.or_eq_false_iff.mp hclear).1
    have hzero := hgr.blank t (hok.nextFree ht).1 hfree hblank
    have hg := grown_of_no_table hgr.ok hgr.tables hb hd h0 ht hzero
    have hmap := Paging.mapBlock_of_frame hok hv h0 ht (b * 4096)
    have hword : pageWord (st.setBalloc (st.balloc.allocate b)).phys (t * 4096)
      (ptableEntry (page * 4096)) = 0 := hzero _ hj
    rw [if_neg (not_not_intro hword), hor] at hmap
    have hok' := Paging.Ok.addTable hok hd ht
    have hne' : ((st.setBalloc (st.balloc.allocate b)).addTable (pdirEntry (page * 4096)) t).dirWord
        (pdirEntry (page * 4096)) ≠ 0 := by
      rw [Paging.dirWord_addTable hok ht, if_pos rfl]
      omega
    have hbytes := (Paging.tablesOnly_setEntry hok' hd hne' hj (b * 4096 + 1)).addTable hok hd
    refine ⟨b, _, Function.update hasTable (page / 1024) true, hb, hg, fun hm => ?_, hbytes,
      hgr.next (Function.update hasTable (page / 1024) true) hb hg hend fun d _ => ?_, hsup,
      fun i => ?_⟩
    · exact hm.dirWord_ne_zero h0
    · rw [Function.update_apply]
      by_cases hdp : d = page / 1024 <;> simp [hdp]
    · rw [allocateNewBrk_of_frame hgr.ok hb, hmap, Option.bind_some, hnext]

/-- The loop keeps what is mapped. -/
theorem allocateNewBrk_keeps (hgr : Growing st blank hasTable first page count)
    (hapart : st.Apart) (hend : page + count ≤ heapEnd)
    (hsup : Supplies blank count page hasTable st.balloc) (i : ℕ) :
    ∃ st', allocateNewBrk count i (page * 4096) st = some (0, st') ∧ st'.Apart ∧ st.Grows st' := by
  induction count generalizing st hasTable page i with
  | zero => exact ⟨st, rfl, hapart, .refl st⟩
  | succ count ih =>
    obtain ⟨b, st₁, hasTable', hb, hg, hnew, hbytes, hgr', hsup', hround⟩ := hgr.step hend hsup
    obtain ⟨st', hloop, hapart', hgrows⟩ :=
      ih hgr' (hg.apart hgr.ok hapart hb) (by omega) hsup' (i + 1)
    refine ⟨st', (hround i).trans hloop, hapart', ?_⟩
    exact (hg.grows hgr.ok hapart hb hnew hbytes).trans hgrows

end Growth

/-! ## Calls -/

section Calls

variable {start st st' : Heap} {addr v p : ℕ} {x : BitVec 8} {c : HeapCall}

/-- What a supplied call that asks for `target` leaves. -/
structure CallKept (st : Heap) (target : ℕ) (ok : Bool) (st' : Heap) : Prop where
  /-- the heap starts where it started -/
  base : st'.heapBase = st.heapBase
  /-- below the heap, the break stays -/
  refused : target < st.heapBase → st'.brk = st.brk
  /-- elsewhere, it is moved -/
  moved : st.heapBase ≤ target → ok = true ∧ st'.brk = target
  /-- what is mapped lies apart -/
  apart : st'.paging.Apart
  /-- pages were added -/
  grows : st.paging.Grows st'.paging

theorem CallKept.setErrno {target : ℕ} {ok : Bool} (h : CallKept st target ok st') (e : ℕ) :
    CallKept st target ok (st'.setErrno e) :=
  ⟨h.base, h.refused, h.moved,
    ⟨h.apart.marked, h.apart.notDirectory, h.apart.notTable, h.apart.injective⟩,
    ⟨⟨h.grows.maps, h.grows.fresh, h.grows.marks⟩, h.grows.bytes⟩⟩

/-- One call of `brk`. -/
theorem HeapInv.brk_kept (h : HeapInv st) (hapart : st.paging.Apart)
    (hc : CallSupplied st (.brk addr)) :
    ∃ r st', MissyKernel.brk st addr = some (r, st') ∧ CallKept st addr (decide (r = 0)) st' := by
  have hpos := h.ok.positive
  have halign := h.ok.aligned
  have habove := h.ok.above
  have haddr : addr < 2 ^ 32 := lt_trans hc.1 (by decide)
  obtain ⟨hbelow, hlow | ⟨hbrk, hpage⟩ | ⟨hcount, hsup⟩⟩ := hc
  · change addr < st.heapBase at hlow
    have hkept : CallKept st addr (decide ((-1 : ℤ) = 0)) st :=
      ⟨rfl, fun _ => rfl, fun hle => by omega, hapart, .refl st.paging⟩
    exact ⟨_, _, brk_of_below hpos.ne' hlow, hkept.setErrno enomem⟩
  · -- the break moves within its page
    change addr / 4096 = st.brk / 4096 at hpage
    have hle : st.heapBase ≤ addr := by omega
    exact ⟨_, _, brk_of_same_page hpos hle haddr hbrk h.ok.below hpage,
      ⟨rfl, fun hlt => by omega, fun _ => ⟨rfl, rfl⟩, hapart, .refl st.paging⟩⟩
  · -- the pages up to the new break are added
    change 0 < st.pageCount addr at hcount
    have hle : st.heapBase ≤ addr := by
      rw [Heap.pageCount, Heap.firstPage] at hcount
      split at hcount <;> omega
    have hend : st.firstPage + st.pageCount addr ≤ heapEnd := by
      have hlt : addr < 0xffbff000 := hbelow
      change _ ≤ 0xffbff
      rw [Heap.pageCount] at hcount ⊢
      omega
    have hgr : Growing st.paging (fun t => ∀ j < 1024, pageWord st.paging.phys (t * 4096) j = 0)
        (fun d => decide (st.paging.dirWord d ≠ 0)) (st.heapBase / 4096) st.firstPage
        (st.pageCount addr) :=
      ⟨h.ok.paging, h.tables, h.heapPages, hsup.entries, fun _ _ _ hblank => hblank,
        fun d _ => decide_eq_true_iff⟩
    obtain ⟨paging, hloop, hapart', hgrows⟩ :=
      allocateNewBrk_keeps hgr hapart hend hsup.frames 0
    refine ⟨0, { st with paging := paging, brk := addr }, ?_,
      ⟨rfl, fun hlt => by omega, fun _ => ⟨rfl, rfl⟩, hapart', hgrows⟩⟩
    rw [brk_of_growth hpos halign hle haddr h.ok.below habove hcount, hloop]
    rfl

/-- One call. -/
theorem HeapInv.call_kept (h : HeapInv st) (hapart : st.paging.Apart) (hc : CallSupplied st c) :
    ∃ ok st', c.run st = some (ok, st') ∧ CallKept st (c.target st) ok st' := by
  cases c with
  | brk addr =>
    obtain ⟨r, st', hcall, hkept⟩ := h.brk_kept hapart hc
    exact ⟨_, st', Option.map_eq_some_iff.mpr ⟨_, hcall, rfl⟩, hkept⟩
  | sbrk increment =>
    have hbelow : st.brk < 0xffbff000 := h.below
    have hok : decide (st.brk ≠ 0xffffffff) = true := decide_eq_true (by omega)
    by_cases h0 : increment = 0
    · refine ⟨_, st, Option.map_eq_some_iff.mpr ⟨_, if_pos h0, rfl⟩,
        ⟨rfl, fun _ => rfl, fun _ => ⟨hok, ?_⟩, hapart, .refl st.paging⟩⟩
      change st.brk = sbrkTarget st increment
      rw [h0, sbrkTarget]
      omega
    · have htarget : CallSupplied st (.brk (sbrkTarget st increment)) := hc
      obtain ⟨r, st', hcall, hkept⟩ := h.brk_kept hapart htarget
      by_cases hr : r = 0
      · refine ⟨_, st', Option.map_eq_some_iff.mpr ⟨(st.brk, st'), ?_, rfl⟩,
          ⟨hkept.base, hkept.refused, fun hle => ⟨hok, (hkept.moved hle).2⟩, hkept.apart,
            hkept.grows⟩⟩
        rw [sbrk, if_neg h0, hcall]
        exact if_neg (not_not_intro hr)
      · have hkept' := hkept.setErrno enomem
        refine ⟨_, st'.setErrno enomem,
          Option.map_eq_some_iff.mpr ⟨(0xffffffff, st'.setErrno enomem), ?_, rfl⟩,
          ⟨hkept'.base, hkept'.refused, fun hle => ?_, hkept'.apart, hkept'.grows⟩⟩
        · rw [sbrk, if_neg h0, hcall]
          exact if_pos hr
        · -- a supplied call at or above the heap's base is not refused
          exact absurd (of_decide_eq_true (hkept.moved hle).1) hr

/-! ## Runs -/

/-- What every step keeps. -/
structure HeapKept (start st : Heap) : Prop where
  /-- the break and the mapped heap agree -/
  inv : HeapInv st
  /-- what is mapped lies apart -/
  apart : st.paging.Apart
  /-- pages were added on frames that were free -/
  grown : start.paging.Extends st.paging
  /-- the heap starts where it started -/
  base : st.heapBase = start.heapBase

theorem HeapInv.storeByte (h : HeapInv st) (hapart : st.paging.Apart) (hv : v < 0xffc00000)
    (htr : translate st.paging.phys st.paging.cr3 v = some p) : HeapInv (st.storeByte p x) := by
  have hok := h.ok.paging
  have hword := fun d (hd : d < 1024) =>
    Paging.dirWord_storeByte (x := x) hok hapart hv htr hd
  have htable := fun d (hd : d < 1024) =>
    Paging.table_storeByte (x := x) hok hapart hv htr hd
  have hpage : ∀ k < heapEnd, translate (st.storeByte p x).paging.phys
      (st.storeByte p x).paging.cr3 (k * 4096) =
        translate st.paging.phys st.paging.cr3 (k * 4096) := by
    intro k hk
    have hlt : k < 0xffbff := hk
    exact Paging.translate_storeByte hok hapart hv htr (by omega)
  refine ⟨⟨Paging.ok_storeByte hok hapart hv htr, h.ok.aligned, h.ok.positive, h.ok.above,
    h.ok.below⟩, fun d hd hne => ?_, h.below, ?_⟩
  · change (st.paging.storeByte p x).dirWord d ≠ 0 at hne
    change (st.paging.storeByte p x).table d ≠ 0
    rw [hword d (by omega)] at hne
    rw [htable d (by omega)]
    exact h.tables d hd hne
  · have hagrees := h.agrees
    refine ⟨fun k hk hk' => ?_, fun k f hk hk' hf => ?_, fun k f hk hk' hf => ?_,
      fun k f hk hk' hf => ?_, fun k f hk hk' hf d hd hne => ?_,
      fun k l f hk hk' hl hl' hf hf' => ?_⟩
    · rw [hpage k hk']
      exact hagrees.mapped k hk hk'
    · rw [hpage k hk'] at hf
      exact hagrees.marked k f hk hk' hf
    · rw [hpage k hk'] at hf
      exact hagrees.notNull k f hk hk' hf
    · rw [hpage k hk'] at hf
      exact hagrees.notDirectory k f hk hk' hf
    · rw [hpage k hk'] at hf
      change (st.paging.storeByte p x).dirWord d ≠ 0 at hne
      change (st.paging.storeByte p x).table d ≠ f
      rw [hword d (by omega)] at hne
      rw [htable d (by omega)]
      exact hagrees.notTable k f hk hk' hf d hd hne
    · rw [hpage k hk'] at hf
      rw [hpage l hl'] at hf'
      exact hagrees.distinct k l f hk hk' hl hl' hf hf'

/-- A store changes the byte at its address. -/
theorem seen_storeByte (h : HeapInv st) (hapart : st.paging.Apart) (hv : v < 0xffc00000)
    (htr : translate st.paging.phys st.paging.cr3 v = some p) :
    (st.storeByte p x).seen = Function.update st.seen v (some x) := by
  funext w
  rw [Function.update_apply]
  by_cases hw : w < 0xffc00000
  · have hsame := Paging.translate_storeByte (x := x) h.ok.paging hapart hv htr hw
    rw [Heap.seen, if_pos hw, Heap.seen, if_pos hw]
    change (translate (st.paging.storeByte p x).phys (st.paging.storeByte p x).cr3 w).map
      (st.paging.phys.write8 p x) = _
    rw [hsame]
    cases hq : translate st.paging.phys st.paging.cr3 w with
    | none =>
      have hne : w ≠ v := by
        rintro rfl
        rw [htr] at hq
        cases hq
      rw [if_neg hne]
      rfl
    | some q =>
      by_cases hwv : w = v
      · subst hwv
        obtain rfl := Option.some.inj (htr.symm.trans hq)
        simp
      · have hqp : q ≠ p := by
          rintro rfl
          exact hwv (hapart.injective w hw v hv q hq htr)
        simp [hwv, Mem.write8_of_ne hqp]
  · rw [Heap.seen, if_neg hw, if_neg (by omega), Heap.seen, if_neg hw]

/-- The kernel's memory keeps what is stored. -/
theorem heapSteps (start : Heap) : MemorySteps HeapStep Heap.seen (HeapKept start) where
  keeps := by
    intro st event st' h hstep
    cases hstep with
    | call hc hrun =>
      obtain ⟨ok, st₁, hrun', hkept⟩ := h.inv.call_kept h.apart hc
      obtain ⟨ok', st₂, hrun'', hinv⟩ := h.inv.run hc
      rw [hrun] at hrun' hrun''
      cases hrun'
      cases hrun''
      exact ⟨hinv, hkept.apart, h.grown.trans hkept.grows.toExtends, hkept.base.trans h.base⟩
    | store x hlow hhigh htr =>
      have hv := lt_trans hhigh (show kernelStackMapping < 0xffc00000 by decide)
      have hok := h.inv.ok.paging
      exact ⟨h.inv.storeByte h.apart hv htr, Paging.apart_storeByte hok h.apart hv htr,
        h.grown.trans (Paging.extends_storeByte hok h.apart hv htr), h.base⟩
  store := by
    intro st v x st' h hstep
    cases hstep with
    | store _ hlow hhigh htr =>
      exact seen_storeByte h.inv h.apart
        (lt_trans hhigh (show kernelStackMapping < 0xffc00000 by decide)) htr
  other := by
    intro st c st' h hstep v x hx
    cases hstep with
    | call hc hrun =>
      obtain ⟨ok, st₁, hrun', hkept⟩ := h.inv.call_kept h.apart hc
      rw [hrun] at hrun'
      cases hrun'
      have hgrows := hkept.grows
      by_cases hv : v < 0xffc00000
      · rw [Heap.seen, if_pos hv] at hx ⊢
        obtain ⟨p, htr, hp⟩ := Option.map_eq_some_iff.mp hx
        rw [hgrows.maps v hv p htr, Option.map_some, hgrows.bytes v hv p htr, hp]
      · rw [Heap.seen, if_neg hv] at hx
        cases hx

/-- Every byte from the base of the heap to the end of the break's page can be stored to. -/
theorem HeapInv.exists_store (h : HeapInv st) (hlow : st.heapBase ≤ v)
    (hpage : v / 4096 ≤ st.brk / 4096) (x : BitVec 8) : ∃ st', HeapStep st (.store v x) st' := by
  have hbelow : st.brk < 0xffbff000 := h.below
  have hv : v < 0xffbff000 := by omega
  have hmapped := (h.agrees.mapped (v / 4096) (Nat.div_le_div_right hlow)
    (show v / 4096 < 0xffbff by omega)).mpr (Nat.lt_succ_of_le hpage)
  obtain ⟨hd, hj⟩ := same_page_iff.mp (show v / 4096 * 4096 / 4096 = v / 4096 by omega)
  rw [Ne, Paging.translate_eq_none, not_not, Paging.Mapped, hd, hj] at hmapped
  exact ⟨_, .store x hlow hv (Paging.translate_of_mapped hmapped)⟩

end Calls

end MissyKernel
