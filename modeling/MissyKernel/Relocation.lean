import MissyKernel.KmemlowInit
import MissyKernel.MmapCalls

/-!
# Moving the boot information (`mboot2_relocate_tags`)

Before the allocator's bitmap is filled, the structure of the second protocol is copied
behind the kernel end, one structure length further up. A structure that is held byte
for byte at another place has the same tags there, and every query answers the same
(`SameBytes.sameAnswers`). The copy is made byte by byte from the front, so it is
faithful except where its destination starts inside the structure.

The fill of the bitmap comes after the copy and ends at the kernel end, below it
(`fillBitmap_below_kernelEnd`), so that what was copied faithfully stays readable. In
`relocation_faithful_iff` the overlap is met exactly, with the structures that repeat at the
distance of the copy included; `end_tag_overwritten` is one that does not.
-/

namespace MissyKernel

/-- `m'` holds from `q` on the `n` bytes that `m` holds from `p` on. -/
def SameBytes (m' : Mem) (q : ℕ) (m : Mem) (p n : ℕ) : Prop := ∀ i < n, m' (q + i) = m (p + i)

/-- Where the address `a` lands in the structure moved from `p` to `q`. -/
def moved (p q a : ℕ) : ℕ := a - p + q

section SameBytes

variable {m m' m'' : Mem} {p q n a : ℕ}

theorem SameBytes.trans {r : ℕ} (h : SameBytes m'' r m' q n) (h' : SameBytes m' q m p n) :
    SameBytes m'' r m p n := by
  intro i hi
  rw [h i hi, h' i hi]

theorem SameBytes.read32 (h : SameBytes m' q m p n) (hp : p ≤ a) (ha : a + 4 ≤ p + n) :
    m'.read32 (moved p q a) = m.read32 a := by
  have hbyte : ∀ i < 4, m' (moved p q a + i) = m (a + i) := by
    intro i hi
    have hmoved := h (a - p + i) (by omega)
    rw [show q + (a - p + i) = moved p q a + i by rw [moved]; omega,
      show p + (a - p + i) = a + i by omega] at hmoved
    exact hmoved
  have h0 := hbyte 0 (by omega)
  rw [Nat.add_zero, Nat.add_zero] at h0
  rw [Mem.read32, Mem.read32, h0, hbyte 1 (by omega), hbyte 2 (by omega), hbyte 3 (by omega)]

theorem moved_add {c : ℕ} (hp : p ≤ a) : moved p q a + c = moved p q (a + c) := by
  rw [moved, moved]
  omega

theorem SameBytes.read64 (h : SameBytes m' q m p n) (hp : p ≤ a) (ha : a + 8 ≤ p + n) :
    m'.read64 (moved p q a) = m.read64 a := by
  rw [Mem.read64, Mem.read64, h.read32 hp (by omega), moved_add hp,
    h.read32 (by omega) (by omega)]

/-! ## The fields of a moved tag -/

theorem SameBytes.tagType (h : SameBytes m' q m p n) (hp : p ≤ a) (ha : a + 4 ≤ p + n) :
    tagType m' (moved p q a) = tagType m a := h.read32 hp ha

theorem SameBytes.tagSize (h : SameBytes m' q m p n) (hp : p ≤ a) (ha : a + 8 ≤ p + n) :
    tagSize m' (moved p q a) = tagSize m a := by
  rw [MissyKernel.tagSize, moved_add hp, h.read32 (by omega) (by omega)]
  rfl

theorem SameBytes.tagEntrySz (h : SameBytes m' q m p n) (hp : p ≤ a) (ha : a + 12 ≤ p + n) :
    tagEntrySz m' (moved p q a) = tagEntrySz m a := by
  rw [MissyKernel.tagEntrySz, moved_add hp, h.read32 (by omega) (by omega)]
  rfl

theorem SameBytes.tagMemsz (h : SameBytes m' q m p n) (hp : p ≤ a) (ha : a + 16 ≤ p + n) :
    tagMemsz m' (moved p q a) = tagMemsz m a := by
  rw [MissyKernel.tagMemsz, moved_add hp, moved_add hp, h.read32 (by omega) (by omega),
    h.read32 (by omega) (by omega)]
  rfl

theorem SameBytes.entryMmap (h : SameBytes m' q m p n) (hp : p ≤ a) (ha : a + 20 ≤ p + n) :
    entryMmap m' (moved p q a) = entryMmap m a := by
  rw [MissyKernel.entryMmap, moved_add hp, moved_add hp, h.read64 hp (by omega),
    h.read64 (by omega) (by omega), h.read32 (by omega) (by omega)]
  rfl

/-- A moved list is a list. -/
theorem TagList.moved {tags : List ℕ} (h : TagList m (p + n) a tags)
    (hsame : SameBytes m' q m p n) (hp : p ≤ a) :
    TagList m' (q + n) (moved p q a) (tags.map (moved p q)) := by
  induction h with
  | @last a hfit hend =>
    refine .last ?_ ?_
    · rw [MissyKernel.moved]
      omega
    · rw [hsame.tagType hp (by omega), hend]
  | @tag a tags htype hsize hfit hnext ih =>
    have hsize' := hsame.tagSize hp (show a + 8 ≤ p + n by omega)
    have hnext' := ih (by omega)
    rw [← moved_add hp, ← hsize'] at hnext'
    refine .tag ?_ ?_ ?_ hnext'
    · rwa [hsame.tagType hp (by omega)]
    · rwa [hsize']
    · rw [hsize', MissyKernel.moved]
      omega

/-- A moved structure is well formed. -/
theorem WellFormed2.moved {tags : List ℕ} (h : WellFormed2 m p tags)
    (hsame : SameBytes m' q m p (m.read32 p)) (hfits : q + m.read32 p ≤ 2 ^ 32) :
    WellFormed2 m' q (tags.map (moved p q)) := by
  have hstart := h.list.start_le
  have hlength : m'.read32 q = m.read32 p := by
    have hread := hsame.read32 (le_refl p) (by omega)
    rwa [MissyKernel.moved, Nat.sub_self, Nat.zero_add] at hread
  have hlist := h.list.moved hsame (by omega)
  rw [← moved_add (le_refl p), MissyKernel.moved, Nat.sub_self, Nat.zero_add] at hlist
  refine ⟨?_, ?_⟩
  · rwa [hlength]
  · rwa [hlength]

end SameBytes

/-! ## The queries -/

/-- Where a found tag lands; `NULL` stays `NULL`. -/
def movedTag (p q t : ℕ) : ℕ := if t = 0 then 0 else moved p q t

/-- The driver of the second protocol answers from `m'` and `st'` as from `m` and `st`:
the tags are found at the same distance from the structure's start, and the memory size
and every step through the memory map are the same, `kinit_errno` included. -/
structure SameAnswers (m : Mem) (st : Multiboot) (m' : Mem) (st' : Multiboot) : Prop where
  /-- `mboot2_find_tag` -/
  find : ∀ type, (mboot2FindTag m' st' type).map (fun x => (x.1, x.2.kinitErrno)) =
    (mboot2FindTag m st type).map
      fun x => (movedTag st.mbootPtr st'.mbootPtr x.1, x.2.kinitErrno)
  /-- `multiboot_get_memsz` -/
  memsz : (multibootGetMemsz m' st').map (fun x => (x.1, x.2.kinitErrno)) =
    (multibootGetMemsz m st).map fun x => (x.1, x.2.kinitErrno)
  /-- successive calls of `multiboot_get_mmap_next` -/
  mmap : ∀ buf k, (mmapCall m' st' buf k).map (fun x => (x.1, x.2.1, x.2.2.kinitErrno)) =
    (mmapCall m st buf k).map fun x => (x.1, x.2.1, x.2.2.kinitErrno)

/-- The tags that the kernel asks for have room for what it reads. -/
structure TagsHold (m : Mem) (tags : List ℕ) : Prop where
  /-- both counts -/
  memsz : ∀ t ∈ tags, tagType m t = mboot2TypetagMemsz → 16 ≤ tagSize m t
  /-- the header of the map, and entries with all their fields -/
  mmap : ∀ t ∈ tags, tagType m t = mboot2TypetagMmap → 16 ≤ tagSize m t ∧ 24 ≤ tagEntrySz m t

/-- The statics before and after a move of the structure from `p` to `q`. -/
structure StaticsMoved (p q : ℕ) (st st' : Multiboot) : Prop where
  /-- where it was -/
  ptr : st.mbootPtr = p
  /-- where it is -/
  ptr' : st'.mbootPtr = q
  /-- the second driver -/
  api : st.apiStruct = ⟨.mboot2GetMemorySize, .mboot2GetNextMmap, .mboot2RelocateTags⟩
  /-- the same table -/
  api' : st'.apiStruct = st.apiStruct
  /-- the same place in the map -/
  counter : st'.mboot2MmapEntry = st.mboot2MmapEntry
  /-- the same error -/
  errno : st'.kinitErrno = st.kinitErrno

/-- The same, with the caller's buffer. -/
def CallMoved (p q : ℕ) (s s' : MmapData × Multiboot) : Prop :=
  s.1 = s'.1 ∧ StaticsMoved p q s.2 s'.2

theorem optionRel_map {α β γ : Type} {R : α → β → Prop} {x : Option α} {y : Option β}
    {f : α → γ} {g : β → γ} (h : Option.Rel R x y) (hfg : ∀ a b, R a b → g b = f a) :
    y.map g = x.map f := by
  cases h with
  | some hab => exact congrArg some (hfg _ _ hab)
  | none => rfl

section Queries

variable {m m' : Mem} {p q : ℕ} {tags : List ℕ} {st st' : Multiboot}

/-- A call of the second driver where there is no map. -/
theorem multibootGetMmapNext_missing
    (hapi : st.apiStruct.getNextMmapEntry = .mboot2GetNextMmap)
    (hfind : mboot2FindTag m st mboot2TypetagMmap =
      some (0, st.setErrno mbootErrorEntryNotFound)) (buf : MmapData) :
    multibootGetMmapNext m st buf = some (-1, buf, st.setErrno mbootErrorEntryNotFound) := by
  simp only [multibootGetMmapNext, hapi, mboot2GetNextMmap, mboot2NextMmap, hfind,
    Option.bind_eq_bind, Option.bind_some]
  rfl

/-- The first tag of a type has moved with the structure. -/
theorem firstTag_moved (h : WellFormed2 m p tags) (hsame : SameBytes m' q m p (m.read32 p))
    (type : ℕ) :
    firstTag m' (tags.map (moved p q)) type = (firstTag m tags type).map (moved p q) := by
  refine firstTag_map (fun t ht => ?_) type
  obtain ⟨hle, hend, -⟩ := h.list.mem_bounds ht
  have hheader := h.list.header_le ht
  exact hsame.tagType (by omega) (by omega)

/-- The driver's entries in a map tag are the tag's, also where the tag has moved. -/
theorem entryMmap_moved {t k : ℕ} (hsame : SameBytes m' q m p (m.read32 p)) (hpt : p ≤ t)
    (ht : t + tagSize m t ≤ p + m.read32 p) (hfits : p + m.read32 p ≤ 2 ^ 32)
    (hfits' : q + m.read32 p ≤ 2 ^ 32) (hsize : 16 ≤ tagSize m t) (hentry : 24 ≤ tagEntrySz m t)
    (hk : k < tagEntries m t) :
    tagEntryAt t k ≠ 0 ∧ tagEntryAt (moved p q t) k ≠ 0 ∧
      entryMmap m' (tagEntryAt (moved p q t) k) = entryMmap m (tagEntryAt t k) := by
  have hlast := (lt_tagEntries_iff hsize (by omega)).mp hk
  have hmul : (k + 1) * 24 ≤ (k + 1) * tagEntrySz m t := Nat.mul_le_mul_left _ hentry
  have haddr : tagEntryAt t k = t + 16 + 24 * k := Nat.mod_eq_of_lt (by omega)
  have haddr' : tagEntryAt (moved p q t) k = moved p q (t + 16 + 24 * k) := by
    rw [tagEntryAt, Nat.mod_eq_of_lt (by rw [moved]; omega), moved_add hpt, moved_add (by omega)]
  refine ⟨by omega, ?_, ?_⟩
  · rw [haddr', moved]
    omega
  · rw [haddr, haddr']
    exact hsame.entryMmap (by omega) (by omega)

/-- A search finds the tag where it has moved to, or nothing in both places. -/
theorem StaticsMoved.find_cases (hst : StaticsMoved p q st st') (h : WellFormed2 m p tags)
    (hsame : SameBytes m' q m p (m.read32 p)) (hfits : q + m.read32 p ≤ 2 ^ 32) (hp : p ≠ 0)
    (hq : q ≠ 0) (type : ℕ) :
    (∃ t, firstTag m tags type = some t ∧ t ≠ 0 ∧ moved p q t ≠ 0 ∧
      mboot2FindTag m st type = some (t, st) ∧
      mboot2FindTag m' st' type = some (moved p q t, st')) ∨
    (mboot2FindTag m st type = some (0, st.setErrno mbootErrorEntryNotFound) ∧
      mboot2FindTag m' st' type = some (0, st'.setErrno mbootErrorEntryNotFound)) := by
  obtain ⟨rfl, rfl, -, -, -, -⟩ := hst
  have hmoved := h.moved hsame hfits
  have hfind := mboot2FindTag_eq st h hp type
  have hfind' := mboot2FindTag_eq st' hmoved hq type
  have hfirst' := firstTag_moved h hsame type
  rcases hfirst : firstTag m tags type with _ | t
  · rw [hfirst] at hfind hfirst'
    rw [hfirst'] at hfind'
    exact .inr ⟨hfind, hfind'⟩
  · rw [hfirst] at hfind hfirst'
    rw [hfirst'] at hfind'
    exact .inl ⟨t, rfl, firstTag_ne_zero h hfirst, firstTag_ne_zero hmoved hfirst', hfind, hfind'⟩

/-- A step through the map answers the same, and leaves statics that have moved. -/
theorem StaticsMoved.getMmapNext (hst : StaticsMoved p q st st') (h : WellFormed2 m p tags)
    (hhold : TagsHold m tags) (hsame : SameBytes m' q m p (m.read32 p))
    (hfits : q + m.read32 p ≤ 2 ^ 32) (hp : p ≠ 0) (hq : q ≠ 0) (buf : MmapData) :
    Option.Rel (fun x y => x.1 = y.1 ∧ x.2.1 = y.2.1 ∧ StaticsMoved p q x.2.2 y.2.2)
      (multibootGetMmapNext m st buf) (multibootGetMmapNext m' st' buf) := by
  have hapi : st.apiStruct.getNextMmapEntry = .mboot2GetNextMmap := by rw [hst.api]
  have hapi' : st'.apiStruct.getNextMmapEntry = .mboot2GetNextMmap := by rw [hst.api', hapi]
  obtain ⟨t, hfirst, hne, hne', hfind, hfind'⟩ | ⟨hfind, hfind'⟩ :=
    hst.find_cases h hsame hfits hp hq mboot2TypetagMmap
  · obtain ⟨htag, htype⟩ := firstTag_some hfirst
    obtain ⟨hsize, hentry⟩ := hhold.mmap t htag htype
    obtain ⟨hle, hend, -⟩ := h.list.mem_bounds htag
    have hwide : tagEntrySz m t ≠ 0 := by omega
    have hentry' : tagEntrySz m' (moved p q t) = tagEntrySz m t :=
      hsame.tagEntrySz (by omega) (by omega)
    have hcount : tagEntries m' (moved p q t) = tagEntries m t := by
      rw [tagEntries, tagEntries, hentry', hsame.tagSize (by omega) (by omega)]
    rw [multibootGetMmapNext_second ⟨hst.ptr, hapi, rfl⟩ hfind hne buf,
      multibootGetMmapNext_second ⟨hst.ptr', hapi', hst.counter⟩ hfind' hne' buf, hentry', hcount,
      if_neg hwide, if_neg hwide]
    by_cases hlt : st.mboot2MmapEntry < tagEntries m t
    · obtain ⟨hnull, hnull', hdata⟩ :=
        entryMmap_moved hsame (by omega) hend h.fits hfits hsize hentry hlt
      rw [if_pos hlt, if_pos hlt, if_neg hnull, if_neg hnull', hdata]
      exact .some ⟨rfl, rfl, ⟨hst.ptr, hst.ptr', hst.api, hst.api', rfl, hst.errno⟩⟩
    · rw [if_neg hlt, if_neg hlt]
      exact .some ⟨rfl, rfl, hst⟩
  · -- without a map both report the same error
    rw [multibootGetMmapNext_missing hapi hfind, multibootGetMmapNext_missing hapi' hfind']
    exact .some ⟨rfl, rfl, ⟨hst.ptr, hst.ptr', hst.api, hst.api', hst.counter, rfl⟩⟩

/-- **The queries follow the structure**, whatever else is in the two memories. -/
theorem StaticsMoved.sameAnswers (hst : StaticsMoved p q st st') (h : WellFormed2 m p tags)
    (hhold : TagsHold m tags) (hsame : SameBytes m' q m p (m.read32 p))
    (hfits : q + m.read32 p ≤ 2 ^ 32) (hp : p ≠ 0) (hq : q ≠ 0) : SameAnswers m st m' st' := by
  refine ⟨fun type => ?_, ?_, fun buf k => ?_⟩
  · obtain ⟨t, -, hne, -, hfind, hfind'⟩ | ⟨hfind, hfind'⟩ :=
      hst.find_cases h hsame hfits hp hq type
    · have hfound : movedTag st.mbootPtr st'.mbootPtr t = moved p q t := by
        rw [movedTag, if_neg hne, hst.ptr, hst.ptr']
      rw [hfind, hfind']
      simp [hfound, hst.errno]
    · rw [hfind, hfind']
      rfl
  · simp only [multibootGetMemsz, hst.api', hst.api, mboot2GetMemorySize]
    obtain ⟨t, hfirst, hne, hne', hfind, hfind'⟩ | ⟨hfind, hfind'⟩ :=
      hst.find_cases h hsame hfits hp hq mboot2TypetagMemsz
    · obtain ⟨htag, htype⟩ := firstTag_some hfirst
      obtain ⟨hle, hend, -⟩ := h.list.mem_bounds htag
      have hsize := hhold.memsz t htag htype
      have hcounts := hsame.tagMemsz (show p ≤ t by omega) (by omega)
      rw [hfind, hfind']
      simp [hne, hne', hcounts, hst.errno]
    · rw [hfind, hfind']
      rfl
  · have hstep : ∀ s s', CallMoved p q s s' →
        Option.Rel (fun x y => x.1 = y.1 ∧ CallMoved p q x.2 y.2)
          (mmapNext m s) (mmapNext m' s') := by
      rintro ⟨b, s⟩ ⟨b', s'⟩ ⟨rfl, hs⟩
      exact hs.getMmapNext h hhold hsame hfits hp hq b
    have hrun := nthCall_simulation hstep (s := (buf, st)) (t := (buf, st')) ⟨rfl, hst⟩ k
    refine optionRel_map hrun ?_
    rintro ⟨r, b, s⟩ ⟨r', b', s'⟩ ⟨rfl, rfl, hs⟩
    rw [hs.errno]

end Queries

/-! ## The copy -/

/-- **What relocation should do** with the kernel end `kernelEnd`: the structure is behind
the kernel end, byte for byte; the fill of a bitmap that ends there leaves it alone; and
as long as it is left alone every query answers as before. -/
structure Relocated (m : Mem) (st : Multiboot) (kernelEnd : ℕ) : Prop where
  /-- the new `mboot_ptr` -/
  ptr : (multibootRelocate m st kernelEnd).2.mbootPtr = kernelEnd + m.read32 st.mbootPtr
  /-- the copy -/
  bytes : SameBytes (multibootRelocate m st kernelEnd).1 (kernelEnd + m.read32 st.mbootPtr)
    m st.mbootPtr (m.read32 st.mbootPtr)
  /-- the copy is outside the bitmap -/
  bitmap : ∀ image api (k : Kmemlow), k.layout = kmemlowLayout image api →
    k.layout.kernelEndPhysical = kernelEnd →
    SameBytes (k.fillBitmap k.layout.bitmapSize).mem (kernelEnd + m.read32 st.mbootPtr)
      k.mem (kernelEnd + m.read32 st.mbootPtr) (m.read32 st.mbootPtr)
  /-- the later queries -/
  later : ∀ m', SameBytes m' (kernelEnd + m.read32 st.mbootPtr)
      (multibootRelocate m st kernelEnd).1 (kernelEnd + m.read32 st.mbootPtr)
      (m.read32 st.mbootPtr) →
    SameAnswers m st m' (multibootRelocate m st kernelEnd).2

section Copy

variable {m : Mem} {st : Multiboot} {kernelEnd n : ℕ} {tags : List ℕ}

/-- The kernel end is above the bitmap. -/
theorem fillBitmap_below_kernelEnd (image : KernelImage) (api : MultibootApi) (k : Kmemlow)
    (hlayout : k.layout = kmemlowLayout image api) {q : ℕ} (hq : k.layout.kernelEndPhysical ≤ q) :
    SameBytes (k.fillBitmap k.layout.bitmapSize).mem q k.mem q n := by
  have hkend := kmemlowLayout_kernelEndPhysical image api
  have hsize := kmemlowLayout_bitmapSize image api
  have htotal := kmemlowLayout_totalBlocks_lt image api
  have hp := mbitmapPhysical_lt image api
  rw [← hlayout] at hkend hsize htotal hp
  intro i _
  exact Kmemlow.fillBitmap_mem_outside hp (by omega) (by omega)

/-- What `multiboot_relocate` does with the second driver installed. -/
theorem multibootRelocate_second
    (hapi : st.apiStruct = ⟨.mboot2GetMemorySize, .mboot2GetNextMmap, .mboot2RelocateTags⟩)
    (hptr : st.mbootPtr ≠ 0) (hfits : kernelEnd + m.read32 st.mbootPtr < 2 ^ 32) :
    multibootRelocate m st kernelEnd =
      (m.copy (kernelEnd + m.read32 st.mbootPtr) st.mbootPtr (m.read32 st.mbootPtr),
        { st with mbootPtr := kernelEnd + m.read32 st.mbootPtr }) := by
  simp only [multibootRelocate, hapi, mboot2RelocateTags, mboot2GetStructureLength, if_neg hptr,
    Nat.mod_eq_of_lt hfits]
  rfl

/-- **When relocation preserves the structure.** The copy runs from the front, so where its
destination starts inside the structure, bytes are read after they were overwritten; this does no
harm only if they repeat at the distance of the copy.

The copy itself is the one of `ByteMemory`. What has to be shown besides is that the answers of the
queries depend on nothing but the bytes of the structure, at whatever address
(`SameBytes.sameAnswers`), and that the bitmap's fill does not reach the copy. -/
theorem relocation_faithful_iff
    (hapi : st.apiStruct = ⟨.mboot2GetMemorySize, .mboot2GetNextMmap, .mboot2RelocateTags⟩)
    (hptr : st.mbootPtr ≠ 0) (h : WellFormed2 m st.mbootPtr tags) (hhold : TagsHold m tags)
    (hfits : kernelEnd + 2 * m.read32 st.mbootPtr ≤ 2 ^ 32) :
    Relocated m st kernelEnd ↔
      m.Repeats (kernelEnd + m.read32 st.mbootPtr) st.mbootPtr (m.read32 st.mbootPtr) := by
  have hstart := h.list.start_le
  have hcall := multibootRelocate_second (m := m) hapi hptr
    (show kernelEnd + m.read32 st.mbootPtr < 2 ^ 32 by omega)
  constructor
  · intro hgood
    have hbytes := hgood.bytes
    rw [hcall] at hbytes
    exact Mem.copy_faithful_iff.mp hbytes
  · intro hrepeats
    have hbytes : SameBytes (m.copy (kernelEnd + m.read32 st.mbootPtr) st.mbootPtr
        (m.read32 st.mbootPtr)) (kernelEnd + m.read32 st.mbootPtr) m st.mbootPtr
        (m.read32 st.mbootPtr) := Mem.copy_faithful_iff.mpr hrepeats
    refine ⟨?_, ?_, fun image api k hlayout hend => ?_, fun m' hm' => ?_⟩
    · rw [hcall]
    · rw [hcall]
      exact hbytes
    · exact fillBitmap_below_kernelEnd image api k hlayout (by omega)
    · rw [hcall] at hm' ⊢
      have hst : StaticsMoved st.mbootPtr (kernelEnd + m.read32 st.mbootPtr) st
          { st with mbootPtr := kernelEnd + m.read32 st.mbootPtr } :=
        ⟨rfl, rfl, hapi, rfl, rfl, rfl⟩
      exact hst.sameAnswers h hhold (hm'.trans hbytes) (by omega) hptr (by omega)

end Copy

/-- The structure of `pcTags`, eight bytes above the kernel end. -/
def tagsAtKernelEnd : Mem := Mem.ofWords 0x111008
  [72, 0, 4, 16, 640, 64512, 6, 40, 24, 0, 0x100000, 0, 0x3f00000, 0, 1, 0, 0, 8]

theorem tagsAtKernelEnd_wellFormed : WellFormed2 tagsAtKernelEnd 0x111008 [0x111010, 0x111020] := by
  refine ⟨by decide, .tag (by decide) (by decide) (by decide) ?_⟩
  refine .tag (by decide) (by decide) (by decide) (.last (by decide) (by decide))

/-- Its end tag is overwritten before it is copied. -/
theorem end_tag_overwritten : ¬ Relocated tagsAtKernelEnd (acceptedSecond 0x111008) 0x111000 := by
  intro h
  have hbytes := h.bytes
  rw [multibootRelocate_second rfl (by decide) (by decide)] at hbytes
  have hrepeats := Mem.copy_faithful_iff.mp hbytes (by decide) 0 (by decide)
  exact absurd hrepeats (by decide)

/-- Where the loader put it below the kernel, it survives. -/
theorem pcTags_relocated : Relocated pcTags (acceptedSecond 0x8000) 0x111000 := by
  have hhold : TagsHold pcTags [0x8008, 0x8018] := ⟨by decide, by decide⟩
  refine (relocation_faithful_iff rfl (by decide) pcTags_wellFormed hhold (by decide)).mpr ?_
  have hlength : pcTags.read32 (acceptedSecond 0x8000).mbootPtr = 72 := by decide
  have hptr : (acceptedSecond 0x8000).mbootPtr = 0x8000 := rfl
  intro _ i hi
  omega

end MissyKernel
