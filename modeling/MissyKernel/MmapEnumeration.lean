import MissyKernel.MmapCalls

/-!
# Is the memory map enumerated exactly?

What the successive calls should answer is the list of the map's entries, each found
from the one before by that one's own size (first protocol) or at multiples of the
entry size that the tag gives (second protocol). What they do answer is in
`MmapCalls`. The first driver goes one entry too far for every map with an entry; the
second one is right where its own entry size is the tag's.

Both conditions are equivalences. For the first driver nothing but an empty map is left
(`reads_past_map`: where there is an entry, some call reads behind the map). For the second one
`StrideFits` also covers tags whose size or entry size no loader would write, since the code
does not look: a size below the header's wraps, and a small entry size makes the entries overlap.
-/

namespace MissyKernel

/-- Every call returns; call `k` answers 0 and `entry k`, or -1 where there is none. -/
def Enumerates (m : Mem) (st : Multiboot) (buf : MmapData) (entry : ℕ → Option MmapData) : Prop :=
  ∀ k, ∃ r buf' st', mmapCall m st buf k = some (r, buf', st') ∧
    match entry k with
    | some e => r = 0 ∧ buf' = e
    | none => r = -1

/-- Every entry that the calls read lies in a region. -/
def ReadsInside (m : Mem) (st : Multiboot) (buf : MmapData) (inside : ℕ → Prop) : Prop :=
  ∀ k r buf' st', mmapCall m st buf k = some (r, buf', st') → ∀ p ∈ st'.entriesRead, inside p

section Serves

variable {m : Mem} {st : Multiboot} {buf : MmapData} {count : ℕ} {addr : ℕ → ℕ}
  {data : ℕ → MmapData}

/-- Comparing what is answered with what should be. -/
theorem Serves.enumerates_iff (h : Serves m st buf count addr data)
    (entry : ℕ → Option MmapData) :
    Enumerates m st buf entry ↔
      ∀ k, entry k = if k < count ∧ addr k ≠ 0 then some (data (addr k)) else none := by
  refine forall_congr' fun k => ?_
  obtain ⟨r, buf', st', hcall, -, hanswer⟩ := h k
  rw [Answers] at hanswer
  constructor
  · rintro ⟨r', buf'', st'', hcall', hentry⟩
    rw [hcall] at hcall'
    cases hcall'
    by_cases hlt : k < count ∧ addr k ≠ 0
    · rw [if_pos hlt] at hanswer ⊢
      obtain ⟨rfl, rfl⟩ := hanswer
      rcases hk : entry k with _ | e
      · rw [hk] at hentry
        have hsame : (0 : ℤ) = -1 := hentry
        exact absurd hsame (by decide)
      · rw [hk] at hentry
        rw [hentry.2]
    · rw [if_neg hlt] at hanswer ⊢
      rcases hk : entry k with _ | e
      · rfl
      · rw [hk] at hentry
        exact absurd (hanswer.symm.trans hentry.1) (by decide)
  · intro hentry
    refine ⟨r, buf', st', hcall, ?_⟩
    rw [hentry]
    by_cases hlt : k < count ∧ addr k ≠ 0
    · rw [if_pos hlt] at hanswer ⊢
      exact hanswer
    · rw [if_neg hlt] at hanswer ⊢
      exact hanswer

end Serves

/-! ## The first protocol -/

/-- From `a` on, up to `z`, there are the map entries `entries`, one behind the other:
each a size and as many bytes as it says, room for the fields at least. -/
inductive EntryList (m : Mem) (z : ℕ) : ℕ → List ℕ → Prop where
  | last : EntryList m z z []
  | entry {a : ℕ} {entries : List ℕ} (hsize : 20 ≤ memoryMapSz m a)
    (hnext : EntryList m z (a + 4 + memoryMapSz m a) entries) : EntryList m z a (a :: entries)

/-- The structure at `p` has a memory map, of the entries `entries`. -/
structure HasMap (m : Mem) (p : ℕ) (entries : List ℕ) : Prop where
  /-- `MMAP_PRESENT` -/
  flag : (infoFlags m p).testBit 6 = true
  /-- the map ends below four gigabytes -/
  fits : infoMmapAddr m p + infoMmapLength m p < 2 ^ 32
  /-- its entries fill it -/
  list : EntryList m (infoMmapAddr m p + infoMmapLength m p) (infoMmapAddr m p) entries

/-- The fields of the entry at `q` lie inside the map. -/
def InMap (m : Mem) (p q : ℕ) : Prop :=
  infoMmapAddr m p ≤ q + 4 ∧ q + 24 ≤ infoMmapAddr m p + infoMmapLength m p

/-- The enumeration is exact: the entries in order, each once, then -1, and nothing
outside the map is read. -/
structure MapExact (m : Mem) (st : Multiboot) (buf : MmapData) (entries : List ℕ) : Prop where
  /-- the answers -/
  answers : Enumerates m st buf fun k => (entries[k]?).map (memoryMapInf m)
  /-- the entries read -/
  inside : ReadsInside m st buf (InMap m st.mbootPtr)

section First

variable {m : Mem} {st : Multiboot} {buf : MmapData} {p z a : ℕ} {entries : List ℕ}

theorem EntryList.le (h : EntryList m z a entries) : a ≤ z := by
  induction h with
  | last => exact le_refl z
  | entry hsize _ ih => omega

/-- An entry of a map ends in it. -/
theorem EntryList.first_le (h : EntryList m z a entries) (hne : entries ≠ []) :
    20 ≤ memoryMapSz m a ∧ a + 4 + memoryMapSz m a ≤ z := by
  cases h with
  | last => exact absurd rfl hne
  | entry hsize hnext => exact ⟨hsize, hnext.le⟩

/-- Where there is an entry, one of the calls reads past the end of the map: the last
one whose address is at most the end. -/
theorem reads_past_map (hmap : HasMap m p entries) (hne : entries ≠ []) :
    ∃ k < mapEntries m p, mapEntryAt m p k ≠ 0 ∧ ¬ InMap m p (mapEntryAt m p k) := by
  obtain ⟨hsize, hfirst⟩ := hmap.list.first_le hne
  have hfits := hmap.fits
  let k := (infoMmapLength m p - (memoryMapSz m (infoMmapAddr m p) + 4)) / 24
  have hk : k = (infoMmapLength m p - (memoryMapSz m (infoMmapAddr m p) + 4)) / 24 := rfl
  have haddr : mapEntryAt m p k =
      infoMmapAddr m p + memoryMapSz m (infoMmapAddr m p) + 4 + k * 24 :=
    Nat.mod_eq_of_lt (by omega)
  refine ⟨k, ?_, ?_, ?_⟩
  · rw [mapEntries]
    omega
  · rw [haddr]
    omega
  · rintro ⟨-, hend⟩
    rw [haddr] at hend
    omega

/-- **When the first driver's enumeration is exact.** Only for a map without entries: the address
of the next entry is computed from behind the first one, so the first entry is skipped and one
behind the end is answered.

The counter of the driver is right; the first call answers what lies behind the first entry, so
with one entry or more some call reads behind the map. -/
theorem mboot_enumeration_exact_iff (hst : FirstDriver p 0 st) (hread : st.entriesRead = [])
    (hmap : HasMap m p entries) (buf : MmapData) : MapExact m st buf entries ↔ entries = [] := by
  have hserves := firstDriver_serves hst hmap.flag hread buf
  obtain rfl := hst.ptr
  constructor
  · intro h
    by_contra hne
    obtain ⟨k, hk, hentry, hout⟩ := reads_past_map hmap hne
    exact hout ((hserves.reads_iff _).mp h.inside k hk hentry)
  · rintro rfl
    have hempty : infoMmapLength m st.mbootPtr = 0 := by
      have hlist := hmap.list
      generalize hz : infoMmapAddr m st.mbootPtr + infoMmapLength m st.mbootPtr = z at hlist
      cases hlist
      omega
    have hcount : mapEntries m st.mbootPtr = 0 := by rw [mapEntries, hempty]
    refine ⟨(hserves.enumerates_iff _).mpr fun k => ?_, (hserves.reads_iff _).mpr fun k hk => ?_⟩
    · rw [hcount, if_neg fun hlt => Nat.not_lt_zero k hlt.1]
      rfl
    · rw [hcount] at hk
      exact absurd hk (Nat.not_lt_zero k)

end First

/-- A structure whose map has two entries, 640 KiB and 63 MiB. -/
def pcInfo : Mem := Mem.ofWords 0x8000
  [0x41, 640, 64512, 0, 0, 0, 0, 0, 0, 0, 0, 48, 0x8034,
    20, 0, 0, 0xa0000, 0, 1, 20, 0x100000, 0, 0x3f00000, 0, 1]

theorem pcInfo_hasMap : HasMap pcInfo 0x8000 [0x8034, 0x804c] :=
  ⟨by decide, by decide, .entry (by decide) (.entry (by decide) .last)⟩

/-- The first call answers the second entry. -/
theorem pcInfo_skips_first :
    ¬ MapExact pcInfo (acceptedFirst 0x8000) ⟨0, 0, 0⟩ [0x8034, 0x804c] := by
  intro h
  have hserves := firstDriver_serves (firstDriver_accepted 0x8000) pcInfo_hasMap.flag rfl
    ⟨0, 0, 0⟩
  have hfirst := (hserves.enumerates_iff _).mp h.answers 0
  exact absurd hfirst (by decide)

/-- A structure whose map is empty. -/
def emptyInfo : Mem := Mem.ofWords 0x8000 [0x41, 640, 64512, 0, 0, 0, 0, 0, 0, 0, 0, 0, 0x8034]

/-- Its enumeration is exact. -/
theorem emptyInfo_exact :
    MapExact emptyInfo (acceptedFirst 0x8000) ⟨0, 0, 0⟩ [] :=
  (mboot_enumeration_exact_iff (firstDriver_accepted 0x8000) rfl
    ⟨by decide, by decide, .last⟩ ⟨0, 0, 0⟩).mpr rfl

/-! ## The second protocol -/

/-- The fields of the entry at `q` lie inside the tag at `t`, which may reach around the
end of the address space. -/
def InTag (m : Mem) (t q : ℕ) : Prop := (q + 2 ^ 32 - t) % 2 ^ 32 + 20 ≤ tagSize m t

/-- The entries of the memory-map tag at `t`: at multiples of its entry size, as long as
the whole entry lies inside the tag. -/
def tagEntry (m : Mem) (t k : ℕ) : Option MmapData :=
  if 16 + (k + 1) * tagEntrySz m t ≤ tagSize m t then
    some (entryMmap m ((t + 16 + k * tagEntrySz m t) % 2 ^ 32))
  else none

/-- The enumeration is exact: no call divides by zero, a tag too small for its own header
has no entry, entries that are large enough are answered in order, each once, then -1,
and nothing outside the tag is read. -/
structure TagExact (m : Mem) (st : Multiboot) (buf : MmapData) (t : ℕ) : Prop where
  /-- every call returns -/
  returns : ∀ k, (mmapCall m st buf k).isSome
  /-- a tag without room for entries -/
  short : tagSize m t < 16 → Enumerates m st buf fun _ => none
  /-- the answers -/
  answers : 24 ≤ tagEntrySz m t → Enumerates m st buf (tagEntry m t)
  /-- the entries read -/
  inside : ReadsInside m st buf (InTag m t)

/-- The driver's own way through the tag, with 24 bytes an entry and the size of the
header taken off without a test, is the tag's way. -/
structure StrideFits (m : Mem) (t : ℕ) : Prop where
  /-- the number of entries can be computed -/
  divisor : tagEntrySz m t ≠ 0
  /-- the difference that wraps is less than one entry -/
  short : tagSize m t < 16 → 2 ^ 32 + tagSize m t - 16 < tagEntrySz m t
  /-- the memory at the driver's addresses holds the entries -/
  stride : 16 ≤ tagSize m t → 24 ≤ tagEntrySz m t →
    ∀ k, 16 + (k + 1) * tagEntrySz m t ≤ tagSize m t →
      tagEntryAt t k ≠ 0 ∧
        entryMmap m (tagEntryAt t k) = entryMmap m ((t + 16 + k * tagEntrySz m t) % 2 ^ 32)
  /-- entries too small for their fields are few enough -/
  narrow : 16 ≤ tagSize m t → tagEntrySz m t < 24 →
    ∀ k < (tagSize m t - 16) / tagEntrySz m t,
      tagEntryAt t k ≠ 0 → (16 + 24 * k) % 2 ^ 32 + 20 ≤ tagSize m t

section Second

variable {m : Mem} {st : Multiboot} {buf : MmapData} {p t : ℕ}

/-- Where an entry of the driver lies in the tag. -/
theorem inTag_tagEntryAt (ht : t < 2 ^ 32) (k : ℕ) :
    InTag m t (tagEntryAt t k) ↔ (16 + 24 * k) % 2 ^ 32 + 20 ≤ tagSize m t := by
  have hoffset : (tagEntryAt t k + 2 ^ 32 - t) % 2 ^ 32 = (16 + 24 * k) % 2 ^ 32 := by
    rw [tagEntryAt]
    omega
  rw [InTag, hoffset]

/-- An entry of the tag has its fields in the tag. -/
theorem stride_fits (hentry : 24 ≤ tagEntrySz m t) {k : ℕ}
    (hk : 16 + (k + 1) * tagEntrySz m t ≤ tagSize m t) :
    (16 + 24 * k) % 2 ^ 32 + 20 ≤ tagSize m t := by
  have hlt : tagSize m t < 2 ^ 32 := Mem.read32_lt m _
  have hmul : (k + 1) * 24 ≤ (k + 1) * tagEntrySz m t := Nat.mul_le_mul_left _ hentry
  rw [Nat.mod_eq_of_lt (by omega)]
  omega

/-- Without an entry size the first call does not return. -/
theorem TagExact.divisor (h : TagExact m st buf t) (hst : SecondDriver p 0 st)
    (hfind : mboot2FindTag m st mboot2TypetagMmap = some (t, st)) (ht : t ≠ 0) :
    tagEntrySz m t ≠ 0 := by
  intro hzero
  have hreturns := h.returns 0
  rw [mmapCall_divides_by_zero hst hfind ht hzero] at hreturns
  exact absurd hreturns (by decide)

/-- An exact enumeration goes the tag's way. -/
theorem TagExact.strideFits (h : TagExact m st buf t)
    (hserves : Serves m st buf (tagEntries m t) (tagEntryAt t) (entryMmap m))
    (hentry : tagEntrySz m t ≠ 0) (ht : t + 16 < 2 ^ 32) : StrideFits m t := by
  refine ⟨hentry, fun hsize => ?_, fun hsize hwide k hk => ?_, fun hsize _ k hk hne => ?_⟩
  · -- otherwise the first call would answer an entry
    have hfirst := (hserves.enumerates_iff _).mp (h.short hsize) 0
    have hne : tagEntryAt t 0 ≠ 0 := by
      rw [tagEntryAt]
      omega
    by_contra hmany
    have hcount : 0 < tagEntries m t := by
      rw [tagEntries_of_lt hsize]
      exact Nat.div_pos (by omega) (by omega)
    rw [if_pos ⟨hcount, hne⟩] at hfirst
    cases hfirst
  · have hcall := (hserves.enumerates_iff _).mp (h.answers hwide) k
    rw [tagEntry, if_pos hk] at hcall
    by_cases hne : tagEntryAt t k = 0
    · rw [if_neg fun hboth => hboth.2 hne] at hcall
      cases hcall
    · rw [if_pos ⟨(lt_tagEntries_iff hsize hentry).mpr hk, hne⟩] at hcall
      exact ⟨hne, (Option.some.inj hcall).symm⟩
  · rw [← tagEntries_of_le hsize] at hk
    have hin := (hserves.reads_iff _).mp h.inside k hk hne
    exact (inTag_tagEntryAt (by omega) k).mp hin

/-- And the other way round. -/
theorem StrideFits.tagExact (h : StrideFits m t)
    (hserves : Serves m st buf (tagEntries m t) (tagEntryAt t) (entryMmap m))
    (ht : t + 16 < 2 ^ 32) : TagExact m st buf t := by
  have hshort : tagSize m t < 16 → tagEntries m t = 0 := by
    intro hsize
    rw [tagEntries_of_lt hsize]
    exact Nat.div_eq_of_lt (h.short hsize)
  refine ⟨fun k => ?_, fun hsize => ?_, fun hwide => ?_, ?_⟩
  · obtain ⟨_, _, _, hcall, -⟩ := hserves k
    rw [hcall]
    rfl
  · refine (hserves.enumerates_iff _).mpr fun k => ?_
    rw [hshort hsize, if_neg fun hboth => Nat.not_lt_zero k hboth.1]
  · refine (hserves.enumerates_iff _).mpr fun k => ?_
    rcases Nat.lt_or_ge (tagSize m t) 16 with hsize | hsize
    · rw [tagEntry, hshort hsize, if_neg (by omega), if_neg fun hboth => Nat.not_lt_zero k hboth.1]
    · have hcount := lt_tagEntries_iff (k := k) hsize h.divisor
      by_cases hk : 16 + (k + 1) * tagEntrySz m t ≤ tagSize m t
      · obtain ⟨hne, hdata⟩ := h.stride hsize hwide k hk
        rw [tagEntry, if_pos hk, if_pos ⟨hcount.mpr hk, hne⟩, hdata]
      · rw [tagEntry, if_neg hk, if_neg fun hboth => hk (hcount.mp hboth.1)]
  · refine (hserves.reads_iff _).mpr fun k hk hne => ?_
    rw [inTag_tagEntryAt (by omega)]
    rcases Nat.lt_or_ge (tagSize m t) 16 with hsize | hsize
    · rw [hshort hsize] at hk
      exact absurd hk (Nat.not_lt_zero k)
    · rcases Nat.lt_or_ge (tagEntrySz m t) 24 with hnarrow | hwide
      · rw [tagEntries_of_le hsize] at hk
        exact h.narrow hsize hnarrow k hk hne
      · exact stride_fits hwide ((lt_tagEntries_iff hsize h.divisor).mp hk)

/-- Tags with the driver's own entry size are enumerated exactly. -/
theorem strideFits_of_entrySz (hsize : 16 ≤ tagSize m t) (hentry : tagEntrySz m t = 24)
    (hfits : t + tagSize m t ≤ 2 ^ 32) : StrideFits m t := by
  refine ⟨by omega, fun h => absurd h (by omega), fun _ _ k hk => ?_,
    fun _ h => absurd h (by omega)⟩
  rw [hentry] at hk
  refine ⟨?_, ?_⟩
  · rw [tagEntryAt]
    omega
  · rw [tagEntryAt, hentry, Nat.mul_comm 24 k]

/-- **When the second driver's enumeration is exact.** The count is made with the tag's entry size,
the addresses with the driver's own 24 bytes, and nothing is tested.

`Serves` gives the answers of all calls at once, and comparing them with the entries of the tag,
one by one, gives the four clauses of `StrideFits`. Tags with entries of 24 bytes meet all of them
(`strideFits_of_entrySz`). -/
theorem mboot2_enumeration_exact_iff (hst : SecondDriver p 0 st) (hread : st.entriesRead = [])
    (hptr : p ≠ 0) (htag : TagsUntil m mboot2TypetagMmap t (p + 8)) (ht : t + 16 < 2 ^ 32)
    (buf : MmapData) : TagExact m st buf t ↔ StrideFits m t := by
  have hle := htag.le
  have hfind : ∀ st : Multiboot, st.mbootPtr = p →
      mboot2FindTag m st mboot2TypetagMmap = some (t, st) := by
    rintro st rfl
    exact htag.mboot2FindTag_eq hptr (by omega) (by decide)
  constructor
  · intro h
    have hentry := h.divisor hst (hfind st hst.ptr) (by omega)
    have hserves := secondDriver_serves hst hfind (by omega) hentry hread buf
    exact h.strideFits hserves hentry ht
  · intro h
    have hserves := secondDriver_serves hst hfind (by omega) h.divisor hread buf
    exact h.tagExact hserves ht

end Second

/-- A structure whose map has two entries of 24 bytes each: 640 KiB from 0, and 63 MiB from one
megabyte on. -/
def twoEntryTags : Mem := Mem.ofWords 0x8000
  [96, 0, 4, 16, 640, 64512, 6, 64, 24, 0,
    0, 0, 0xa0000, 0, 1, 0, 0x100000, 0, 0x3f00000, 0, 1, 0, 0, 8]

/-- Entries of 24 bytes are answered as they stand, and the second one is 24 bytes on. -/
theorem twoEntryTags_exact :
    TagExact twoEntryTags (acceptedSecond 0x8000) ⟨0, 0, 0⟩ 0x8018 ∧
      tagEntry twoEntryTags 0x8018 0 = some ⟨0, 0xa0000, 1⟩ ∧
      tagEntry twoEntryTags 0x8018 1 = some ⟨0x100000, 0x3f00000, 1⟩ ∧
      tagEntry twoEntryTags 0x8018 2 = none :=
  ⟨(mboot2_enumeration_exact_iff (secondDriver_accepted 0x8000) rfl (by decide)
    (.skip (by decide) (by decide) (by decide) (.found (by decide))) (by decide)
    ⟨0, 0, 0⟩).mpr (strideFits_of_entrySz (by decide) (by decide) (by decide)),
    by decide, by decide, by decide⟩

/-- A structure whose map has two entries of 32 bytes each. -/
def wideTags : Mem := Mem.ofWords 0x8000
  [112, 0, 4, 16, 640, 64512, 6, 80, 32, 0,
    0, 0, 0xa0000, 0, 1, 0, 0, 0, 0x100000, 0, 0x3f00000, 0, 1, 0, 0, 0, 0, 8]

/-- The second call answers the end of the first entry and the start of the second. -/
theorem wideTags_misread :
    ¬ TagExact wideTags (acceptedSecond 0x8000) ⟨0, 0, 0⟩ 0x8018 := by
  intro h
  have htag : TagsUntil wideTags mboot2TypetagMmap 0x8018 (0x8000 + 8) :=
    .skip (by decide) (by decide) (by decide) (.found (by decide))
  have hserves := secondDriver_serves (secondDriver_accepted 0x8000)
    (fun st hptr => TagsUntil.mboot2FindTag_eq (hptr ▸ htag) (by rw [hptr]; decide) (by decide)
      (by decide)) (by decide) (by decide) rfl ⟨0, 0, 0⟩
  have hsecond := (hserves.enumerates_iff _).mp (h.answers (by decide)) 1
  exact absurd hsecond (by decide)

end MissyKernel
