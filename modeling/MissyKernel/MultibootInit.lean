import MissyKernel.Multiboot

/-!
# What `multiboot_init` accepts

A multiboot2 structure is a list of tags, one behind the other, up to an end tag
(`TagList`), and the search is the first tag of its type on that list (`findTag_eq`).
From this the answers of `multiboot_init` can be read off for both protocols, and
compared with what should be accepted (`bootDataError`). The two drivers differ in one
check: the first protocol never asks whether the pointer is `NULL`.

`InitNamesCause` is what the caller relies on: usable data is accepted and its queries work, and
for other data the error is the first one of a fixed order. `initNamesCause_first` and
`initNamesCause_second` settle it for one protocol each. For the second one the structure has to
be well formed (`WellFormed2`); what the search does with any other is the subject of
`TagSearch`.
-/

namespace MissyKernel

/-! ## Tag lists -/

/-- From `p` on there are the tags `tags`, one behind the other, and then the end tag;
each has at least its header, and they lie below `bound`. -/
inductive TagList (m : Mem) (bound : ℕ) : ℕ → List ℕ → Prop where
  | last {p : ℕ} (hfit : p + 8 ≤ bound) (hend : tagType m p = mboot2TypetagEnd) :
    TagList m bound p []
  | tag {p : ℕ} {tags : List ℕ} (htype : tagType m p ≠ mboot2TypetagEnd)
    (hsize : 8 ≤ tagSize m p) (hfit : p + tagSize m p ≤ bound)
    (hnext : TagList m bound (p + (tagSize m p + 7) / 8 * 8) tags) : TagList m bound p (p :: tags)

/-- The multiboot2 structure at `p` is well formed, with the tags `tags` before the end
tag: they fill the length that the structure says it has. -/
structure WellFormed2 (m : Mem) (p : ℕ) (tags : List ℕ) : Prop where
  /-- the structure lies below four gigabytes -/
  fits : p + m.read32 p ≤ 2 ^ 32
  /-- the tags begin behind the header -/
  list : TagList m (p + m.read32 p) (p + 8) tags

/-- The first tag of a type. -/
def firstTag (m : Mem) (tags : List ℕ) (type : ℕ) : Option ℕ :=
  tags.find? fun p => tagType m p = type

theorem and_not_seven {x : ℕ} (hx : x < 2 ^ 32) : x &&& (0xffffffff ^^^ 7) = x / 8 * 8 :=
  and_not_low (k := 3) hx

section TagList

variable {m : Mem} {bound p type : ℕ} {tags : List ℕ}

theorem TagList.start_le (h : TagList m bound p tags) : p + 8 ≤ bound := by
  cases h with
  | last hfit _ => exact hfit
  | tag _ hsize hfit _ => omega

/-- The step of the search, where it does not wrap. -/
theorem nextTag_eq (h : p + (tagSize m p + 7) / 8 * 8 < 2 ^ 32) :
    nextTag m p = p + (tagSize m p + 7) / 8 * 8 := by
  have hround : tagSize m p + 7 < 2 ^ 32 := by omega
  rw [nextTag, Nat.mod_eq_of_lt hround, and_not_seven hround, Nat.mod_eq_of_lt h]

theorem TagList.length_le (h : TagList m bound p tags) : p + 8 * tags.length + 8 ≤ bound := by
  induction h with
  | last hfit _ => simpa using hfit
  | tag _ hsize _ _ ih =>
    rw [List.length_cons]
    omega

/-- The tags lie between the start of the list and its bound. -/
theorem TagList.mem_bounds (h : TagList m bound p tags) {t : ℕ} (ht : t ∈ tags) :
    p ≤ t ∧ t + tagSize m t ≤ bound ∧ tagType m t ≠ mboot2TypetagEnd := by
  induction h with
  | last _ _ => exact absurd ht List.not_mem_nil
  | tag htype _ hfit _ ih =>
    rcases List.mem_cons.mp ht with rfl | ht
    · exact ⟨le_refl _, hfit, htype⟩
    · obtain ⟨hle, hrest⟩ := ih ht
      exact ⟨by omega, hrest⟩

/-- Every tag has its header. -/
theorem TagList.header_le (h : TagList m bound p tags) {t : ℕ} (ht : t ∈ tags) :
    8 ≤ tagSize m t := by
  induction h with
  | last _ _ => exact absurd ht List.not_mem_nil
  | tag _ hsize _ _ ih =>
    rcases List.mem_cons.mp ht with rfl | ht
    · exact hsize
    · exact ih ht

/-- The search stops at the first tag of its type, or at the end tag. -/
theorem TagList.walk_eq (h : TagList m bound p tags) (hbound : bound ≤ 2 ^ 32) (type : ℕ)
    {fuel : ℕ} (hfuel : tags.length < fuel) :
    ∃ q, walk (nextTag m) (stopsAt m type) fuel p = some q ∧
      match firstTag m tags type with
      | some t => q = t
      | none => tagType m q = mboot2TypetagEnd := by
  induction h generalizing fuel with
  | @last p hfit hend =>
    obtain ⟨fuel, rfl⟩ := Nat.exists_eq_succ_of_ne_zero (Nat.ne_of_gt hfuel)
    refine ⟨p, ?_, hend⟩
    have hstop : stopsAt m type p := .inl hend
    rw [walk, if_pos hstop]
  | @tag p tags htype hsize hfit hnext ih =>
    obtain ⟨fuel, rfl⟩ := Nat.exists_eq_succ_of_ne_zero (Nat.ne_of_gt (Nat.zero_lt_of_lt hfuel))
    have hstart := hnext.start_le
    rw [walk, firstTag, List.find?_cons]
    by_cases hfound : tagType m p = type
    · have hstop : stopsAt m type p := .inr hfound
      rw [if_pos hstop, decide_eq_true hfound]
      exact ⟨p, rfl, rfl⟩
    · have hgo : ¬ stopsAt m type p := not_or.mpr ⟨htype, hfound⟩
      rw [if_neg hgo, decide_eq_false hfound, nextTag_eq (by omega)]
      exact ih (Nat.lt_of_succ_lt_succ hfuel)

/-- A tag that was found is on the list and has the type. -/
theorem firstTag_some {t : ℕ} (h : firstTag m tags type = some t) :
    t ∈ tags ∧ tagType m t = type := by
  refine ⟨List.mem_of_find?_eq_some h, ?_⟩
  simpa using List.find?_some h

theorem firstTag_isSome : (firstTag m tags type).isSome ↔ ∃ t ∈ tags, tagType m t = type := by
  rw [firstTag, List.find?_isSome]
  simp

/-- The first tag on a list of the same types. -/
theorem firstTag_map {m' : Mem} {f : ℕ → ℕ} (h : ∀ t ∈ tags, tagType m' (f t) = tagType m t)
    (type : ℕ) : firstTag m' (tags.map f) type = (firstTag m tags type).map f := by
  induction tags with
  | nil => rfl
  | cons t tags ih =>
    obtain ⟨ht, htags⟩ := List.forall_mem_cons.mp h
    have hrest := ih htags
    rw [firstTag, firstTag] at hrest
    rw [firstTag, firstTag, List.map_cons, List.find?_cons, List.find?_cons, ht]
    rcases decide (tagType m t = type) with _ | _
    · exact hrest
    · rfl

end TagList

section FindTag

variable {m : Mem} {tags : List ℕ} {type p : ℕ}

/-- `mboot2_find_tag` on a list of tags: the first tag of the type, or `NULL` and an
error. -/
theorem TagList.findTag_eq {bound : ℕ} (st : Multiboot) (h : TagList m bound (st.mbootPtr + 8) tags)
    (hbound : bound ≤ 2 ^ 32) (hptr : st.mbootPtr ≠ 0) (type : ℕ) :
    mboot2FindTag m st type =
      match firstTag m tags type with
      | some t => some (t, st)
      | none => some (0, st.setErrno mbootErrorEntryNotFound) := by
  have hstart := h.start_le
  have hlength := h.length_le
  obtain ⟨q, hwalk, hq⟩ := h.walk_eq hbound type (show tags.length < 2 ^ 32 by omega)
  have hsearch : mboot2FindTag m st type =
      if tagType m q = mboot2TypetagEnd then some (0, st.setErrno mbootErrorEntryNotFound)
      else some (q, st) := by
    rw [mboot2FindTag, if_neg hptr, Nat.mod_eq_of_lt (by omega), hwalk]
    rfl
  rw [hsearch]
  rcases hfind : firstTag m tags type with _ | t
  · rw [hfind] at hq
    exact if_pos hq
  · rw [hfind] at hq
    obtain rfl : q = t := hq
    exact if_neg (h.mem_bounds (firstTag_some hfind).1).2.2

/-- The same for a structure that has its length in front. -/
theorem mboot2FindTag_eq (st : Multiboot) (h : WellFormed2 m st.mbootPtr tags)
    (hptr : st.mbootPtr ≠ 0) (type : ℕ) :
    mboot2FindTag m st type =
      match firstTag m tags type with
      | some t => some (t, st)
      | none => some (0, st.setErrno mbootErrorEntryNotFound) :=
  h.list.findTag_eq st h.fits hptr type

/-- A tag that was found is not `NULL`. -/
theorem firstTag_ne_zero (h : WellFormed2 m p tags) {t : ℕ}
    (hfind : firstTag m tags type = some t) : t ≠ 0 := by
  have hle := (h.list.mem_bounds (firstTag_some hfind).1).1
  omega

end FindTag

/-! ## What should be accepted -/

/-- The boot data has the memory size: flag bit 0, or a tag before the end tag. -/
def HasMemsz (m : Mem) (magic p : ℕ) (tags : List ℕ) : Prop :=
  if magic = multibootMagic then (infoFlags m p).testBit 0 = true
  else ∃ t ∈ tags, tagType m t = mboot2TypetagMemsz

/-- And the memory map: flag bit 6, or a tag before the end tag. -/
def HasMmap (m : Mem) (magic p : ℕ) (tags : List ℕ) : Prop :=
  if magic = multibootMagic then (infoFlags m p).testBit 6 = true
  else ∃ t ∈ tags, tagType m t = mboot2TypetagMmap

instance (m : Mem) (magic p : ℕ) (tags : List ℕ) : Decidable (HasMemsz m magic p tags) := by
  unfold HasMemsz
  infer_instance

instance (m : Mem) (magic p : ℕ) (tags : List ℕ) : Decidable (HasMmap m magic p tags) := by
  unfold HasMmap
  infer_instance

/-- Why boot data is to be rejected, the first reason first; `none` is for usable data. -/
def bootDataError (m : Mem) (magic p : ℕ) (tags : List ℕ) : Option ℕ :=
  if p % 8 ≠ 0 then some mbootErrorMisalignedHeader
  else if magic ≠ multibootMagic ∧ magic ≠ multiboot2Magic then some mbootErrorUnsupported
  else if p = 0 then some mbootErrorInvalidBootstruct
  else if ¬ HasMemsz m magic p tags then some mbootErrorInvalidMemsize
  else if ¬ HasMmap m magic p tags then some mbootErrorInvalidMemoryMap
  else none

/-- The memory size: the lower and the upper count, added up. -/
def bootMemsz (m : Mem) (magic p : ℕ) (tags : List ℕ) : Option ℕ :=
  if magic = multibootMagic then some ((infoMemorySzLo m p + infoMemorySzHi m p) % 2 ^ 32)
  else (firstTag m tags mboot2TypetagMemsz).map (tagMemsz m)

/-- The later queries work: the memory size is the structure's, and a step through the
map, however many there were before, reports no error of its own. -/
structure QueriesWork (m : Mem) (magic p : ℕ) (tags : List ℕ) (st : Multiboot) : Prop where
  /-- the memory size -/
  memsz : (multibootGetMemsz m st).map Prod.fst = bootMemsz m magic p tags
  /-- a step through the map leaves `kinit_errno` alone -/
  mmap : ∀ (st' : Multiboot) (buf : MmapData) (answer : ℤ × MmapData × Multiboot),
    st'.mbootPtr = st.mbootPtr → st'.apiStruct = st.apiStruct →
    multibootGetMmapNext m st' buf = some answer → answer.2.2.kinitErrno = st'.kinitErrno

/-- `multiboot_init` accepts usable boot data, with working queries, and names the first
reason to reject other data. -/
def InitNamesCause (m : Mem) (st : Multiboot) (p magic : ℕ) (tags : List ℕ) : Prop :=
  ∃ r st', multibootInit m st p magic = some (r, st') ∧
    match bootDataError m magic p tags with
    | some e => r = -1 ∧ st'.kinitErrno = e
    | none => r = 0 ∧ QueriesWork m magic p tags st'

/-! ## The first protocol -/

section First

variable {m : Mem} {st : Multiboot} {tags : List ℕ} {p : ℕ}

theorem and_memszPresent {x : ℕ} : x &&& memszPresent = 0 ↔ x.testBit 0 = false :=
  and_shift_eq_zero (x := x) (j := 0)

theorem and_mmapPresent {x : ℕ} : x &&& mmapPresent = 0 ↔ x.testBit 6 = false :=
  and_shift_eq_zero (x := x) (j := 6)

/-- The driver of the first protocol in the table. -/
def installed (st : Multiboot) : Multiboot :=
  { st with apiStruct :=
    { st.apiStruct with
      getMemorySize := .mbootGetMemorySize
      getNextMmapEntry := .mbootGetNextMmapEntry } }

/-- `init_multiboot`: the two flags, in order. -/
theorem initMultiboot_eq (m : Mem) (st : Multiboot) :
    initMultiboot m st =
      if (infoFlags m st.mbootPtr).testBit 0 = false then
        (-1, (installed st).setErrno mbootErrorInvalidMemsize)
      else if (infoFlags m st.mbootPtr).testBit 6 = false then
        (-1, (installed st).setErrno mbootErrorInvalidMemoryMap)
      else (0, installed st) := by
  simp only [initMultiboot, multibootRequired, checkMultibootFlags, and_memszPresent,
    and_mmapPresent]
  rfl

/-- With both flags the queries work. -/
theorem installed_queriesWork (st : Multiboot) (tags : List ℕ)
    (h0 : (infoFlags m st.mbootPtr).testBit 0 = true)
    (h6 : (infoFlags m st.mbootPtr).testBit 6 = true) :
    QueriesWork m multibootMagic st.mbootPtr tags (installed st) := by
  refine ⟨?_, ?_⟩
  · have hflag : ¬ infoFlags m st.mbootPtr &&& memszPresent = 0 := by
      rw [and_memszPresent, h0]
      decide
    rw [bootMemsz, if_pos rfl]
    change some (mbootGetMemorySize m (installed st) 0).2.1 = _
    change ¬ infoFlags m (installed st).mbootPtr &&& memszPresent = 0 at hflag
    rw [mbootGetMemorySize, if_neg hflag]
    rfl
  · intro st' buf answer hptr hapi hcall
    have hflag : ¬ infoFlags m st'.mbootPtr &&& mmapPresent = 0 := by
      have hsame : st'.mbootPtr = st.mbootPtr := hptr
      rw [and_mmapPresent, hsame, h6]
      decide
    have hnext : (multibootNextMmap m st').2.kinitErrno = st'.kinitErrno := by
      rw [multibootNextMmap]
      split <;> rfl
    have hentry : (mbootGetNextMmapEntry m st' buf).2.2.kinitErrno = st'.kinitErrno := by
      rw [mbootGetNextMmapEntry, if_neg hflag]
      dsimp only
      split
      · exact hnext
      · exact hnext
    simp only [multibootGetMmapNext, hapi, installed, Option.bind_eq_bind,
      Option.bind_some] at hcall
    split at hcall
    · cases hcall
      exact hentry
    · cases hcall
      exact hentry

end First

/-! ## The second protocol -/

section Second

variable {m : Mem} {st : Multiboot} {tags : List ℕ} {p : ℕ}

/-- The driver of the second protocol in the table. -/
def installed2 (st : Multiboot) : Multiboot :=
  { st with apiStruct := ⟨.mboot2GetMemorySize, .mboot2GetNextMmap, .mboot2RelocateTags⟩ }

/-- `init_multiboot2` on a well-formed structure: the two tags, in order. -/
theorem initMultiboot2_eq (st : Multiboot) (h : WellFormed2 m st.mbootPtr tags)
    (hptr : st.mbootPtr ≠ 0) :
    initMultiboot2 m st =
      if (firstTag m tags mboot2TypetagMemsz).isNone then
        some (-1, (installed2 st).setErrno mbootErrorInvalidMemsize)
      else if (firstTag m tags mboot2TypetagMmap).isNone then
        some (-1, (installed2 st).setErrno mbootErrorInvalidMemoryMap)
      else some (0, installed2 st) := by
  have hmemszFind := mboot2FindTag_eq (installed2 st) h hptr mboot2TypetagMemsz
  have hmmapFind := mboot2FindTag_eq (installed2 st) h hptr mboot2TypetagMmap
  change checkMultiboot2Tags m (installed2 st) multiboot2Required = _
  rcases hmemsz : firstTag m tags mboot2TypetagMemsz with _ | t
  · rw [hmemsz] at hmemszFind
    simp only [multiboot2Required, checkMultiboot2Tags, hmemszFind]
    rfl
  have ht : t ≠ 0 := firstTag_ne_zero h hmemsz
  rw [hmemsz] at hmemszFind
  rcases hmmap : firstTag m tags mboot2TypetagMmap with _ | u
  · rw [hmmap] at hmmapFind
    simp only [multiboot2Required, checkMultiboot2Tags, hmemszFind, hmmapFind,
      Option.bind_eq_bind, Option.bind_some, if_neg ht]
    rfl
  · have hu : u ≠ 0 := firstTag_ne_zero h hmmap
    rw [hmmap] at hmmapFind
    simp only [multiboot2Required, checkMultiboot2Tags, hmemszFind, hmmapFind,
      Option.bind_eq_bind, Option.bind_some, if_neg ht, if_neg hu]
    rfl

/-- Without a structure the search says so, and so does `init_multiboot2`. -/
theorem initMultiboot2_null (m : Mem) (hptr : st.mbootPtr = 0) :
    initMultiboot2 m st = some (-1, (installed2 st).setErrno mbootErrorInvalidBootstruct) := by
  have hfind : mboot2FindTag m (installed2 st) mboot2TypetagMemsz =
      some (0, (installed2 st).setErrno mbootErrorInvalidBootstruct) := if_pos hptr
  change checkMultiboot2Tags m (installed2 st) multiboot2Required = _
  simp only [multiboot2Required, checkMultiboot2Tags, hfind]
  rfl

/-- A step through the map leaves `kinit_errno` alone where there is a map. -/
theorem mboot2GetNextMmap_errno {t : ℕ} {buf : MmapData} {answer : ℤ × MmapData × Multiboot}
    (h : WellFormed2 m st.mbootPtr tags) (hptr : st.mbootPtr ≠ 0)
    (hmmap : firstTag m tags mboot2TypetagMmap = some t)
    (hcall : mboot2GetNextMmap m st buf = some answer) :
    answer.2.2.kinitErrno = st.kinitErrno := by
  have ht := firstTag_ne_zero h hmmap
  have hfind := mboot2FindTag_eq st h hptr mboot2TypetagMmap
  rw [hmmap] at hfind
  simp only [mboot2GetNextMmap, mboot2NextMmap, hfind, Option.bind_eq_bind, Option.bind_some,
    if_neg ht] at hcall
  by_cases hentry : tagEntrySz m t = 0
  · rw [if_pos hentry] at hcall
    cases hcall
  · rw [if_neg hentry] at hcall
    obtain ⟨⟨next, st'⟩, hnext, hcall⟩ := Option.bind_eq_some_iff.mp hcall
    have herrno : st'.kinitErrno = st.kinitErrno := by
      split at hnext
      · cases hnext
        rfl
      · cases hnext
        rfl
    dsimp only at hcall
    split at hcall
    · cases hcall
      exact herrno
    · cases hcall
      exact herrno

/-- With both tags the queries work. -/
theorem installed2_queriesWork (st : Multiboot) {magic : ℕ} (hmagic : magic ≠ multibootMagic)
    (h : WellFormed2 m st.mbootPtr tags) (hptr : st.mbootPtr ≠ 0) {t u : ℕ}
    (hmemsz : firstTag m tags mboot2TypetagMemsz = some t)
    (hmmap : firstTag m tags mboot2TypetagMmap = some u) :
    QueriesWork m magic st.mbootPtr tags (installed2 st) := by
  refine ⟨?_, ?_⟩
  · have ht := firstTag_ne_zero h hmemsz
    have hfind := mboot2FindTag_eq (installed2 st) h hptr mboot2TypetagMemsz
    rw [hmemsz] at hfind
    rw [bootMemsz, if_neg hmagic, hmemsz]
    change ((mboot2GetMemorySize m (installed2 st) 0).map Prod.snd).map Prod.fst = _
    simp only [mboot2GetMemorySize, hfind, Option.bind_eq_bind, Option.bind_some, if_neg ht]
    rfl
  · intro st' buf answer hsame hapi hcall
    have hwf : WellFormed2 m st'.mbootPtr tags := by
      rw [hsame]
      exact h
    have hptr' : st'.mbootPtr ≠ 0 := by
      rw [hsame]
      exact hptr
    simp only [multibootGetMmapNext, hapi, installed2, Option.bind_eq_bind] at hcall
    obtain ⟨⟨r, buf', s⟩, hnext, hcall⟩ := Option.bind_eq_some_iff.mp hcall
    have herrno := mboot2GetNextMmap_errno hwf hptr' hmmap hnext
    dsimp only at hcall herrno
    split at hcall
    · cases hcall
      exact herrno
    · cases hcall
      exact herrno

end Second

/-! ## `multiboot_init` -/

theorem and_seven {p : ℕ} : p &&& 7 = p % 8 := Nat.and_two_pow_sub_one_eq_mod p 3

/-- The state the drivers start from. -/
def started (st : Multiboot) (p magic : ℕ) : Multiboot :=
  { st with bootMagic := magic, mbootPtr := p, apiStruct := initApiStruct }

section Init

variable {m : Mem} {st st' : Multiboot} {tags : List ℕ} {p magic e : ℕ}

theorem multibootInit_misaligned (hp : p % 8 ≠ 0) (magic : ℕ) :
    multibootInit m st p magic = some (-1, st.setErrno mbootErrorMisalignedHeader) := by
  rw [multibootInit, and_seven, if_pos hp]

theorem multibootInit_aligned (m : Mem) (st : Multiboot) (hp : p % 8 = 0) (magic : ℕ) :
    multibootInit m st p magic =
      if magic = multibootMagic then some (initMultiboot m (started st p magic))
      else if magic = multiboot2Magic then initMultiboot2 m (started st p magic)
      else some (-1, (started st p magic).setErrno mbootErrorUnsupported) := by
  have haligned : ¬ (p &&& 7 ≠ 0) := by
    rw [and_seven]
    exact not_not_intro hp
  rw [multibootInit, if_neg haligned]
  rfl

/-- A rejection has to name the first reason. -/
theorem initNamesCause_of_rejected (hcall : multibootInit m st p magic = some (-1, st')) :
    InitNamesCause m st p magic tags ↔ bootDataError m magic p tags = some st'.kinitErrno := by
  constructor
  · rintro ⟨r, s, hres, hcause⟩
    rw [hcall] at hres
    cases hres
    rcases hdata : bootDataError m magic p tags with _ | e
    · rw [hdata] at hcause
      exact absurd hcause.1 (by decide)
    · rw [hdata] at hcause
      rw [hcause.2]
  · intro hdata
    refine ⟨-1, st', hcall, ?_⟩
    rw [hdata]
    exact ⟨rfl, rfl⟩

/-- Only usable data may be accepted, and then the queries have to work. -/
theorem initNamesCause_of_accepted (hcall : multibootInit m st p magic = some (0, st')) :
    InitNamesCause m st p magic tags ↔
      bootDataError m magic p tags = none ∧ QueriesWork m magic p tags st' := by
  constructor
  · rintro ⟨r, s, hres, hcause⟩
    rw [hcall] at hres
    cases hres
    rcases hdata : bootDataError m magic p tags with _ | e
    · rw [hdata] at hcause
      exact ⟨rfl, hcause.2⟩
    · rw [hdata] at hcause
      exact absurd hcause.1 (by decide)
  · rintro ⟨hdata, hqueries⟩
    refine ⟨0, st', hcall, ?_⟩
    rw [hdata]
    exact ⟨rfl, hqueries⟩

/-- The reasons that are left once the loader is known. -/
theorem bootDataError_supported (m : Mem) (tags : List ℕ) (hp : p % 8 = 0)
    (hmagic : magic = multibootMagic ∨ magic = multiboot2Magic) :
    bootDataError m magic p tags =
      if p = 0 then some mbootErrorInvalidBootstruct
      else if ¬ HasMemsz m magic p tags then some mbootErrorInvalidMemsize
      else if ¬ HasMmap m magic p tags then some mbootErrorInvalidMemoryMap
      else none := by
  have hsupported : ¬ (magic ≠ multibootMagic ∧ magic ≠ multiboot2Magic) := by
    rintro ⟨h, h'⟩
    exact hmagic.elim h h'
  rw [bootDataError, if_neg (not_not_intro hp), if_neg hsupported]

/-- The first protocol asks for the flags, but not for the pointer. -/
theorem initNamesCause_first (hp : p % 8 = 0) :
    InitNamesCause m st p multibootMagic tags ↔ p ≠ 0 := by
  have hinit := initMultiboot_eq m (started st p multibootMagic)
  have hcall := multibootInit_aligned m st hp multibootMagic
  have hdata := bootDataError_supported m tags hp (.inl rfl)
  rw [if_pos rfl, hinit] at hcall
  simp only [HasMemsz, HasMmap, if_true] at hdata
  change multibootInit m st p multibootMagic = some
    (if (infoFlags m p).testBit 0 = false then _
      else if (infoFlags m p).testBit 6 = false then _ else _) at hcall
  rcases h0 : (infoFlags m p).testBit 0 with _ | _
  · -- no memory size
    rw [h0, if_pos rfl] at hcall
    rw [initNamesCause_of_rejected hcall, hdata, h0]
    rcases eq_or_ne p 0 with rfl | hne
    · simp [mbootErrorInvalidBootstruct, mbootErrorInvalidMemsize, Multiboot.setErrno]
    · simp [hne, Multiboot.setErrno]
  rw [h0, if_neg (by decide)] at hcall
  rcases h6 : (infoFlags m p).testBit 6 with _ | _
  · -- no memory map
    rw [h6, if_pos rfl] at hcall
    rw [initNamesCause_of_rejected hcall, hdata, h0, h6]
    rcases eq_or_ne p 0 with rfl | hne
    · simp [mbootErrorInvalidBootstruct, mbootErrorInvalidMemoryMap, Multiboot.setErrno]
    · simp [hne, Multiboot.setErrno]
  · -- both are there
    rw [h6, if_neg (by decide)] at hcall
    rw [initNamesCause_of_accepted hcall, hdata, h0, h6]
    have hqueries := installed_queriesWork (started st p multibootMagic) tags h0 h6
    rcases eq_or_ne p 0 with rfl | hne
    · simp
    · simp [hne]
      exact hqueries

/-- The second protocol asks for both. -/
theorem initNamesCause_second (hp : p % 8 = 0) (hwf : p ≠ 0 → WellFormed2 m p tags) :
    InitNamesCause m st p multiboot2Magic tags := by
  have hmagics : multiboot2Magic ≠ multibootMagic := by decide
  have hcall := multibootInit_aligned m st hp multiboot2Magic
  have hdata := bootDataError_supported m tags hp (.inr rfl)
  rw [if_neg hmagics, if_pos rfl] at hcall
  simp only [HasMemsz, HasMmap, if_neg hmagics, ← firstTag_isSome] at hdata
  rcases eq_or_ne p 0 with rfl | hne
  · rw [initMultiboot2_null m rfl] at hcall
    rw [initNamesCause_of_rejected hcall, hdata]
    rfl
  have h := hwf hne
  rw [initMultiboot2_eq (started st p multiboot2Magic) h hne] at hcall
  rcases hmemsz : firstTag m tags mboot2TypetagMemsz with _ | t
  · rw [hmemsz] at hcall hdata
    rw [initNamesCause_of_rejected hcall, hdata, if_neg hne]
    rfl
  rcases hmmap : firstTag m tags mboot2TypetagMmap with _ | u
  · rw [hmemsz, hmmap] at hcall hdata
    rw [initNamesCause_of_rejected hcall, hdata, if_neg hne]
    rfl
  · have hqueries := installed2_queriesWork (started st p multiboot2Magic) hmagics h hne
      hmemsz hmmap
    rw [hmemsz, hmmap] at hcall hdata
    rw [initNamesCause_of_accepted hcall, hdata, if_neg hne]
    exact ⟨rfl, hqueries⟩

end Init

/-- **When `multiboot_init` is exact.** It accepts the usable boot data and names the first reason
to reject other data, whatever `kinit_errno` held before, except for a `NULL` pointer with the
first protocol's magic number.

By the magic number. For the second protocol `firstTag` stands for the search, and `NULL` is
refused because there are no tags to find; for the first one the flags are read at whatever address
was given, 0 included. -/
theorem multiboot_init_exact_iff (m : Mem) (st : Multiboot) (p magic : ℕ) (tags : List ℕ)
    (hwf : magic = multiboot2Magic → p % 8 = 0 → p ≠ 0 → WellFormed2 m p tags) :
    InitNamesCause m st p magic tags ↔ ¬ (p = 0 ∧ magic = multibootMagic) := by
  by_cases hp : p % 8 = 0
  swap
  · -- a misaligned pointer
    refine iff_of_true ?_ fun h => hp (by rw [h.1])
    rw [initNamesCause_of_rejected (multibootInit_misaligned hp magic), bootDataError, if_pos hp]
    rfl
  rcases eq_or_ne magic multibootMagic with rfl | hfirst
  · rw [initNamesCause_first hp]
    simp
  rcases eq_or_ne magic multiboot2Magic with rfl | hsecond
  · exact iff_of_true (initNamesCause_second hp (hwf rfl hp)) fun h => hfirst h.2
  · -- another loader
    refine iff_of_true ?_ fun h => hfirst h.2
    have hcall := multibootInit_aligned m st hp magic
    rw [if_neg hfirst, if_neg hsecond] at hcall
    rw [initNamesCause_of_rejected hcall, bootDataError, if_neg (not_not_intro hp),
      if_pos ⟨hfirst, hsecond⟩]
    rfl

/-- A structure with a memory size and a map of one entry: 640 KiB and 63 MiB. -/
def pcTags : Mem := Mem.ofWords 0x8000
  [72, 0, 4, 16, 640, 64512, 6, 40, 24, 0, 0x100000, 0, 0x3f00000, 0, 1, 0, 0, 8]

/-- It is well formed. -/
theorem pcTags_wellFormed : WellFormed2 pcTags 0x8000 [0x8008, 0x8018] := by
  refine ⟨by decide, .tag (by decide) (by decide) (by decide) ?_⟩
  refine .tag (by decide) (by decide) (by decide) (.last (by decide) (by decide))

/-- It is accepted, and its queries work. -/
theorem pcTags_accepted :
    InitNamesCause pcTags (Multiboot.start 0) 0x8000 multiboot2Magic [0x8008, 0x8018] :=
  (multiboot_init_exact_iff pcTags (Multiboot.start 0) 0x8000 multiboot2Magic
    [0x8008, 0x8018] fun _ _ _ => pcTags_wellFormed).mpr (by decide)

/-- With both flags in the word at address 0, a `NULL` pointer is accepted. -/
theorem null_accepted :
    ¬ InitNamesCause (Mem.ofWords 0 [0x41]) (Multiboot.start 0) 0 multibootMagic [] := by
  rw [initNamesCause_first (by decide)]
  exact not_not_intro rfl

end MissyKernel
