import MissyKernel.MultibootInit
import MissyKernel.Numerals

/-!
# The search for a tag (`mboot2_find_tag`)

Two questions about one loop. On any structure at all: which bytes does it read, and does
it end? The loop looks at the type and the size of each tag it comes to, and never at the
size of the structure, so it is the tags that have to keep it inside (`StopsInside`). On
a structure written as tags one behind the other: it finds the first tag of the type,
whatever stands in the payloads, because it only ever comes to the beginning of a tag.

The first question has an answer without any assumption on memory: `StopsInside` is an inductive
predicate on the types and sizes the search meets, and the bound on the steps is proved to be
enough. The second one starts from bytes: `encodeTags` writes a list of tags, and `Reads` says
that memory holds them.
-/

namespace MissyKernel

/-! ## What the search reads -/

/-- The bytes that one round of the search reads: the type of the tag, and its size where
the search goes on. -/
def tagReads (m : Mem) (type p : ℕ) : List ℕ :=
  List.range' p (if stopsAt m type p then 4 else 8)

/-- The bytes that `mboot2_find_tag` reads. -/
def mboot2FindTagReads (m : Mem) (st : Multiboot) (type : ℕ) : List ℕ :=
  if st.mbootPtr = 0 then []
  else
    (visited (nextTag m) (stopsAt m type) (2 ^ 32) ((st.mbootPtr + 8) % 2 ^ 32)).flatMap
      (tagReads m type)

/-- From the tag at `p` on the search ends, and all it reads lies from `lo` to `hi`: every
tag it passes has its header there, and the one it stops at its type. -/
inductive StopsInside (m : Mem) (type lo hi : ℕ) : ℕ → Prop where
  | stop {p : ℕ} (hstop : stopsAt m type p) (hlo : lo ≤ p) (hhi : p + 4 ≤ hi) :
    StopsInside m type lo hi p
  | pass {p : ℕ} (hgo : ¬ stopsAt m type p) (hlo : lo ≤ p) (hhi : p + 8 ≤ hi)
    (hnext : StopsInside m type lo hi (nextTag m p)) : StopsInside m type lo hi p

section Reads

variable {m : Mem} {type lo hi p : ℕ}

theorem nextTag_lt (m : Mem) (p : ℕ) : nextTag m p < 2 ^ 32 := Nat.mod_lt _ (by decide)

theorem range'_inside {n : ℕ} (hn : 0 < n) (h : ∀ x ∈ List.range' p n, lo ≤ x ∧ x < hi) :
    lo ≤ p ∧ p + n ≤ hi := by
  have hfirst := h p (List.mem_range'_1.mpr (by omega))
  have hlast := h (p + (n - 1)) (List.mem_range'_1.mpr (by omega))
  omega

/-- The search from a tag, round by round. -/
theorem stopsInside_iff :
    StopsInside m type lo hi p ↔
      ∃ fuel q, walk (nextTag m) (stopsAt m type) fuel p = some q ∧
        ∀ x ∈ (visited (nextTag m) (stopsAt m type) fuel p).flatMap (tagReads m type),
          lo ≤ x ∧ x < hi := by
  constructor
  · intro h
    induction h with
    | @stop p hstop hlo hhi =>
      refine ⟨1, p, by rw [walk, if_pos hstop], fun x hx => ?_⟩
      rw [visited, if_pos hstop, List.flatMap_singleton, tagReads, if_pos hstop,
        List.mem_range'_1] at hx
      omega
    | @pass p hgo hlo hhi _ ih =>
      obtain ⟨fuel, q, hwalk, hreads⟩ := ih
      refine ⟨fuel + 1, q, by rw [walk, if_neg hgo, hwalk], fun x hx => ?_⟩
      rw [visited, if_neg hgo, List.flatMap_cons, List.mem_append, tagReads, if_neg hgo,
        List.mem_range'_1] at hx
      rcases hx with hx | hx
      · omega
      · exact hreads x hx
  · rintro ⟨fuel, q, hwalk, hreads⟩
    induction fuel generalizing p with
    | zero => exact absurd hwalk (Option.some_ne_none q).symm
    | succ fuel ih =>
      rw [walk] at hwalk
      rw [visited] at hreads
      by_cases hstop : stopsAt m type p
      · rw [if_pos hstop, List.flatMap_singleton, tagReads, if_pos hstop] at hreads
        have hinside := range'_inside (by decide) hreads
        exact .stop hstop hinside.1 hinside.2
      · rw [if_neg hstop] at hwalk
        rw [if_neg hstop, List.flatMap_cons, tagReads, if_neg hstop] at hreads
        have hinside := range'_inside (by decide) fun x hx =>
          hreads x (List.mem_append_left _ hx)
        exact .pass hstop hinside.1 hinside.2
          (ih hwalk fun x hx => hreads x (List.mem_append_right _ hx))

/-- The search returns exactly when the loop ends. -/
theorem mboot2FindTag_isSome (st : Multiboot) (hptr : st.mbootPtr ≠ 0) :
    (∃ r, mboot2FindTag m st type = some r) ↔
      ∃ q, walk (nextTag m) (stopsAt m type) (2 ^ 32) ((st.mbootPtr + 8) % 2 ^ 32) = some q := by
  rw [mboot2FindTag, if_neg hptr]
  constructor
  · rintro ⟨r, hr⟩
    obtain ⟨q, hwalk, -⟩ := Option.bind_eq_some_iff.mp hr
    exact ⟨q, hwalk⟩
  · rintro ⟨q, hwalk⟩
    rw [hwalk]
    by_cases hend : tagType m q = mboot2TypetagEnd
    · exact ⟨_, if_pos hend⟩
    · exact ⟨_, if_neg hend⟩

/-- **When the search is bounded.** `mboot2_find_tag` returns, with all it reads inside the
structure, exactly when there is no structure or the tags lead it to an end tag or to a tag of the
type before they lead it out.

Round by round: a tag whose header lies inside is read, and the next one is where its size says,
eight bytes at a time. A size of zero stays where it is, so such a search never ends; the number of
rounds is bounded because a search that ends comes to no tag twice. -/
theorem find_tag_bounded_iff (m : Mem) (st : Multiboot) (type : ℕ) :
    ((∃ r, mboot2FindTag m st type = some r) ∧
      ∀ x ∈ mboot2FindTagReads m st type,
        st.mbootPtr ≤ x ∧ x < st.mbootPtr + (mboot2GetStructureLength m st).1) ↔
      st.mbootPtr = 0 ∨
        StopsInside m type st.mbootPtr (st.mbootPtr + m.read32 st.mbootPtr)
          ((st.mbootPtr + 8) % 2 ^ 32) := by
  by_cases hptr : st.mbootPtr = 0
  · refine iff_of_true ⟨⟨_, by rw [mboot2FindTag, if_pos hptr]⟩, fun x hx => ?_⟩ (.inl hptr)
    rw [mboot2FindTagReads, if_pos hptr] at hx
    exact absurd hx List.not_mem_nil
  · rw [or_iff_right hptr, stopsInside_iff, mboot2FindTag_isSome st hptr, mboot2FindTagReads,
      if_neg hptr, mboot2GetStructureLength, if_neg hptr]
    have hfirst : (st.mbootPtr + 8) % 2 ^ 32 < 2 ^ 32 := Nat.mod_lt _ (by decide)
    constructor
    · rintro ⟨⟨q, hwalk⟩, hreads⟩
      exact ⟨2 ^ 32, q, hwalk, hreads⟩
    · rintro ⟨fuel, q, hwalk, hreads⟩
      -- there are only so many addresses
      have hall := walk_eq_of_lt hfirst (nextTag_lt m) hwalk
      have hsame : visited (nextTag m) (stopsAt m type) (2 ^ 32) ((st.mbootPtr + 8) % 2 ^ 32) =
          visited (nextTag m) (stopsAt m type) fuel ((st.mbootPtr + 8) % 2 ^ 32) := by
        rcases Nat.le_total fuel (2 ^ 32) with hle | hle
        · exact visited_mono hwalk hle
        · exact (visited_mono hall hle).symm
      rw [hsame]
      exact ⟨⟨q, hall⟩, hreads⟩

/-- The tags of a well-formed list keep the search inside. -/
theorem TagList.stopsInside {tags : List ℕ} (h : TagList m hi p tags) (hlo : lo ≤ p)
    (hhi : hi ≤ 2 ^ 32) (type : ℕ) : StopsInside m type lo hi p := by
  induction h with
  | last hfit hend => exact .stop (.inl hend) hlo (by omega)
  | @tag p tags htype hsize hfit hnext ih =>
    by_cases hstop : stopsAt m type p
    · exact .stop hstop hlo (by omega)
    · have hstart := hnext.start_le
      refine .pass hstop hlo (by omega) ?_
      rw [nextTag_eq (by omega)]
      exact ih (by omega)

/-- The bound on a well-formed structure. -/
theorem WellFormed2.stopsInside {tags : List ℕ} (h : WellFormed2 m p tags) (type : ℕ) :
    StopsInside m type p (p + m.read32 p) ((p + 8) % 2 ^ 32) := by
  have hstart := h.list.start_le
  have hfits := h.fits
  rw [Nat.mod_eq_of_lt (by omega)]
  exact h.list.stopsInside (by omega) hfits type

end Reads

/-- A structure of 16 bytes whose first tag, of type 1, has the size 0. -/
def sizelessTag : Mem := Mem.ofWords 0x8000 [16, 0, 1, 0]

/-- The search for a map in it stays at that tag for ever. -/
theorem sizelessTag_unbounded :
    let st := { Multiboot.start 0 with mbootPtr := 0x8000 }
    ¬ ((∃ r, mboot2FindTag sizelessTag st mboot2TypetagMmap = some r) ∧
      ∀ x ∈ mboot2FindTagReads sizelessTag st mboot2TypetagMmap,
        st.mbootPtr ≤ x ∧ x < st.mbootPtr + (mboot2GetStructureLength sizelessTag st).1) := by
  rintro st ⟨hreturns, -⟩
  have hptr : st.mbootPtr ≠ 0 := show 0x8000 ≠ 0 by decide
  obtain ⟨q, hwalk⟩ := (mboot2FindTag_isSome st hptr).mp hreturns
  have hfixed : nextTag sizelessTag 0x8008 = 0x8008 := by decide
  have hgo : ¬ stopsAt sizelessTag mboot2TypetagMmap 0x8008 := by decide
  have hnever := walk_eq_none_of_fixed hfixed hgo (2 ^ 32)
  exact nomatch hnever.symm.trans hwalk

/-! ## A structure written as tags -/

/-- A tag, with the bytes behind it up to the next multiple of 8. -/
structure BootTag : Type where
  /-- `type` -/
  type : BitVec 32
  /-- the bytes behind the two header words -/
  payload : List (BitVec 8)
  /-- the bytes behind the tag -/
  padding : List (BitVec 8)
  /-- the padding ends at a multiple of 8 -/
  padded : (8 + payload.length + padding.length) % 8 = 0
  /-- and at the next one -/
  short : padding.length < 8

/-- The bytes of a word, the lowest first. -/
def wordBytes (v : ℕ) : List (BitVec 8) :=
  [BitVec.ofNat 8 v, BitVec.ofNat 8 (v / 2 ^ 8), BitVec.ofNat 8 (v / 2 ^ 16),
    BitVec.ofNat 8 (v / 2 ^ 24)]

namespace BootTag

/-- `size` -/
def size (t : BootTag) : ℕ := 8 + t.payload.length

/-- The tag in memory. -/
def bytes (t : BootTag) : List (BitVec 8) :=
  wordBytes t.type.toNat ++ (wordBytes t.size ++ (t.payload ++ t.padding))

end BootTag

/-- The end tag. -/
def endTag : BootTag := ⟨0, [], [], rfl, by decide⟩

/-- The tags in memory, with the end tag behind them. -/
def encodeTags (tags : List BootTag) : List (BitVec 8) :=
  tags.flatMap BootTag.bytes ++ endTag.bytes

/-- The tags that belong to the list: a tag of type 0 is an end tag, wherever it stands. -/
def listedTags (tags : List BootTag) : List BootTag := tags.takeWhile (·.type ≠ 0)

/-- Where the tags of a list begin. -/
def tagAddrs : ℕ → List BootTag → List ℕ
  | _, [] => []
  | p, t :: tags => p :: tagAddrs (p + t.bytes.length) tags

section Encoded

variable {m : Mem} {p bound v : ℕ} {t : BootTag} {tags s : List BootTag} {l : List (BitVec 8)}
  {type : BitVec 32}

theorem Reads.read32 (h : Reads m p (wordBytes v ++ l)) : m.read32 p = v % 2 ^ 32 := by
  obtain ⟨h0, h1, h2, h3, -⟩ := h
  rw [Mem.read32, h0, h1, h2, h3]
  simp only [BitVec.toNat_ofNat]
  omega

theorem BootTag.length_bytes (t : BootTag) : t.bytes.length = (t.size + 7) / 8 * 8 := by
  have hpadded := t.padded
  have hshort := t.short
  have hlength : t.bytes.length = 8 + t.payload.length + t.padding.length := by
    simp only [BootTag.bytes, wordBytes, List.length_append, List.length_cons, List.length_nil]
    omega
  rw [hlength, BootTag.size]
  omega

/-- The search reads the type of a tag. -/
theorem Reads.tagType (h : Reads m p (t.bytes ++ l)) : tagType m p = t.type.toNat := by
  rw [BootTag.bytes, List.append_assoc] at h
  exact h.read32.trans (Nat.mod_eq_of_lt t.type.isLt)

/-- And its size. -/
theorem Reads.tagSize (h : Reads m p (t.bytes ++ l)) (ht : t.size < 2 ^ 32) :
    tagSize m p = t.size := by
  rw [BootTag.bytes, List.append_assoc, List.append_assoc] at h
  have hsize : Reads m (p + 4) (wordBytes t.size ++ ((t.payload ++ t.padding) ++ l)) :=
    (reads_append.mp h).2
  exact hsize.read32.trans (Nat.mod_eq_of_lt ht)

/-- Tags written one behind the other are a list of tags, up to the first end tag. -/
theorem tagList_of_reads (h : Reads m p (encodeTags tags)) (hbound : bound ≤ 2 ^ 32)
    (hfits : p + (encodeTags tags).length ≤ bound) :
    TagList m bound p (tagAddrs p (listedTags tags)) := by
  induction tags generalizing p with
  | nil =>
    have hend : Reads m p (endTag.bytes ++ []) := by
      rw [List.append_nil]
      exact h
    exact .last hfits hend.tagType
  | cons t tags ih =>
    have hsplit : encodeTags (t :: tags) = t.bytes ++ encodeTags tags := by
      rw [encodeTags, encodeTags, List.flatMap_cons, List.append_assoc]
    have hend : 8 ≤ (encodeTags tags).length := by
      rw [encodeTags, List.length_append]
      exact Nat.le_add_left 8 _
    rw [hsplit] at h hfits
    rw [List.length_append] at hfits
    have hlength := t.length_bytes
    have hheader : 8 ≤ t.size := Nat.le_add_right 8 t.payload.length
    by_cases hlast : t.type = 0
    · rw [listedTags, List.takeWhile_cons_of_neg (by simpa using hlast)]
      refine .last (by omega) (h.tagType.trans ?_)
      rw [hlast]
      rfl
    · rw [listedTags, List.takeWhile_cons_of_pos (by simpa using hlast), tagAddrs]
      have hsize := h.tagSize (by omega)
      refine .tag ?_ (by omega) (by omega) ?_
      · rw [h.tagType]
        exact fun hzero => hlast (BitVec.eq_of_toNat_eq hzero)
      · rw [hsize, ← hlength]
        exact ih (reads_append.mp h).2 (by omega)

/-- The first tag of a type on the list. -/
theorem firstTag_of_reads (h : Reads m p ((s ++ t :: tags).flatMap BootTag.bytes ++ l))
    (ht : t.type = type) (hs : ∀ u ∈ s, u.type ≠ type) :
    firstTag m (tagAddrs p (s ++ t :: tags)) type.toNat =
      some (p + (s.flatMap BootTag.bytes).length) := by
  induction s generalizing p with
  | nil =>
    rw [List.nil_append, List.flatMap_cons, List.append_assoc] at h
    rw [List.nil_append, tagAddrs, firstTag,
      List.find?_cons_of_pos (by rw [h.tagType, ht, decide_eq_true rfl])]
    rfl
  | cons u s ih =>
    obtain ⟨hu, hs⟩ := List.forall_mem_cons.mp hs
    rw [List.cons_append, List.flatMap_cons, List.append_assoc] at h
    have hne : ¬ tagType m p = type.toNat := by
      rw [h.tagType, BitVec.toNat_inj]
      exact hu
    have hrest := ih (reads_append.mp h).2 hs
    rw [firstTag] at hrest
    rw [List.cons_append, tagAddrs, firstTag, List.find?_cons_of_neg (by simpa using hne), hrest,
      List.flatMap_cons, List.length_append, Nat.add_assoc]

theorem firstTag_of_none (h : Reads m p (tags.flatMap BootTag.bytes ++ l))
    (hnone : ∀ u ∈ tags, u.type ≠ type) : firstTag m (tagAddrs p tags) type.toNat = none := by
  induction tags generalizing p with
  | nil => rfl
  | cons u tags ih =>
    obtain ⟨hu, hnone⟩ := List.forall_mem_cons.mp hnone
    rw [List.flatMap_cons, List.append_assoc] at h
    have hne : ¬ tagType m p = type.toNat := by
      rw [h.tagType, BitVec.toNat_inj]
      exact hu
    have hrest := ih (reads_append.mp h).2 hnone
    rw [firstTag] at hrest
    rw [tagAddrs, firstTag, List.find?_cons_of_neg (by simpa using hne), hrest]

/-- **The search is right.** Behind the eight bytes of the header tags of any types, sizes and
payloads stand one behind the other, and an end tag behind them. `mboot2_find_tag` returns the
address of the first tag of the type and leaves `kinit_errno` alone, or it returns `NULL` with
`MBOOT_ERROR_ENTRY_NOT_FOUND` where there is none.

The search only ever comes to the beginning of a tag, because each tag's bytes are as many as its
size says, padded to eight. So the payloads are stepped over, whatever they look like. -/
theorem find_tag_correct (m : Mem) (st : Multiboot) (tags : List BootTag) (type : BitVec 32)
    (hptr : st.mbootPtr ≠ 0) (hfits : st.mbootPtr + 8 + (encodeTags tags).length ≤ 2 ^ 32)
    (hreads : Reads m (st.mbootPtr + 8) (encodeTags tags)) :
    (∀ s t rest, listedTags tags = s ++ t :: rest → t.type = type → (∀ u ∈ s, u.type ≠ type) →
      mboot2FindTag m st type.toNat =
        some (st.mbootPtr + 8 + (s.flatMap BootTag.bytes).length, st)) ∧
      ((∀ t ∈ listedTags tags, t.type ≠ type) →
        mboot2FindTag m st type.toNat = some (0, st.setErrno mbootErrorEntryNotFound)) := by
  have hlist := tagList_of_reads hreads (Nat.le_refl _) hfits
  have hfind := hlist.findTag_eq st (Nat.le_refl _) hptr type.toNat
  -- the tags on the list are the first ones in memory
  obtain ⟨l, hl⟩ : ∃ l, encodeTags tags = (listedTags tags).flatMap BootTag.bytes ++ l := by
    refine ⟨(tags.dropWhile (·.type ≠ 0)).flatMap BootTag.bytes ++ endTag.bytes, ?_⟩
    rw [encodeTags, listedTags, ← List.append_assoc, ← List.flatMap_append,
      List.takeWhile_append_dropWhile]
  rw [hl] at hreads
  constructor
  · intro s t rest hsplit ht hs
    rw [hsplit] at hreads hfind
    rw [hfind, firstTag_of_reads hreads ht hs]
  · intro hnone
    rw [hfind, firstTag_of_none hreads hnone]

theorem reads_ofBytes (a : ℕ) (before l : List (BitVec 8)) :
    Reads (Mem.ofBytes a (before ++ l)) (a + before.length) l := by
  induction l generalizing before with
  | nil => trivial
  | cons c l ih =>
    refine ⟨?_, ?_⟩
    · rw [Mem.ofBytes, Nat.add_sub_cancel_left, List.getD_append_right _ _ _ _ (Nat.le_refl _),
        Nat.sub_self]
      rfl
    · have hrest := ih (before ++ [c])
      rwa [List.append_assoc, List.singleton_append, List.length_append, ← Nat.add_assoc] at hrest

end Encoded

/-- A command line of two bytes, which are those of the type of a map tag, and a map tag. -/
def cmdlineAndMap : List BootTag :=
  [⟨1, [6, 0], [0, 0, 0, 0, 0, 0], rfl, by decide⟩,
    ⟨6, [24, 0, 0, 0, 0, 0, 0, 0], [], rfl, by decide⟩]

/-- The search for the map finds the second one. -/
theorem cmdlineAndMap_found :
    mboot2FindTag (Mem.ofBytes 0x8008 (encodeTags cmdlineAndMap))
      { Multiboot.start 0 with mbootPtr := 0x8000 } 6 =
    some (0x8018, { Multiboot.start 0 with mbootPtr := 0x8000 }) :=
  (find_tag_correct _ { Multiboot.start 0 with mbootPtr := 0x8000 } cmdlineAndMap 6
    (show (0x8000 : ℕ) ≠ 0 by decide) (show 0x8008 + 40 ≤ 2 ^ 32 by decide)
    (reads_ofBytes 0x8008 [] _)).1
    [⟨1, [6, 0], [0, 0, 0, 0, 0, 0], rfl, by decide⟩] _ [] rfl rfl (by decide)

end MissyKernel
