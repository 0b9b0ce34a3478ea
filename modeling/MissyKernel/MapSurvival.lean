import MissyKernel.MemoryMap
import MissyKernel.MmapEnumeration

/-!
# Does the memory map survive the allocator's initialisation?

The initialisation fills its bitmap, and clears bits of it, while it walks through the
memory map. The second protocol's structure has been moved out of the way by then; the
first protocol's stays where the loader put it, which may be right behind the kernel,
where the bitmap goes. `WalkReads` are the bytes that the rest of the walk depends on;
the walk is the one that would have been made before as long as none of them is written
to in time (`MapApart`). Then the initialisation is the one of `Kmemlow`, which gets the
memory map as a list.

The condition is on the state before the initialisation and names the bytes: the flags, the
length and the address of the map, and the entries that the walk has still to come to. It is
enough for every image, memory and map. In particular the walk survives where all it reads lies
below the kernel, where loaders put it (`mapApart_of_below`).
-/

namespace MissyKernel

/-- The entries that successive calls of `multiboot_get_mmap_next` answer from a memory
that nothing writes to. The first argument bounds the calls. -/
def mapWalk (m : Mem) : ℕ → MmapData × Multiboot → Option (List MmapData)
  | 0, _ => none
  | fuel + 1, s => do
    let (r, s) ← mmapNext m s
    if r = -1 then some []
    else
      let rest ← mapWalk m fuel s
      some (s.1 :: rest)

/-- The body of the loop over the memory map in `kmemlow_init_allocator`. -/
def Kmemlow.freeEntry (k : Kmemlow) (e : MmapData) : Kmemlow :=
  if e.type = 1 then k.freeRegion (e.base.toNat % 2 ^ 32) (e.length.toNat % 2 ^ 32) else k

/-- The loop, with the entries it reads. -/
def mapLoop : ℕ → Kmemlow → MmapData × Multiboot → Option (List MmapData × Kmemlow)
  | 0, _, _ => none
  | fuel + 1, k, s => do
    let (r, s) ← mmapNext k.mem s
    if r = -1 then some ([], k)
    else
      let (rest, k) ← mapLoop fuel (k.freeEntry s.1) s
      some (s.1 :: rest, k)

/-- What the boot information answers before the initialisation starts. -/
def bootApi (m : Mem) (st : Multiboot) (buf : MmapData) : MultibootApi where
  memsz := BitVec.ofNat 32 ((multibootGetMemsz m st).elim 0 Prod.fst)
  mmap := (mapWalk m (2 ^ 32) (buf, st)).getD []
  relocate := fun kernelEnd m => (multibootRelocate m st kernelEnd).1

/-- The state of the allocator and of the drivers in which the loop starts. -/
def loopStart (image : KernelImage) (k : Kmemlow) (st : Multiboot) (buf : MmapData) :
    Kmemlow × Multiboot :=
  (kmemlowFilled image (bootApi k.mem st buf) k,
    (multibootRelocate k.mem st
      (kmemlowLayout image (bootApi k.mem st buf)).kernelEndPhysical).2)

/-- **The map survives**: the loop of the initialisation reads the entries that the same
walk would have read before it. -/
def MapSurvives (image : KernelImage) (k : Kmemlow) (st : Multiboot) (buf : MmapData) : Prop :=
  ∃ entries k', mapWalk k.mem (2 ^ 32) (buf, st) = some entries ∧
    mapLoop (2 ^ 32) (loopStart image k st buf).1 (buf, (loopStart image k st buf).2) =
      some (entries, k')

/-! ## One round -/

section Round

variable {m : Mem} {k : Kmemlow} {s s' : MmapData × Multiboot} {fuel : ℕ}

theorem mapWalk_last (h : mmapNext m s = some (-1, s')) : mapWalk m (fuel + 1) s = some [] := by
  rw [mapWalk, h]
  rfl

theorem mapWalk_entry (h : mmapNext m s = some (0, s')) :
    mapWalk m (fuel + 1) s = (mapWalk m fuel s').map fun rest => s'.1 :: rest := by
  rw [mapWalk, h, Option.map_eq_bind]
  rfl

theorem mapLoop_last (h : mmapNext k.mem s = some (-1, s')) :
    mapLoop (fuel + 1) k s = some ([], k) := by
  rw [mapLoop, h]
  rfl

theorem mapLoop_entry (h : mmapNext k.mem s = some (0, s')) :
    mapLoop (fuel + 1) k s =
      (mapLoop fuel (k.freeEntry s'.1) s').map fun x => (s'.1 :: x.1, x.2) := by
  rw [mapLoop, h, Option.map_eq_bind]
  rfl

end Round

/-! ## The loop and the list -/

/-- The loop frees as if it were given the list of the entries it reads. -/
theorem mapLoop_freeAvailable {fuel : ℕ} {k k' : Kmemlow} {s : MmapData × Multiboot}
    {entries : List MmapData} (h : mapLoop fuel k s = some (entries, k')) :
    k' = k.freeAvailable entries := by
  induction fuel generalizing k s entries with
  | zero => cases h
  | succ fuel ih =>
    rw [mapLoop] at h
    obtain ⟨⟨r, s'⟩, -, h⟩ := Option.bind_eq_some_iff.mp h
    dsimp only at h
    split at h
    · cases h
      rfl
    · obtain ⟨⟨rest, k''⟩, hrest, h⟩ := Option.bind_eq_some_iff.mp h
      cases h
      have htail := ih hrest
      exact htail

/-- Where the map survives, the initialisation is the one that gets it as a list. -/
theorem MapSurvives.kmemlowInitAllocator_eq {image : KernelImage} {k : Kmemlow} {st : Multiboot}
    {buf : MmapData} (h : MapSurvives image k st buf) :
    ∃ k', mapLoop (2 ^ 32) (loopStart image k st buf).1 (buf, (loopStart image k st buf).2) =
        some ((bootApi k.mem st buf).mmap, k') ∧
      kmemlowInitAllocator image (bootApi k.mem st buf) k =
        (k'.reserveRegion 0x0 0x100000).reserveRegion 0x100000
          (((kmemlowLayout image (bootApi k.mem st buf)).kernelEndPhysical + 2 ^ 32 - 0x100000) %
            2 ^ 32) := by
  obtain ⟨entries, k', hwalk, hloop⟩ := h
  have hmmap : (bootApi k.mem st buf).mmap = entries := by
    rw [bootApi, hwalk]
    rfl
  refine ⟨k', ?_, ?_⟩
  · rw [hmmap]
    exact hloop
  · rw [mapLoop_freeAvailable hloop, ← hmmap]
    rfl

/-! ## What the walk reads -/

section Reads

variable {m m' : Mem} {p c k a : ℕ}

/-- The walk from call `c` on gets to the entry of call `k`. -/
def Visits (m : Mem) (p c k : ℕ) : Prop :=
  c ≤ k ∧ ∀ j, c ≤ j → j ≤ k → j < mapEntries m p ∧ mapEntryAt m p j ≠ 0

/-- The bytes of the first protocol's structure and map that the walk from call `c` on
depends on. -/
inductive WalkReads (m : Mem) (p c : ℕ) : ℕ → Prop where
  | flags {i : ℕ} (hi : i < 4) : WalkReads m p c (p + i)
  | length {i : ℕ} (hi : i < 4) : WalkReads m p c (p + 44 + i)
  | addr {i : ℕ} (hc : c < mapEntries m p) (hi : i < 4) : WalkReads m p c (p + 48 + i)
  | sz {i : ℕ} (hc : c < mapEntries m p) (hi : i < 4) : WalkReads m p c (infoMmapAddr m p + i)
  | entry {k i : ℕ} (hk : Visits m p c k) (hi : i < 20) :
    WalkReads m p c (mapEntryAt m p k + 4 + i)

/-- The walk that is left reads less. -/
theorem WalkReads.of_succ (h : WalkReads m p (c + 1) a) (hc : Visits m p c c) :
    WalkReads m p c a := by
  have hlt := (hc.2 c (le_refl c) (le_refl c)).1
  cases h with
  | flags hi => exact .flags hi
  | length hi => exact .length hi
  | addr _ hi => exact .addr hlt hi
  | sz _ hi => exact .sz hlt hi
  | entry hk hi =>
    refine .entry ⟨by have := hk.1; omega, fun j hj hjk => ?_⟩ hi
    rcases Nat.eq_or_lt_of_le hj with rfl | hj
    · exact hc.2 c (le_refl c) (le_refl c)
    · exact hk.2 j hj hjk

theorem infoFlags_congr (h : ∀ a, WalkReads m p c a → m' a = m a) :
    infoFlags m' p = infoFlags m p :=
  Mem.read32_congr fun _ hi => h _ (.flags hi)

theorem mapEntries_congr (h : ∀ a, WalkReads m p c a → m' a = m a) :
    mapEntries m' p = mapEntries m p := by
  have hlength : infoMmapLength m' p = infoMmapLength m p :=
    Mem.read32_congr fun _ hi => h _ (.length hi)
  rw [mapEntries, mapEntries, hlength]

theorem mapEntryAt_congr (h : ∀ a, WalkReads m p c a → m' a = m a) (hc : c < mapEntries m p) :
    mapEntryAt m' p c = mapEntryAt m p c := by
  have haddr : infoMmapAddr m' p = infoMmapAddr m p :=
    Mem.read32_congr fun _ hi => h _ (.addr hc hi)
  have hsz : memoryMapSz m' (infoMmapAddr m p) = memoryMapSz m (infoMmapAddr m p) :=
    Mem.read32_congr fun _ hi => h _ (.sz hc hi)
  rw [mapEntryAt, mapEntryAt, haddr, hsz]

theorem memoryMapInf_congr {q : ℕ} (h : ∀ i < 20, m' (q + 4 + i) = m (q + 4 + i)) :
    memoryMapInf m' q = memoryMapInf m q := by
  have hword : ∀ j, j + 4 ≤ 20 → m'.read32 (q + 4 + j) = m.read32 (q + 4 + j) := by
    intro j hj
    refine Mem.read32_congr fun i hi => ?_
    have hbyte := h (j + i) (by omega)
    rwa [← Nat.add_assoc] at hbyte
  have h0 := hword 0 (by omega)
  have h4 := hword 4 (by omega)
  have h8 := hword 8 (by omega)
  have h12 := hword 12 (by omega)
  have h16 := hword 16 (by omega)
  simp only [Nat.add_assoc, Nat.reduceAdd] at h0 h4 h8 h12 h16
  simp only [memoryMapInf, Mem.read64, Nat.add_assoc, Nat.reduceAdd, h0, h4, h8, h12, h16]

/-- A call answers the same from memories that agree on what it reads. -/
theorem mmapNext_congr {s : MmapData × Multiboot} (hs : FirstDriver p c s.2)
    (hflag : (infoFlags m p).testBit 6 = true) (h : ∀ a, WalkReads m p c a → m' a = m a) :
    mmapNext m' s = mmapNext m s := by
  have hflag' : (infoFlags m' p).testBit 6 = true := by
    rw [infoFlags_congr h, hflag]
  rw [mmapNext, mmapNext, multibootGetMmapNext_first hs hflag,
    multibootGetMmapNext_first hs hflag', mapEntries_congr h]
  by_cases hc : c < mapEntries m p
  · rw [if_pos hc, if_pos hc, mapEntryAt_congr h hc]
    by_cases hnull : mapEntryAt m p c = 0
    · rw [if_pos hnull, if_pos hnull]
    · have hvisits : Visits m p c c := by
        refine ⟨le_refl c, fun j hj hjc => ?_⟩
        obtain rfl := le_antisymm hj hjc
        exact ⟨hc, hnull⟩
      have hdata := memoryMapInf_congr fun i hi => h _ (.entry hvisits hi)
      rw [if_neg hnull, if_neg hnull, hdata]
  · rw [if_neg hc, if_neg hc]

/-- The first call visits its own entry. -/
theorem visits_self (hc : c < mapEntries m p) (hentry : mapEntryAt m p c ≠ 0) :
    Visits m p c c := by
  refine ⟨le_refl c, fun j hj hjc => ?_⟩
  obtain rfl := le_antisymm hj hjc
  exact ⟨hc, hentry⟩

/-- What the rest of the walk visits, the walk visits. -/
theorem Visits.of_succ (h : Visits m p (c + 1) k) (hc : Visits m p c c) : Visits m p c k := by
  refine ⟨Nat.le_of_succ_le h.1, fun j hj hjk => ?_⟩
  rcases Nat.eq_or_lt_of_le hj with rfl | hj
  · exact hc.2 c (le_refl c) (le_refl c)
  · exact h.2 j hj hjk

end Reads

/-! ## What the initialisation writes -/

/-- The byte `a` is not in the word `i` of the bitmap, which may lie past its end. -/
def OffWord (layout : KmemlowLayout) (i a : ℕ) : Prop :=
  a < layout.mbitmapPhysical + 4 * i ∨ layout.mbitmapPhysical + 4 * i + 4 ≤ a

/-- What the walk from call `c` on still has to read after an entry is apart from the
words that are written to free the entry. -/
def FreesApart (layout : KmemlowLayout) (m : Mem) (p c : ℕ) : Prop :=
  ∀ k, Visits m p c k → (memoryMapInf m (mapEntryAt m p k)).type = 1 →
    ∀ b ∈ (memoryMapInf m (mapEntryAt m p k)).pages, ∀ a, WalkReads m p (k + 1) a →
      OffWord layout (b / 32) a

/-- What the walk reads is apart from what the initialisation writes before. -/
structure MapApart (layout : KmemlowLayout) (m : Mem) (p c : ℕ) : Prop where
  /-- the fill of the bitmap -/
  fill : ∀ a, WalkReads m p c a →
    a < layout.mbitmapPhysical ∨ layout.mbitmapPhysical + 4 * layout.bitmapSize ≤ a
  /-- the freeing of entries -/
  free : FreesApart layout m p c

section Writes

variable {m : Mem} {p c a : ℕ} {k : Kmemlow} {s : MmapData × Multiboot}

/-- Freeing pages writes to their words only. -/
theorem Kmemlow.foldl_freeStep_mem {l : List ℕ} (hp : k.layout.mbitmapPhysical < 2 ^ 30)
    (hl : ∀ b ∈ l, b < 2 ^ 32)
    (ha : ∀ b ∈ l, OffWord k.layout (b / 32) a) :
    (l.foldl freeStep k).mem a = k.mem a := by
  induction l generalizing k with
  | nil => rfl
  | cons b l ih =>
    obtain ⟨hb, hl⟩ := List.forall_mem_cons.mp hl
    obtain ⟨hab, hal⟩ := List.forall_mem_cons.mp ha
    have haddr : k.wordAddr (b / 32) = k.layout.mbitmapPhysical + 4 * (b / 32) :=
      wordAddr_eq hp (by omega)
    rw [List.foldl_cons, ih (k := k.freeStep b) hp hl hal]
    refine Mem.write32_apply_outside ?_
    rwa [haddr]

/-- Freeing an entry writes to the words of its pages only. -/
theorem Kmemlow.freeEntry_mem {e : MmapData} (hp : k.layout.mbitmapPhysical < 2 ^ 30)
    (ha : e.type = 1 → ∀ b ∈ e.pages, OffWord k.layout (b / 32) a) :
    (k.freeEntry e).mem a = k.mem a := by
  rw [freeEntry]
  by_cases he : e.type = 1
  · rw [if_pos he, freeRegion, regionLoop_eq_foldl _ _ _ _ (by omega)]
    refine foldl_freeStep_mem hp (fun b hb => ?_) (ha he)
    have hbounds := List.mem_range'_1.mp hb
    omega
  · rw [if_neg he]

@[simp] theorem Kmemlow.freeEntry_layout (k : Kmemlow) (e : MmapData) :
    (k.freeEntry e).layout = k.layout := by
  rw [freeEntry]
  by_cases he : e.type = 1
  · rw [if_pos he, freeRegion, regionLoop_eq_foldl _ _ _ _ (by omega)]
    exact foldl_layout freeStep_layout _ k
  · rw [if_neg he]

/-- The loop reads what the walk reads, as long as the memory agrees with the walk's on
all that is still to be read. -/
theorem mapLoop_eq_mapWalk {fuel : ℕ} (hs : FirstDriver p c s.2)
    (hflag : (infoFlags m p).testBit 6 = true) (hp : k.layout.mbitmapPhysical < 2 ^ 30)
    (hmem : ∀ a, WalkReads m p c a → k.mem a = m a)
    (hfree : FreesApart k.layout m p c) :
    (mapLoop fuel k s).map Prod.fst = mapWalk m fuel s := by
  induction fuel generalizing k s c with
  | zero => rfl
  | succ fuel ih =>
    obtain ⟨buf, st⟩ := s
    have hsteps := firstDriver_steps hflag
    have hsame := mmapNext_congr hs hflag hmem
    rcases Nat.lt_or_ge c (mapEntries m p) with hc | hge
    · rcases eq_or_ne (mapEntryAt m p c) 0 with hnull | hentry
      · obtain ⟨st', hcall, -, -⟩ := hsteps.null c st buf hs hc hnull
        rw [mapWalk_last hcall, mapLoop_last (hsame.trans hcall)]
        rfl
      · -- the entry is freed, and the rest of the walk does not notice
        obtain ⟨st', hcall, hs', -⟩ := hsteps.entry c st buf hs hc hentry
        have hvisits := visits_self hc hentry
        have hrest := ih (k := k.freeEntry (memoryMapInf m (mapEntryAt m p c)))
          (s := (memoryMapInf m (mapEntryAt m p c), st')) hs' ?_ ?_ ?_
        · rw [mapWalk_entry hcall, mapLoop_entry (hsame.trans hcall), ← hrest, Option.map_map,
            Option.map_map]
          rfl
        · rwa [Kmemlow.freeEntry_layout]
        · intro a ha
          rw [Kmemlow.freeEntry_mem hp fun he b hb => hfree c hvisits he b hb a ha]
          exact hmem a (ha.of_succ hvisits)
        · rw [Kmemlow.freeEntry_layout]
          exact fun j hj => hfree j (hj.of_succ hvisits)
    · have hcall := hsteps.past c st buf hs hge
      rw [mapWalk_last hcall, mapLoop_last (hsame.trans hcall)]
      rfl

/-- The walk ends: there are no more entries than calls. -/
theorem mapWalk_isSome {fuel : ℕ} (hs : FirstDriver p c s.2)
    (hflag : (infoFlags m p).testBit 6 = true) (hfuel : mapEntries m p ≤ c + fuel) :
    (mapWalk m (fuel + 1) s).isSome := by
  have hsteps := firstDriver_steps hflag
  induction fuel generalizing s c with
  | zero =>
    rw [mapWalk_last (hsteps.past c s.2 s.1 hs hfuel)]
    rfl
  | succ fuel ih =>
    rcases Nat.lt_or_ge c (mapEntries m p) with hc | hge
    · rcases eq_or_ne (mapEntryAt m p c) 0 with hnull | hentry
      · obtain ⟨st', hcall, -, -⟩ := hsteps.null c s.2 s.1 hs hc hnull
        rw [mapWalk_last hcall]
        rfl
      · obtain ⟨st', hcall, hs', -⟩ := hsteps.entry c s.2 s.1 hs hc hentry
        have hrest := ih (s := (memoryMapInf m (mapEntryAt m p c), st')) hs' (by omega)
        rw [mapWalk_entry hcall, Option.isSome_map]
        exact hrest
    · rw [mapWalk_last (hsteps.past c s.2 s.1 hs hge)]
      rfl

end Writes

/-! ## Survival -/

section Survival

variable {image : KernelImage} {k : Kmemlow} {st : Multiboot} {p c a : ℕ}

/-- The first protocol's structure is not moved, and the fill writes to the bitmap only. -/
theorem loopStart_mem (hnone : st.apiStruct.relocateMultiboot = .multibootUnimplemented)
    (buf : MmapData)
    (ha : a < (kmemlowLayout image (bootApi k.mem st buf)).mbitmapPhysical ∨
      (kmemlowLayout image (bootApi k.mem st buf)).mbitmapPhysical +
        4 * (kmemlowLayout image (bootApi k.mem st buf)).bitmapSize ≤ a) :
    (loopStart image k st buf).1.mem a = k.mem a := by
  have hsize := kmemlowLayout_bitmapSize image (bootApi k.mem st buf)
  have htotal := kmemlowLayout_totalBlocks_lt image (bootApi k.mem st buf)
  have hplaced : (kmemlowPlaced image (bootApi k.mem st buf) k).mem = k.mem := by
    simp only [kmemlowPlaced, bootApi, multibootRelocate, hnone]
  have hp : (kmemlowPlaced image (bootApi k.mem st buf) k).layout.mbitmapPhysical < 2 ^ 30 :=
    mbitmapPhysical_lt image (bootApi k.mem st buf)
  rw [← hplaced]
  exact Kmemlow.fillBitmap_mem_outside hp (by omega) ha

/-- Apart from what is written, the loop reads what the walk reads. -/
theorem mapLoop_of_apart (hst : FirstDriver p c st)
    (hnone : st.apiStruct.relocateMultiboot = .multibootUnimplemented)
    (hflag : (infoFlags k.mem p).testBit 6 = true) (buf : MmapData)
    (hapart : MapApart (kmemlowLayout image (bootApi k.mem st buf)) k.mem p c) :
    (mapLoop (2 ^ 32) (loopStart image k st buf).1 (buf, st)).map Prod.fst =
      mapWalk k.mem (2 ^ 32) (buf, st) := by
  have hlayout : (loopStart image k st buf).1.layout =
      kmemlowLayout image (bootApi k.mem st buf) := kmemlowFilled_layout
  have hp : (loopStart image k st buf).1.layout.mbitmapPhysical < 2 ^ 30 := by
    rw [hlayout]
    exact mbitmapPhysical_lt image _
  have hfree : FreesApart (loopStart image k st buf).1.layout k.mem p c := by
    rw [hlayout]
    exact hapart.free
  have hmem : ∀ a, WalkReads k.mem p c a → (loopStart image k st buf).1.mem a = k.mem a :=
    fun a ha => loopStart_mem hnone buf (hapart.fill a ha)
  exact mapLoop_eq_mapWalk hst hflag hp hmem hfree

/-- **Where the map survives.** None of the bytes that the walk still depends on is written to,
neither by the fill nor by the freeing of the entries before.

By induction on the entries that are left (`mapLoop_of_apart`). Each round reads the entry, frees
its pages, which writes to some words of the bitmap, and leaves a walk that depends on fewer bytes,
all of them untouched. -/
theorem map_survives_of_apart (hst : FirstDriver p c st)
    (hnone : st.apiStruct.relocateMultiboot = .multibootUnimplemented)
    (hflag : (infoFlags k.mem p).testBit 6 = true) (buf : MmapData)
    (hapart : MapApart (kmemlowLayout image (bootApi k.mem st buf)) k.mem p c) :
    MapSurvives image k st buf := by
  have hcount := mapEntries_le k.mem p
  have hsome : (mapWalk k.mem (2 ^ 32 - 1 + 1) (buf, st)).isSome :=
    mapWalk_isSome hst hflag (by omega)
  have hstatics : (loopStart image k st buf).2 = st := by
    simp only [loopStart, multibootRelocate, hnone]
  obtain ⟨entries, hwalk⟩ := Option.isSome_iff_exists.mp hsome
  have hloop := (mapLoop_of_apart hst hnone hflag buf hapart).trans hwalk
  obtain ⟨⟨entries', k'⟩, hrun, rfl⟩ := Option.map_eq_some_iff.mp hloop
  refine ⟨entries', k', hwalk, ?_⟩
  rw [hstatics]
  exact hrun

/-- In particular it survives where everything the walk reads lies below the bitmap. -/
theorem mapApart_of_below {layout : KmemlowLayout} {m : Mem} {p c : ℕ}
    (h : ∀ c' a, c ≤ c' → WalkReads m p c' a → a < layout.mbitmapPhysical) :
    MapApart layout m p c := by
  refine ⟨fun a ha => .inl (h c a (le_refl c) ha), fun k hk _ b _ a ha => .inl ?_⟩
  have hbelow := h (k + 1) a (Nat.le_succ_of_le hk.1) ha
  omega

end Survival

/-- The walk through `pcInfo` stays below the kernel, where loaders put the structure. -/
theorem pcInfo_below {c a : ℕ} (ha : WalkReads pcInfo 0x8000 c a) : a < 0x9000 := by
  have hcount : mapEntries pcInfo 0x8000 = 2 := by decide
  have haddr : infoMmapAddr pcInfo 0x8000 = 0x8034 := by decide
  have hsz : memoryMapSz pcInfo 0x8034 = 20 := by decide
  cases ha with
  | flags hi => omega
  | length hi => omega
  | addr _ hi => omega
  | sz _ hi => omega
  | @entry k i hk hi =>
    have hlt := (hk.2 k hk.1 (le_refl k)).1
    have hentry : mapEntryAt pcInfo 0x8000 k = 0x8034 + 20 + 4 + k * 24 := by
      rw [mapEntryAt, haddr, hsz, Nat.mod_eq_of_lt (by omega)]
    omega

theorem pcInfo_apart : MapApart (kmemlowLayout smallImage
    (bootApi pcInfo (acceptedFirst 0x8000) ⟨0, 0, 0⟩)) pcInfo 0x8000 0 := by
  have hbitmap : ∀ api, (kmemlowLayout smallImage api).mbitmapPhysical = 0x110000 :=
    fun api => (kmemlowLayout_mbitmapPhysical smallImage api).trans (by decide)
  refine mapApart_of_below fun c' a _ ha => ?_
  rw [hbitmap]
  exact (pcInfo_below ha).trans (by decide)

/-- The map of the 64 MiB machine survives. -/
theorem pcInfo_survives :
    MapSurvives smallImage (Kmemlow.start pcInfo 0) (acceptedFirst 0x8000) ⟨0, 0, 0⟩ :=
  map_survives_of_apart (firstDriver_accepted 0x8000) rfl (by decide) ⟨0, 0, 0⟩ pcInfo_apart

/-- A machine of 4 MiB whose loader put the memory map right behind the kernel. -/
def mapBehindKernel : Mem := fun a =>
  if a < 0x100000 then
    Mem.ofWords 0x8000 [0x41, 640, 3072, 0, 0, 0, 0, 0, 0, 0, 0, 48, 0x110008] a
  else Mem.ofWords 0x110008 [20, 0, 0, 0xa0000, 0, 1, 20, 0x100000, 0, 0x300000, 0, 1] a

/-- The map is overwritten by the bitmap. -/
theorem map_overwritten :
    ¬ MapSurvives smallImage (Kmemlow.start mapBehindKernel 0) (acceptedFirst 0x8000)
      ⟨0, 0, 0⟩ := by
  rintro ⟨entries, k', hwalk, hloop⟩
  have hbefore : mapWalk mapBehindKernel (2 ^ 32) (⟨0, 0, 0⟩, acceptedFirst 0x8000) =
      some [⟨0x100000, 0x300000, 1⟩, ⟨0, 0, 0⟩] := by decide +kernel
  have hafter : (mapLoop (2 ^ 32) (loopStart smallImage (Kmemlow.start mapBehindKernel 0)
      (acceptedFirst 0x8000) ⟨0, 0, 0⟩).1 (⟨0, 0, 0⟩, acceptedFirst 0x8000)).map Prod.fst ≠
      some [⟨0x100000, 0x300000, 1⟩, ⟨0, 0, 0⟩] := by decide +kernel
  rw [show (Kmemlow.start mapBehindKernel 0).mem = mapBehindKernel from rfl, hbefore] at hwalk
  cases hwalk
  exact hafter (congrArg (Option.map Prod.fst) hloop)

end MissyKernel
