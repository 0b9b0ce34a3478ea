import MissyKernel.Runs
import MissyKernel.MultibootInit

/-!
# Successive steps through the memory map

Both drivers count the entries of the map, keep a counter, and compute the next entry's
address from the counter. `Serves` says what successive calls of
`multiboot_get_mmap_next` answer and which entries they read, given the count and the
addresses; each driver only has to show what one call does.

`DriverStep` is one call: behind the last entry it answers -1 and nothing changes, otherwise the
counter goes up and the entry is read. `DriverStep.serves` carries it over to all calls at once.
A call of the second driver divides by the tag's entry size, and does not return where that is
zero (`mmapCall_divides_by_zero`).
-/

namespace MissyKernel

/-- `multiboot_get_mmap_next` as a step on the buffer and the statics. -/
def mmapNext (m : Mem) (s : MmapData × Multiboot) : Option (ℤ × MmapData × Multiboot) :=
  multibootGetMmapNext m s.2 s.1

/-- Call number `k` of `multiboot_get_mmap_next`, from the statics `st` on. -/
def mmapCall (m : Mem) (st : Multiboot) (buf : MmapData) (k : ℕ) :
    Option (ℤ × MmapData × Multiboot) :=
  nthCall (mmapNext m) (buf, st) k

/-- Call `k` answers from the entry at `addr k`, if there are as many entries and the
address is not `NULL`; every other call answers -1. -/
def Answers (count : ℕ) (addr : ℕ → ℕ) (data : ℕ → MmapData) (k : ℕ) (r : ℤ)
    (buf' : MmapData) : Prop :=
  if k < count ∧ addr k ≠ 0 then r = 0 ∧ buf' = data (addr k) else r = -1

/-- The entries that calls before `k` answered from. -/
def ReadBefore (count : ℕ) (addr : ℕ → ℕ) (k p : ℕ) : Prop :=
  ∃ j < k, j < count ∧ addr j ≠ 0 ∧ p = addr j

/-- Every call returns, answers like that, and reads the entries it answers from. -/
def Serves (m : Mem) (st : Multiboot) (buf : MmapData) (count : ℕ) (addr : ℕ → ℕ)
    (data : ℕ → MmapData) : Prop :=
  ∀ k, ∃ r buf' st', mmapCall m st buf k = some (r, buf', st') ∧
    (∀ p, p ∈ st'.entriesRead ↔ ReadBefore count addr (k + 1) p) ∧
    Answers count addr data k r buf'

section Serves

variable {m : Mem} {st : Multiboot} {buf : MmapData} {count : ℕ} {addr : ℕ → ℕ}
  {data : ℕ → MmapData}

/-- One call of a driver whose counter is `c`: past the last entry nothing happens; else
the counter goes up, and the entry is read unless its address is `NULL`. -/
structure DriverStep (m : Mem) (count : ℕ) (addr : ℕ → ℕ) (data : ℕ → MmapData)
    (Driver : ℕ → Multiboot → Prop) : Prop where
  /-- behind the last entry -/
  past : ∀ c st buf, Driver c st → count ≤ c → mmapNext m (buf, st) = some (-1, buf, st)
  /-- an entry at `NULL` -/
  null : ∀ c st buf, Driver c st → c < count → addr c = 0 →
    ∃ st', mmapNext m (buf, st) = some (-1, buf, st') ∧ Driver (c + 1) st' ∧
      st'.entriesRead = st.entriesRead
  /-- an entry -/
  entry : ∀ c st buf, Driver c st → c < count → addr c ≠ 0 →
    ∃ st', mmapNext m (buf, st) = some (0, data (addr c), st') ∧ Driver (c + 1) st' ∧
      st'.entriesRead = addr c :: st.entriesRead

theorem readBefore_succ {k p : ℕ} :
    ReadBefore count addr (k + 1) p ↔
      ReadBefore count addr k p ∨ (k < count ∧ addr k ≠ 0 ∧ p = addr k) := by
  constructor
  · rintro ⟨j, hj, hread⟩
    rcases Nat.lt_succ_iff_lt_or_eq.mp hj with hlt | rfl
    · exact .inl ⟨j, hlt, hread⟩
    · exact .inr hread
  · rintro (⟨j, hj, hread⟩ | hread)
    · exact ⟨j, Nat.lt_succ_of_lt hj, hread⟩
    · exact ⟨k, Nat.lt_succ_self k, hread⟩

/-- What `k` calls leave: the counter stands at `k`, or at the count once that is
reached, and the entries answered from were read. -/
def CallsDone (Driver : ℕ → Multiboot → Prop) (count : ℕ) (addr : ℕ → ℕ) (k : ℕ)
    (s : MmapData × Multiboot) : Prop :=
  Driver (min k count) s.2 ∧ ∀ p, p ∈ s.2.entriesRead ↔ ReadBefore count addr k p

theorem DriverStep.callsDone {Driver : ℕ → Multiboot → Prop}
    (h : DriverStep m count addr data Driver) (k : ℕ) (s : MmapData × Multiboot)
    (hs : CallsDone Driver count addr k s) :
    ∃ r s', mmapNext m s = some (r, s') ∧ CallsDone Driver count addr (k + 1) s' ∧
      Answers count addr data k r s'.1 := by
  obtain ⟨buf, st⟩ := s
  obtain ⟨hdriver, hlog⟩ := hs
  dsimp only at hdriver hlog
  rcases Nat.lt_or_ge k count with hlt | hge
  · rw [min_eq_left hlt.le] at hdriver
    rcases eq_or_ne (addr k) 0 with hnull | hentry
    · obtain ⟨st', hcall, hdriver', hsame⟩ := h.null k st buf hdriver hlt hnull
      have hanswer : Answers count addr data k (-1) buf := by
        rw [Answers, if_neg fun hboth => hboth.2 hnull]
      refine ⟨-1, (buf, st'), hcall, ⟨?_, fun p => ?_⟩, hanswer⟩
      · rwa [min_eq_left hlt]
      · rw [hsame, hlog, readBefore_succ]
        simp [hnull]
    · obtain ⟨st', hcall, hdriver', hcons⟩ := h.entry k st buf hdriver hlt hentry
      have hanswer : Answers count addr data k 0 (data (addr k)) := by
        rw [Answers, if_pos ⟨hlt, hentry⟩]
        exact ⟨rfl, rfl⟩
      refine ⟨0, (data (addr k), st'), hcall, ⟨?_, fun p => ?_⟩, hanswer⟩
      · rwa [min_eq_left hlt]
      · rw [hcons, List.mem_cons, hlog, readBefore_succ]
        simp [hlt, hentry, or_comm]
  · rw [min_eq_right hge] at hdriver
    have hanswer : Answers count addr data k (-1) buf := by
      rw [Answers, if_neg fun hboth => hge.not_gt hboth.1]
    refine ⟨-1, (buf, st), h.past count st buf hdriver (le_refl _), ⟨?_, fun p => ?_⟩, hanswer⟩
    · rwa [min_eq_right (hge.trans (Nat.le_succ k))]
    · rw [hlog, readBefore_succ]
      simp [hge.not_gt]

/-- From one call to all of them. -/
theorem DriverStep.serves {Driver : ℕ → Multiboot → Prop}
    (h : DriverStep m count addr data Driver) (hst : Driver 0 st) (hread : st.entriesRead = [])
    (buf : MmapData) : Serves m st buf count addr data := by
  have h0 : CallsDone Driver count addr 0 (buf, st) := by
    refine ⟨by simpa using hst, fun p => ?_⟩
    simp [hread, ReadBefore]
  intro k
  obtain ⟨r, ⟨buf', st'⟩, hcall, ⟨-, hlog⟩, hanswer⟩ := nthCall_invariant h.callsDone h0 k
  exact ⟨r, buf', st', hcall, hlog, hanswer⟩

/-- The answer of a call, and what was read by then. -/
theorem Serves.answers (h : Serves m st buf count addr data) {k : ℕ} {r : ℤ}
    {buf' : MmapData} {st' : Multiboot} (hcall : mmapCall m st buf k = some (r, buf', st')) :
    (∀ p, p ∈ st'.entriesRead ↔ ReadBefore count addr (k + 1) p) ∧
      Answers count addr data k r buf' := by
  obtain ⟨_, _, _, hcall', hlog, hanswer⟩ := h k
  rw [hcall] at hcall'
  cases hcall'
  exact ⟨hlog, hanswer⟩

/-- All that the calls read lies in a region exactly when every entry does that they
answer from. -/
theorem Serves.reads_iff (h : Serves m st buf count addr data) (inside : ℕ → Prop) :
    (∀ k r buf' st', mmapCall m st buf k = some (r, buf', st') → ∀ p ∈ st'.entriesRead, inside p) ↔
      ∀ k < count, addr k ≠ 0 → inside (addr k) := by
  constructor
  · intro hin k hk hentry
    obtain ⟨r, buf', st', hcall, hlog, -⟩ := h k
    exact hin k r buf' st' hcall _ ((hlog _).mpr ⟨k, Nat.lt_succ_self k, hk, hentry, rfl⟩)
  · intro hin k r buf' st' hcall p hp
    obtain ⟨j, -, hj, hentry, rfl⟩ := ((h.answers hcall).1 p).mp hp
    exact hin j hj hentry

end Serves

/-! ## The first driver -/

/-- `mmap_entries` of `multiboot_next_mmap` -/
def mapEntries (m : Mem) (p : ℕ) : ℕ := infoMmapLength m p / 24

/-- `entry` of `multiboot_next_mmap` where the counter is `k` -/
def mapEntryAt (m : Mem) (p k : ℕ) : ℕ :=
  (infoMmapAddr m p + memoryMapSz m (infoMmapAddr m p) + 4 + k * 24) % 2 ^ 32

/-- The first driver is installed for the structure at `p`, and its counter is `c`. -/
structure FirstDriver (p c : ℕ) (st : Multiboot) : Prop where
  /-- `mboot_ptr` -/
  ptr : st.mbootPtr = p
  /-- the table -/
  api : st.apiStruct.getNextMmapEntry = .mbootGetNextMmapEntry
  /-- `current_mmap_entry` -/
  counter : st.mbootMmapEntry = c

section First

variable {m : Mem} {p : ℕ}

/-- It is what `multiboot_init` leaves when it accepts the first protocol. -/
theorem firstDriver_of_init {st st' : Multiboot} (hp : p % 8 = 0)
    (hinit : multibootInit m st p multibootMagic = some (0, st')) :
    FirstDriver p st.mbootMmapEntry st' := by
  have hcall := multibootInit_aligned m st hp multibootMagic
  rw [if_pos rfl, hinit, initMultiboot_eq] at hcall
  split at hcall
  · cases hcall
  split at hcall
  · cases hcall
  · cases hcall
    exact ⟨rfl, rfl, rfl⟩

/-- One call of the first driver where the flag is set. -/
theorem multibootGetMmapNext_first {st : Multiboot} {c : ℕ} (hst : FirstDriver p c st)
    (hflag : (infoFlags m p).testBit 6 = true) (buf : MmapData) :
    multibootGetMmapNext m st buf =
      if c < mapEntries m p then
        if mapEntryAt m p c = 0 then
          some (-1, buf, { st with mbootMmapEntry := (c + 1) % 2 ^ 32 })
        else
          some (0, memoryMapInf m (mapEntryAt m p c),
            { st with
              mbootMmapEntry := (c + 1) % 2 ^ 32
              entriesRead := mapEntryAt m p c :: st.entriesRead })
      else some (-1, buf, st) := by
  obtain ⟨rfl, hapi, rfl⟩ := hst
  have hpresent : ¬ infoFlags m st.mbootPtr &&& mmapPresent = 0 := by
    rw [and_mmapPresent, hflag]
    decide
  have hnext : multibootNextMmap m st =
      if st.mbootMmapEntry < mapEntries m st.mbootPtr then
        (mapEntryAt m st.mbootPtr st.mbootMmapEntry,
          { st with mbootMmapEntry := (st.mbootMmapEntry + 1) % 2 ^ 32 })
      else (0, st) := rfl
  simp only [multibootGetMmapNext, hapi, mbootGetNextMmapEntry, if_neg hpresent, hnext,
    Option.bind_eq_bind, Option.bind_some]
  by_cases hlt : st.mbootMmapEntry < mapEntries m st.mbootPtr
  · rw [if_pos hlt, if_pos hlt]
    by_cases hnull : mapEntryAt m st.mbootPtr st.mbootMmapEntry = 0
    · simp [hnull]
    · simp [hnull, Multiboot.readEntry]
  · rw [if_neg hlt, if_neg hlt]
    simp

/-- A 32-bit counter does not wrap below a count of entries. -/
theorem mapEntries_le (m : Mem) (p : ℕ) : mapEntries m p ≤ 2 ^ 32 / 24 := by
  have hlength : infoMmapLength m p < 2 ^ 32 := Mem.read32_lt m _
  rw [mapEntries]
  omega

/-- The first driver's calls, one at a time. -/
theorem firstDriver_steps (hflag : (infoFlags m p).testBit 6 = true) :
    DriverStep m (mapEntries m p) (mapEntryAt m p) (memoryMapInf m) (FirstDriver p) := by
  have hcount := mapEntries_le m p
  refine ⟨?_, ?_, ?_⟩
  · intro c st buf hc hge
    exact (multibootGetMmapNext_first hc hflag buf).trans (if_neg hge.not_gt)
  · intro c st buf hc hlt hnull
    have hcall := multibootGetMmapNext_first hc hflag buf
    rw [if_pos hlt, if_pos hnull] at hcall
    exact ⟨_, hcall, ⟨hc.ptr, hc.api, Nat.mod_eq_of_lt (by omega)⟩, rfl⟩
  · intro c st buf hc hlt hentry
    have hcall := multibootGetMmapNext_first hc hflag buf
    rw [if_pos hlt, if_neg hentry] at hcall
    exact ⟨_, hcall, ⟨hc.ptr, hc.api, Nat.mod_eq_of_lt (by omega)⟩, rfl⟩

/-- Successive calls of the first driver. -/
theorem firstDriver_serves {st : Multiboot} (hst : FirstDriver p 0 st)
    (hflag : (infoFlags m p).testBit 6 = true) (hread : st.entriesRead = []) (buf : MmapData) :
    Serves m st buf (mapEntries m p) (mapEntryAt m p) (memoryMapInf m) :=
  (firstDriver_steps hflag).serves hst hread buf

end First

/-! ## The second driver -/

/-- From `p` on the tags lead to the tag at `t`, the first one of the type. Nothing is
said about the tag itself. -/
inductive TagsUntil (m : Mem) (type t : ℕ) : ℕ → Prop where
  | found (htype : tagType m t = type) : TagsUntil m type t t
  | skip {p : ℕ} (hend : tagType m p ≠ mboot2TypetagEnd) (hother : tagType m p ≠ type)
    (hsize : 8 ≤ tagSize m p) (hnext : TagsUntil m type t (p + (tagSize m p + 7) / 8 * 8)) :
    TagsUntil m type t p

/-- `mmap_entries` of `mboot2_next_mmap`, an unsigned difference -/
def tagEntries (m : Mem) (t : ℕ) : ℕ := (tagSize m t + 2 ^ 32 - 16) % 2 ^ 32 / tagEntrySz m t

/-- `entry` of `mboot2_next_mmap` where the counter is `k` -/
def tagEntryAt (t k : ℕ) : ℕ := (t + 16 + 24 * k) % 2 ^ 32

/-- The second driver is installed for the structure at `p`, and its counter is `c`. -/
structure SecondDriver (p c : ℕ) (st : Multiboot) : Prop where
  /-- `mboot_ptr` -/
  ptr : st.mbootPtr = p
  /-- the table -/
  api : st.apiStruct.getNextMmapEntry = .mboot2GetNextMmap
  /-- `current_mmap_entry` -/
  counter : st.mboot2MmapEntry = c

section Second

variable {m : Mem} {type p t : ℕ}

/-- It is what `multiboot_init` leaves when it accepts the second protocol. -/
theorem secondDriver_of_init {st st' : Multiboot} {tags : List ℕ} (hp : p % 8 = 0)
    (hptr : p ≠ 0) (hwf : WellFormed2 m p tags)
    (hinit : multibootInit m st p multiboot2Magic = some (0, st')) :
    SecondDriver p st.mboot2MmapEntry st' := by
  have hcall := multibootInit_aligned m st hp multiboot2Magic
  rw [if_neg (by decide), if_pos rfl, hinit,
    initMultiboot2_eq (started st p multiboot2Magic) hwf hptr] at hcall
  split at hcall
  · cases hcall
  split at hcall
  · cases hcall
  · cases hcall
    exact ⟨rfl, rfl, rfl⟩

theorem TagsUntil.le (h : TagsUntil m type t p) : p ≤ t := by
  induction h with
  | found _ => exact le_refl t
  | skip _ _ hsize _ ih => omega

/-- The search arrives at the tag. -/
theorem TagsUntil.walk_eq (h : TagsUntil m type t p) (ht : t < 2 ^ 32) {fuel : ℕ}
    (hfuel : t < p + fuel) : walk (nextTag m) (stopsAt m type) fuel p = some t := by
  induction h generalizing fuel with
  | found htype =>
    obtain ⟨fuel, rfl⟩ := Nat.exists_eq_succ_of_ne_zero (show fuel ≠ 0 by omega)
    have hstop : stopsAt m type t := .inr htype
    rw [walk, if_pos hstop]
  | @skip p hend hother hsize hnext ih =>
    have hle := hnext.le
    obtain ⟨fuel, rfl⟩ := Nat.exists_eq_succ_of_ne_zero (show fuel ≠ 0 by omega)
    have hgo : ¬ stopsAt m type p := not_or.mpr ⟨hend, hother⟩
    rw [walk, if_neg hgo, nextTag_eq (by omega)]
    exact ih (by omega)

theorem TagsUntil.type_eq (h : TagsUntil m type t p) : tagType m t = type := by
  induction h with
  | found htype => exact htype
  | skip _ _ _ _ ih => exact ih

/-- `mboot2_find_tag` finds it. -/
theorem TagsUntil.mboot2FindTag_eq {st : Multiboot} (h : TagsUntil m type t (st.mbootPtr + 8))
    (hptr : st.mbootPtr ≠ 0) (ht : t < 2 ^ 32) (htype : type ≠ mboot2TypetagEnd) :
    mboot2FindTag m st type = some (t, st) := by
  have hle := h.le
  have hwalk := h.walk_eq ht (show t < st.mbootPtr + 8 + 2 ^ 32 by omega)
  rw [mboot2FindTag, if_neg hptr, Nat.mod_eq_of_lt (by omega), hwalk]
  simp [h.type_eq, htype]

/-- One call of the second driver where the search finds the tag at `t`. -/
theorem multibootGetMmapNext_second {st : Multiboot} {c : ℕ} (hst : SecondDriver p c st)
    (hfind : mboot2FindTag m st mboot2TypetagMmap = some (t, st)) (ht : t ≠ 0)
    (buf : MmapData) :
    multibootGetMmapNext m st buf =
      if tagEntrySz m t = 0 then none
      else if c < tagEntries m t then
        if tagEntryAt t c = 0 then
          some (-1, buf, { st with mboot2MmapEntry := (c + 1) % 2 ^ 32 })
        else
          some (0, entryMmap m (tagEntryAt t c),
            { st with
              mboot2MmapEntry := (c + 1) % 2 ^ 32
              entriesRead := tagEntryAt t c :: st.entriesRead })
      else some (-1, buf, st) := by
  obtain ⟨rfl, hapi, rfl⟩ := hst
  have hnext : mboot2NextMmap m st =
      if tagEntrySz m t = 0 then none
      else if st.mboot2MmapEntry < tagEntries m t then
        some (tagEntryAt t st.mboot2MmapEntry,
          { st with mboot2MmapEntry := (st.mboot2MmapEntry + 1) % 2 ^ 32 })
      else some (0, st) := by
    rw [mboot2NextMmap, hfind, Option.bind_eq_bind, Option.bind_some]
    exact if_neg ht
  simp only [multibootGetMmapNext, hapi, mboot2GetNextMmap, hnext, Option.bind_eq_bind]
  by_cases hentry : tagEntrySz m t = 0
  · rw [if_pos hentry, if_pos hentry]
    rfl
  rw [if_neg hentry, if_neg hentry]
  by_cases hlt : st.mboot2MmapEntry < tagEntries m t
  · rw [if_pos hlt, if_pos hlt]
    by_cases hnull : tagEntryAt t st.mboot2MmapEntry = 0
    · simp [hnull]
    · simp [hnull, Multiboot.readEntry]
  · rw [if_neg hlt, if_neg hlt]
    simp

/-- The number of entries of a tag with a header. -/
theorem tagEntries_of_le (hsize : 16 ≤ tagSize m t) :
    tagEntries m t = (tagSize m t - 16) / tagEntrySz m t := by
  have hlt : tagSize m t < 2 ^ 32 := Mem.read32_lt m _
  have hdiff : (tagSize m t + 2 ^ 32 - 16) % 2 ^ 32 = tagSize m t - 16 := by omega
  rw [tagEntries, hdiff]

theorem lt_tagEntries_iff (hsize : 16 ≤ tagSize m t) (hentry : tagEntrySz m t ≠ 0) {k : ℕ} :
    k < tagEntries m t ↔ 16 + (k + 1) * tagEntrySz m t ≤ tagSize m t := by
  rw [tagEntries_of_le hsize, Nat.lt_iff_add_one_le,
    Nat.le_div_iff_mul_le (Nat.pos_of_ne_zero hentry)]
  omega

/-- Without a header the difference wraps. -/
theorem tagEntries_of_lt (hsize : tagSize m t < 16) :
    tagEntries m t = (2 ^ 32 + tagSize m t - 16) / tagEntrySz m t := by
  have hdiff : (tagSize m t + 2 ^ 32 - 16) % 2 ^ 32 = 2 ^ 32 + tagSize m t - 16 := by omega
  rw [tagEntries, hdiff]

/-- Without an entry size no call returns. -/
theorem mmapCall_divides_by_zero {st : Multiboot} {c : ℕ} (hst : SecondDriver p c st)
    (hfind : mboot2FindTag m st mboot2TypetagMmap = some (t, st)) (ht : t ≠ 0)
    (hentry : tagEntrySz m t = 0) (buf : MmapData) : mmapCall m st buf 0 = none :=
  (multibootGetMmapNext_second hst hfind ht buf).trans (if_pos hentry)

/-- Successive calls of the second driver. -/
theorem secondDriver_serves {st : Multiboot} (hst : SecondDriver p 0 st)
    (hfind : ∀ st : Multiboot, st.mbootPtr = p →
      mboot2FindTag m st mboot2TypetagMmap = some (t, st))
    (ht : t ≠ 0) (hentry : tagEntrySz m t ≠ 0) (hread : st.entriesRead = []) (buf : MmapData) :
    Serves m st buf (tagEntries m t) (tagEntryAt t) (entryMmap m) := by
  have hcount : tagEntries m t < 2 ^ 32 :=
    lt_of_le_of_lt (Nat.div_le_self _ _) (Nat.mod_lt _ (by decide))
  have hsteps : DriverStep m (tagEntries m t) (tagEntryAt t) (entryMmap m) (SecondDriver p) := by
    refine ⟨?_, ?_, ?_⟩
    · intro c st buf hc hge
      have hcall := multibootGetMmapNext_second hc (hfind st hc.ptr) ht buf
      rw [if_neg hentry, if_neg hge.not_gt] at hcall
      exact hcall
    · intro c st buf hc hlt hnull
      have hcall := multibootGetMmapNext_second hc (hfind st hc.ptr) ht buf
      rw [if_neg hentry, if_pos hlt, if_pos hnull] at hcall
      exact ⟨_, hcall, ⟨hc.ptr, hc.api, Nat.mod_eq_of_lt (by omega)⟩, rfl⟩
    · intro c st buf hc hlt hnext
      have hcall := multibootGetMmapNext_second hc (hfind st hc.ptr) ht buf
      rw [if_neg hentry, if_pos hlt, if_neg hnext] at hcall
      exact ⟨_, hcall, ⟨hc.ptr, hc.api, Nat.mod_eq_of_lt (by omega)⟩, rfl⟩
  exact hsteps.serves hst hread buf

end Second

/-- The statics after `multiboot_init` has accepted a structure of the first protocol. -/
def acceptedFirst (p : ℕ) : Multiboot := installed (started (Multiboot.start 0) p multibootMagic)

/-- And one of the second protocol. -/
def acceptedSecond (p : ℕ) : Multiboot :=
  installed2 (started (Multiboot.start 0) p multiboot2Magic)

theorem firstDriver_accepted (p : ℕ) : FirstDriver p 0 (acceptedFirst p) := ⟨rfl, rfl, rfl⟩

theorem secondDriver_accepted (p : ℕ) : SecondDriver p 0 (acceptedSecond p) := ⟨rfl, rfl, rfl⟩

end MissyKernel
