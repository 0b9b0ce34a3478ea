import MissyKernel.Balloc
import MissyKernel.CircularList

/-!
# The C library allocator

`stdlib/malloc.c`: a circular list of free blocks in address order, threaded through
the headers `{next, size}` in front of the blocks and anchored at the static header
`_base`. Sizes are kept in bytes, header included, while the two merge tests of
`free` add them to header pointers, so scale them by the size of a header.

`sbrk` is a parameter: the loops and the list are the code's, what the kernel does
with the break is not. A loop takes a bound on its steps and returns nothing when it
runs out.

The model keeps the C code's order of stores, because headers may come to overlap when a call
goes wrong, and then the order shows. `free_cases`, `morecore_iff` and `mallocLoop_succ_iff` say
once what a call, a request and a turn of the loop can do; every invariant of later modules takes
them apart instead of the definitions. More steps never change a result (`malloc_mono`).
-/

namespace MissyKernel

/-- `sizeof(_mheader_t)` -/
def headerSize : ℕ := 8

/-- `MALLOC_MIN_SBRK_REQUEST` -/
def mallocMinSbrkRequest : ℕ := 1024

/-- What `sbrk` and `morecore` return on failure: `(void *) -1` -/
def sbrkFailed : ℕ := 0xffffffff

/-- The memory, and the variables of the allocator. -/
structure Allocator (σ : Type) where
  /-- the bytes, `_base` among them -/
  mem : Mem
  /-- `_next_free` -/
  nextFree : ℕ
  errno : ℕ
  /-- what `sbrk` works on -/
  system : σ

/-! ## Headers -/

/-- `header->s.next` -/
def next (mem : Mem) (header : ℕ) : ℕ := mem.read32 header

/-- `header->s.size` -/
def size (mem : Mem) (header : ℕ) : ℕ := mem.read32 (header + 4)

/-- `header->s.next = v` -/
def setNext (mem : Mem) (header v : ℕ) : Mem := mem.write32 header v

/-- `header->s.size = v` -/
def setSize (mem : Mem) (header v : ℕ) : Mem := mem.write32 (header + 4) v

/-- `header + count` on header pointers: the count is scaled by the size of a header. -/
def addHeaders (header count : ℕ) : ℕ := (header + headerSize * count) % 2 ^ 32

/-! ## `free` -/

/-- The two tests that end the search of `free` at `header`. -/
def freeStops (mem : Mem) (mblock header : ℕ) : Prop :=
  (header < mblock ∧ mblock < next mem header) ∨
    (next mem header ≤ header ∧ (header < mblock ∨ mblock < next mem header))

instance (mem : Mem) (mblock : ℕ) : DecidablePred (freeStops mem mblock) := fun _ =>
  inferInstanceAs (Decidable (_ ∨ _))

/-- `coalesce adjacent blocks up` -/
def coalesceUp (mem : Mem) (mblock header : ℕ) : Mem :=
  if addHeaders mblock (size mem mblock) = next mem header then
    let mem := setSize mem mblock (size mem mblock + size mem (next mem header))
    setNext mem mblock (next mem (next mem header))
  else
    setNext mem mblock (next mem header)

/-- `coalesce adjacent blocks down` -/
def coalesceDown (mem : Mem) (mblock header : ℕ) : Mem :=
  if addHeaders header (size mem header) = mblock then
    let mem := setSize mem header (size mem header + size mem mblock)
    setNext mem header (next mem mblock)
  else
    setNext mem header mblock

variable {σ : Type}

/-- `free` -/
def free (fuel : ℕ) (st : Allocator σ) (block : ℕ) : Option (Allocator σ) :=
  let mblock := (block + 2 ^ 32 - headerSize) % 2 ^ 32
  (walk (next st.mem) (freeStops st.mem mblock) fuel st.nextFree).map fun header =>
    { st with
      mem := coalesceDown (coalesceUp st.mem mblock header) mblock header
      nextFree := header }

/-! ## `malloc` -/

/-- How many bytes `morecore` asks for. -/
def morecoreRequest (size : ℕ) : ℕ :=
  if (size + headerSize) % 2 ^ 32 < mallocMinSbrkRequest then mallocMinSbrkRequest
  else (size + headerSize) % 2 ^ 32

/-- `morecore`; it returns the new header, `NULL` for failure. -/
def morecore (sbrk : σ → ℕ → ℕ × σ) (fuel : ℕ) (st : Allocator σ) (size : ℕ) :
    Option (ℕ × Allocator σ) :=
  let request := morecoreRequest size
  let header := (sbrk st.system request).1
  let system := (sbrk st.system request).2
  if header = sbrkFailed then
    some (0, { st with system := system, errno := enomem })
  else
    let st := { st with system := system, mem := setSize st.mem header request }
    (free fuel st ((header + headerSize) % 2 ^ 32)).map fun st => (header, st)

/-- Take `allocationSize` bytes out of the free block `header`: all of it, or its end.
The result is the pointer the caller gets. -/
def takeBlock (st : Allocator σ) (allocationSize prevHeader header : ℕ) : ℕ × Allocator σ :=
  if size st.mem header = allocationSize then
    ((header + headerSize) % 2 ^ 32,
      { st with mem := setNext st.mem prevHeader (next st.mem header), nextFree := prevHeader })
  else
    let mem := setSize st.mem header (size st.mem header - allocationSize)
    let taken := (header + size mem header) % 2 ^ 32
    ((taken + headerSize) % 2 ^ 32,
      { st with mem := setSize mem taken allocationSize, nextFree := prevHeader })

/-- The loop of `malloc`, from `header` with `prevHeader` before it. -/
def mallocLoop (sbrk : σ → ℕ → ℕ × σ) (allocationSize : ℕ) :
    ℕ → ℕ → ℕ → Allocator σ → Option (ℕ × Allocator σ)
  | 0, _, _, _ => none
  | fuel + 1, prevHeader, header, st =>
    if allocationSize ≤ size st.mem header then
      some (takeBlock st allocationSize prevHeader header)
    else if header = st.nextFree then
      -- list wrapped to beginning; call morecore
      (morecore sbrk fuel st allocationSize).bind fun (header, st) =>
        if header = 0 then some (0, st)
        else mallocLoop sbrk allocationSize fuel header (next st.mem header) st
    else
      mallocLoop sbrk allocationSize fuel header (next st.mem header) st

/-- The first lines of `malloc`: an allocator that was never used gets its empty list. -/
def startList (base : ℕ) (st : Allocator σ) : Allocator σ :=
  if st.nextFree = 0 then
    { st with mem := setSize (setNext st.mem base base) base 0, nextFree := base }
  else st

theorem startList_system (base : ℕ) (st : Allocator σ) :
    (startList base st).system = st.system := by
  unfold startList
  split <;> rfl

/-- `malloc`, with `_base` at the address `base`; the result is the pointer, or `NULL`. -/
def malloc (sbrk : σ → ℕ → ℕ × σ) (base fuel : ℕ) (st : Allocator σ) (nbytes : ℕ) :
    Option (ℕ × Allocator σ) :=
  let allocationSize := (nbytes + headerSize) % 2 ^ 32
  let st := startList base st
  mallocLoop sbrk allocationSize fuel st.nextFree (next st.mem st.nextFree) st

/-! ## Reading headers after writing them -/

section Headers

variable {mem : Mem} {x y v : ℕ}

theorem next_lt (mem : Mem) (x : ℕ) : next mem x < 2 ^ 32 := Mem.read32_lt mem x

theorem next_setNext_self (mem : Mem) (hv : v < 2 ^ 32) : next (setNext mem x v) x = v :=
  (Mem.read32_write32_self mem x v).trans (Nat.mod_eq_of_lt hv)

theorem size_setSize_self (mem : Mem) (hv : v < 2 ^ 32) : size (setSize mem x v) x = v :=
  (Mem.read32_write32_self mem (x + 4) v).trans (Nat.mod_eq_of_lt hv)

theorem next_setNext_of_apart (h : x + 8 ≤ y ∨ y + 8 ≤ x) :
    next (setNext mem x v) y = next mem y :=
  Mem.read32_write32_of_disjoint (by omega)

theorem size_setSize_of_apart (h : x + 8 ≤ y ∨ y + 8 ≤ x) :
    size (setSize mem x v) y = size mem y :=
  Mem.read32_write32_of_disjoint (by omega)

/-- A link is no size, whichever of two headers it belongs to. -/
theorem size_setNext (h : x = y ∨ x + 8 ≤ y ∨ y + 8 ≤ x) :
    size (setNext mem x v) y = size mem y :=
  Mem.read32_write32_of_disjoint (by omega)

/-- A size is no link, whichever of two headers it belongs to. -/
theorem next_setSize (h : x = y ∨ x + 8 ≤ y ∨ y + 8 ≤ x) :
    next (setSize mem x v) y = next mem y :=
  Mem.read32_write32_of_disjoint (by omega)

end Headers

/-! ## What a call can do -/

section Calls

variable {sbrk : σ → ℕ → ℕ × σ} {fuel fuel' block n prev header : ℕ} {st st' : Allocator σ}
  {r : ℕ × Allocator σ}

/-- `free` puts the block behind a node of the list and changes the list alone. -/
theorem free_cases (h : free fuel st block = some st') :
    ∃ header, walk (next st.mem) (freeStops st.mem ((block + 2 ^ 32 - headerSize) % 2 ^ 32)) fuel
        st.nextFree = some header ∧
      st'.mem = coalesceDown (coalesceUp st.mem ((block + 2 ^ 32 - headerSize) % 2 ^ 32) header)
        ((block + 2 ^ 32 - headerSize) % 2 ^ 32) header ∧
      st'.nextFree = header ∧ st'.system = st.system := by
  obtain ⟨header, hwalk, rfl⟩ := Option.map_eq_some_iff.mp h
  refine ⟨header, hwalk, ?_, ?_, ?_⟩
  all_goals dsimp only

/-- `morecore` asks once: it is refused, or it frees what it got. -/
theorem morecore_iff :
    morecore sbrk fuel st n = some r ↔
      ((sbrk st.system (morecoreRequest n)).1 = sbrkFailed ∧
        (0, { st with system := (sbrk st.system (morecoreRequest n)).2, errno := enomem }) = r) ∨
      ((sbrk st.system (morecoreRequest n)).1 ≠ sbrkFailed ∧ ∃ st',
        free fuel
          { st with
            system := (sbrk st.system (morecoreRequest n)).2
            mem := setSize st.mem (sbrk st.system (morecoreRequest n)).1 (morecoreRequest n) }
          (((sbrk st.system (morecoreRequest n)).1 + headerSize) % 2 ^ 32) = some st' ∧
        ((sbrk st.system (morecoreRequest n)).1, st') = r) := by
  rw [morecore]
  dsimp only
  by_cases hfail : (sbrk st.system (morecoreRequest n)).1 = sbrkFailed
  · rw [if_pos hfail, Option.some_inj]
    exact ⟨fun h => .inl ⟨hfail, h⟩, fun h => h.elim And.right fun h => absurd hfail h.1⟩
  · rw [if_neg hfail, Option.map_eq_some_iff]
    exact ⟨fun h => .inr ⟨hfail, h⟩, fun h => h.elim (fun h => absurd h.1 hfail) And.right⟩

/-- A turn of the loop of `malloc`: it takes the block, back at `_next_free` it asks for more
memory, and elsewhere it goes on. -/
theorem mallocLoop_succ_iff :
    mallocLoop sbrk n (fuel + 1) prev header st = some r ↔
      (n ≤ size st.mem header ∧ takeBlock st n prev header = r) ∨
      (size st.mem header < n ∧ header = st.nextFree ∧ ∃ found st',
        morecore sbrk fuel st n = some (found, st') ∧
        ((found = 0 ∧ (0, st') = r) ∨
          (found ≠ 0 ∧ mallocLoop sbrk n fuel found (next st'.mem found) st' = some r))) ∨
      (size st.mem header < n ∧ header ≠ st.nextFree ∧
        mallocLoop sbrk n fuel header (next st.mem header) st = some r) := by
  rw [mallocLoop]
  by_cases hfit : n ≤ size st.mem header
  · rw [if_pos hfit, Option.some_inj]
    simp only [hfit, Nat.not_lt.mpr hfit, true_and, false_and, or_false]
  by_cases hwrap : header = st.nextFree
  · rw [if_neg hfit, if_pos hwrap, Option.bind_eq_some_iff, Prod.exists]
    subst hwrap
    simp only [hfit, Nat.lt_of_not_le hfit, ne_eq, not_true_eq_false, true_and,
      false_and, and_false,
      false_or, or_false]
    refine exists_congr fun found => exists_congr fun st' => and_congr_right fun _ => ?_
    by_cases hnull : found = 0
    · rw [if_pos hnull, Option.some_inj]
      simp only [hnull, not_true_eq_false, true_and, false_and, or_false]
    · rw [if_neg hnull]
      simp only [hnull, not_false_eq_true, true_and, false_and, false_or]
  · rw [if_neg hfit, if_neg hwrap]
    simp only [hfit, Nat.lt_of_not_le hfit, hwrap, ne_eq, not_false_eq_true, true_and, false_and,
      false_or]

/-! ## More steps never change the result -/

theorem free_mono (h : free fuel st block = some st') (hle : fuel ≤ fuel') :
    free fuel' st block = some st' := by
  obtain ⟨header, hwalk, heq⟩ := Option.map_eq_some_iff.mp h
  exact Option.map_eq_some_iff.mpr ⟨header, walk_mono hwalk hle, heq⟩

theorem morecore_mono (h : morecore sbrk fuel st n = some r) (hle : fuel ≤ fuel') :
    morecore sbrk fuel' st n = some r := by
  rw [morecore_iff] at h ⊢
  rcases h with hfailed | ⟨hgranted, st', hfree, heq⟩
  · exact .inl hfailed
  · exact .inr ⟨hgranted, st', free_mono hfree hle, heq⟩

theorem mallocLoop_mono (h : mallocLoop sbrk n fuel prev header st = some r) (hle : fuel ≤ fuel') :
    mallocLoop sbrk n fuel' prev header st = some r := by
  induction fuel generalizing prev header st fuel' with
  | zero => exact absurd h (by simp [mallocLoop])
  | succ fuel ih =>
    obtain ⟨fuel', rfl⟩ := Nat.exists_eq_succ_of_ne_zero (Nat.ne_of_gt (Nat.zero_lt_of_lt hle))
    have hle := Nat.le_of_succ_le_succ hle
    rw [mallocLoop_succ_iff] at h ⊢
    rcases h with htaken | ⟨hsmall, hwrap, found, st', hmore, hrest⟩ | ⟨hsmall, hwrap, hrest⟩
    · exact .inl htaken
    · refine .inr (.inl ⟨hsmall, hwrap, found, st', morecore_mono hmore hle, ?_⟩)
      exact hrest.imp id fun ⟨hfound, hloop⟩ => ⟨hfound, ih hloop hle⟩
    · exact .inr (.inr ⟨hsmall, hwrap, ih hrest hle⟩)

end Calls

theorem malloc_mono {sbrk : σ → ℕ → ℕ × σ} {base fuel fuel' n : ℕ} {st : Allocator σ}
    {r : ℕ × Allocator σ} (h : malloc sbrk base fuel st n = some r) (hle : fuel ≤ fuel') :
    malloc sbrk base fuel' st n = some r :=
  mallocLoop_mono h hle

/-- Two completed calls on one heap are the same. -/
theorem malloc_unique {sbrk : σ → ℕ → ℕ × σ} {base fuel fuel' n : ℕ} {st : Allocator σ}
    {r r' : ℕ × Allocator σ} (h : malloc sbrk base fuel st n = some r)
    (h' : malloc sbrk base fuel' st n = some r') : r = r' :=
  Option.some_injective _ <| (malloc_mono h (Nat.le_max_left fuel fuel')).symm.trans
    (malloc_mono h' (Nat.le_max_right fuel fuel'))

end MissyKernel
