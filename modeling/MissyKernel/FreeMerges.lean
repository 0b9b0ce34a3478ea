import MissyKernel.MallocSpec

/-!
# Which blocks `free` merges

A free list in general: circular, in address order, through `_base` wherever that lies,
its nodes apart from each other (`FreeRing`). A block that is freed should be joined with the
free blocks that touch it, and with no others (`Coalesced`). The merge tests of `free` add
a size in bytes to a header pointer, which moves the pointer eight times as far, so they
never find a block that touches. What is freed therefore comes right exactly where nothing
had to be merged and neither test succeeds by accident.

No assumption is made on how the list came about: any `FreeRing` will do. `Coalesced` compares
the heap after the call with the one that should be there: the same free bytes and those of the
block, no two free blocks that touch, and the blocks that do not touch it as they were. The
scaled tests can also succeed by accident, for a block eight times as far away as its neighbour
is long, and then the heap comes out wrong too; the condition excludes it.
-/

namespace MissyKernel

variable {σ : Type} {base first b header : ℕ} {rest : List ℕ} {st st' : Allocator σ}

/-- The bytes that a node of the free list takes: those of its block, or its header alone. -/
def footprint (mem : Mem) (x : ℕ) : ℕ := max headerSize (size mem x)

/-- Two nodes do not overlap. -/
def Clear (mem : Mem) (x y : ℕ) : Prop :=
  x + footprint mem x ≤ y ∨ y + footprint mem y ≤ x

instance (mem : Mem) : Std.Symm (Clear mem) := ⟨fun _ _ => Or.symm⟩

/-- Two blocks touch. -/
def Touches (mem : Mem) (x y : ℕ) : Prop := x + size mem x = y ∨ y + size mem y = x

instance (mem : Mem) (x y : ℕ) : Decidable (Touches mem x y) :=
  inferInstanceAs (Decidable (_ ∨ _))

/-- A heap's free list, from its lowest node on. -/
structure FreeRing (base : ℕ) (st : Allocator σ) (first : ℕ) (rest : List ℕ) : Prop where
  /-- the list is circular -/
  circular : Path (next st.mem) first rest first
  /-- in address order, and no two nodes overlap -/
  apart : (first :: rest).Pairwise fun x y => x + footprint st.mem x ≤ y
  /-- they lie in memory -/
  inMemory : ∀ x ∈ first :: rest, x + footprint st.mem x ≤ 2 ^ 32
  /-- the list passes through `_base` -/
  throughBase : base ∈ first :: rest
  /-- which is empty -/
  baseSize : size st.mem base = 0
  /-- `_next_free` is on the list -/
  current : st.nextFree ∈ first :: rest
  /-- no two blocks touch, `_base` excepted -/
  separate : ∀ x ∈ first :: rest, ∀ y ∈ first :: rest, x ≠ base → y ≠ base → x ≠ y →
    ¬ Touches st.mem x y

/-- A live block, apart from the nodes of the free list. -/
structure LiveBlock (st : Allocator σ) (nodes : List ℕ) (b : ℕ) : Prop where
  /-- it has a header -/
  room : headerSize ≤ size st.mem b
  /-- it lies in memory -/
  inMemory : b + size st.mem b ≤ 2 ^ 32
  /-- no node overlaps it -/
  apart : ∀ x ∈ nodes, x + footprint st.mem x ≤ b ∨ b + size st.mem b ≤ x

/-- The byte at `a` is free. -/
def FreeByte (st : Allocator σ) (a : ℕ) : Prop :=
  ∃ x, OnList st x ∧ x ≤ a ∧ a < x + size st.mem x

/-- What freeing the block `b` should leave of a heap. -/
structure Coalesced (base : ℕ) (st st' : Allocator σ) (b : ℕ) : Prop where
  /-- the bytes of the block are free, and those that were -/
  bytes : ∀ a, FreeByte st' a ↔ FreeByte st a ∨ (b ≤ a ∧ a < b + size st.mem b)
  /-- no two free blocks touch, `_base` excepted -/
  separate : ∀ x y, OnList st' x → OnList st' y → x ≠ base → y ≠ base → x ≠ y →
    ¬ Touches st'.mem x y
  /-- the free blocks that do not touch the block are as they were -/
  kept : ∀ x, OnList st x → ¬ Touches st.mem x b →
    OnList st' x ∧ size st'.mem x = size st.mem x

/-- The first merge test of `free` does not succeed, or there is only `_base` to merge with,
and the second one does not. -/
def MergesNothing (mem : Mem) (b header : ℕ) : Prop :=
  (addHeaders b (size mem b) ≠ next mem header ∨ next mem header = header) ∧
    addHeaders header (size mem header) ≠ b

theorem Touches.symm {mem : Mem} {x y : ℕ} (h : Touches mem x y) : Touches mem y x := Or.symm h

/-- A scaled size does not lead to the end of a block. -/
theorem eq_zero_of_addHeaders_eq {x k : ℕ} (h : addHeaders x k = x + k) : k = 0 := by
  have hlt : addHeaders x k < 2 ^ 32 := Nat.mod_lt _ (by decide)
  by_contra hpos
  exact addHeaders_ne_end (Nat.pos_of_ne_zero hpos) (h ▸ hlt) h

namespace FreeRing

/-! ## Reading the list -/

theorem ascending (h : FreeRing base st first rest) : (first :: rest).Pairwise (· < ·) := by
  refine h.apart.imp fun {x y} hxy => ?_
  have hle : headerSize ≤ footprint st.mem x := Nat.le_max_left _ _
  rw [headerSize] at hle
  omega

theorem nodup (h : FreeRing base st first rest) : (first :: rest).Nodup :=
  h.ascending.imp ne_of_lt

theorem onList (h : FreeRing base st first rest) {x : ℕ} :
    OnList st x ↔ x ∈ first :: rest :=
  onList_iff h.circular h.current

theorem next_mem (h : FreeRing base st first rest) {x : ℕ} (hx : x ∈ first :: rest) :
    next st.mem x ∈ first :: rest := by
  rcases List.mem_append.mp (h.circular.succ_mem hx) with hmem | hmem
  · exact List.mem_cons_of_mem first hmem
  · rw [List.mem_singleton.mp hmem]
    exact List.mem_cons_self

theorem clear (h : FreeRing base st first rest) {x y : ℕ} (hx : x ∈ first :: rest)
    (hy : y ∈ first :: rest) (hne : x ≠ y) : Clear st.mem x y :=
  (h.apart.imp fun hxy => .inl hxy : (first :: rest).Pairwise (Clear st.mem)).forall hx hy hne

/-- The headers of two nodes do not overlap. -/
theorem apart_or_eq (h : FreeRing base st first rest) {x y : ℕ} (hx : x ∈ first :: rest)
    (hy : y ∈ first :: rest) : x = y ∨ x + 8 ≤ y ∨ y + 8 ≤ x := by
  by_cases heq : x = y
  · exact .inl heq
  · have hclear := h.clear hx hy heq
    have hle : 8 ≤ footprint st.mem x := Nat.le_max_left _ _
    have hle' : 8 ≤ footprint st.mem y := Nat.le_max_left _ _
    rw [Clear] at hclear
    omega

/-- A node that is its own successor is `_base`, alone on the list. -/
theorem eq_base_of_next_self (h : FreeRing base st first rest) (hheader : header ∈ first :: rest)
    (hself : next st.mem header = header) : header = base := by
  obtain ⟨r, hrotated, hperm⟩ := h.circular.rotate hheader
  cases r with
  | nil => exact (List.mem_singleton.mp (hperm.mem_iff.mpr h.throughBase)).symm
  | cons y r =>
    have hnotin := (List.nodup_cons.mp (hperm.nodup_iff.mpr h.nodup)).1
    exact absurd (hself ▸ hrotated.1 ▸ List.mem_cons_self) hnotin

end FreeRing

/-! ## The place of a live block -/

/-- A live block, and the node behind which it goes. -/
structure Place (base : ℕ) (st : Allocator σ) (first : ℕ) (rest : List ℕ) (b header : ℕ) :
    Prop where
  ring : FreeRing base st first rest
  live : LiveBlock st (first :: rest) b
  mem : header ∈ first :: rest
  stops : freeStops st.mem b header

theorem LiveBlock.ne (h : LiveBlock st (first :: rest) b) {x : ℕ} (hx : x ∈ first :: rest) :
    x ≠ b ∧ (x + 8 ≤ b ∨ b + 8 ≤ x) := by
  have hapart := h.apart x hx
  have hroom := h.room
  have hle : 8 ≤ footprint st.mem x := Nat.le_max_left _ _
  rw [headerSize] at hroom
  omega

/-- The search of `free` ends at one node. -/
theorem FreeRing.exists_place (h : FreeRing base st first rest)
    (hlive : LiveBlock st (first :: rest) b) :
    ∃ header, Place base st first rest b header ∧
      ∀ x ∈ first :: rest, freeStops st.mem b x ↔ x = header := by
  have hnotin : b ∉ first :: rest := fun hmem => (hlive.ne hmem).1 rfl
  obtain ⟨header, hmem, huniq⟩ := h.circular.exists_splicePoint h.ascending hnotin
  exact ⟨header, ⟨h, hlive, hmem, (huniq header hmem).mpr rfl⟩, huniq⟩

namespace Place

variable (h : Place base st first rest b header)
include h

/-- The bytes of the block and those of the next node are not all of memory. -/
theorem size_add_lt (hne : next st.mem header ≠ header) :
    size st.mem b + size st.mem (next st.mem header) < 2 ^ 32 := by
  have hnext := h.ring.next_mem h.mem
  have hclear := h.ring.clear hnext h.mem hne
  have hle : size st.mem (next st.mem header) ≤ footprint st.mem (next st.mem header) :=
    Nat.le_max_right _ _
  have hle' : 8 ≤ footprint st.mem header := Nat.le_max_left _ _
  have hin := h.live.inMemory
  have hin' := h.ring.inMemory _ hnext
  have hin'' := h.ring.inMemory _ h.mem
  have hapart := h.live.apart _ hnext
  have hapart' := h.live.apart _ h.mem
  rw [Clear] at hclear
  omega

/-- Where the first test succeeds the block does not touch the next node. -/
theorem not_touches_next (hup : addHeaders b (size st.mem b) = next st.mem header)
    (hne : next st.mem header ≠ header) : ¬ Touches st.mem (next st.mem header) b := by
  have hnext := h.ring.next_mem h.mem
  rintro (htouch | htouch)
  · have hclear := h.ring.clear hnext h.mem hne
    have happart := (h.live.ne h.mem).2
    have hnb := (h.live.ne hnext).1
    have hle : size st.mem (next st.mem header) ≤ footprint st.mem (next st.mem header) :=
      Nat.le_max_right _ _
    have hle' : 8 ≤ footprint st.mem (next st.mem header) := Nat.le_max_left _ _
    have hle'' : 8 ≤ footprint st.mem header := Nat.le_max_left _ _
    have hstops := h.stops
    rw [Clear] at hclear
    rw [freeStops] at hstops
    omega
  · have hzero := eq_zero_of_addHeaders_eq (hup.trans htouch.symm)
    have hroom := h.live.room
    rw [hzero, headerSize] at hroom
    omega

/-- Where the second test succeeds the block does not touch the node before it. -/
theorem not_touches_header (hdown : addHeaders header (size st.mem header) = b) :
    ¬ Touches st.mem header b := by
  have hheader := (h.live.ne h.mem).1
  have hlt : header < 2 ^ 32 := by
    have hin := h.ring.inMemory _ h.mem
    have hle : 8 ≤ footprint st.mem header := Nat.le_max_left _ _
    omega
  have hempty : size st.mem header ≠ 0 := by
    intro hzero
    rw [hzero, addHeaders, Nat.mul_zero, Nat.add_zero, Nat.mod_eq_of_lt hlt] at hdown
    exact hheader hdown
  rintro (htouch | htouch)
  · exact hempty (eq_zero_of_addHeaders_eq (hdown.trans htouch.symm))
  · -- the block is the lowest and the header the highest of all, and so `_base`
    have hnext := h.ring.next_mem h.mem
    have hstops := h.stops
    have hroom := h.live.room
    have hapart := h.live.apart _ hnext
    have hle : 8 ≤ footprint st.mem (next st.mem header) := Nat.le_max_left _ _
    rw [freeStops] at hstops
    rw [headerSize] at hroom
    have hself : next st.mem header = header := by omega
    rw [h.ring.eq_base_of_next_self h.mem hself] at hempty
    exact hempty h.ring.baseSize

end Place

/-! ## What `free` writes -/

section Writes

variable {mem : Mem} {x : ℕ}

theorem size_coalesceUp (hx : b + 8 ≤ x ∨ x + 8 ≤ b) :
    size (coalesceUp mem b header) x = size mem x := by
  rw [coalesceUp]
  split
  · exact (size_setNext (.inr hx)).trans (size_setSize_of_apart hx)
  · exact size_setNext (.inr hx)

theorem next_coalesceUp (hx : b + 8 ≤ x ∨ x + 8 ≤ b) :
    next (coalesceUp mem b header) x = next mem x := by
  rw [coalesceUp]
  split
  · exact (next_setNext_of_apart hx).trans (next_setSize (.inr hx))
  · exact next_setNext_of_apart hx

theorem size_coalesceUp_self (mem : Mem) (b header : ℕ) :
    size (coalesceUp mem b header) b =
      if addHeaders b (size mem b) = next mem header then
        (size mem b + size mem (next mem header)) % 2 ^ 32
      else size mem b := by
  rw [coalesceUp]
  split
  · exact (size_setNext (.inl rfl)).trans (Mem.read32_write32_self _ _ _)
  · exact size_setNext (.inl rfl)

theorem next_coalesceUp_self (hheader : b + 8 ≤ header ∨ header + 8 ≤ b)
    (hnext : b + 8 ≤ next mem header ∨ next mem header + 8 ≤ b) :
    next (coalesceUp mem b header) b =
      if addHeaders b (size mem b) = next mem header then next mem (next mem header)
      else next mem header := by
  rw [coalesceUp]
  split
  · dsimp only
    rw [next_setNext_self _ (next_lt _ _), next_setSize (.inr hheader), next_setSize (.inr hnext)]
  · exact next_setNext_self _ (next_lt _ _)

theorem size_coalesceDown (hx : header + 8 ≤ x ∨ x + 8 ≤ header) :
    size (coalesceDown mem b header) x = size mem x := by
  rw [coalesceDown]
  split
  · exact (size_setNext (.inr hx)).trans (size_setSize_of_apart hx)
  · exact size_setNext (.inr hx)

theorem next_coalesceDown (hx : header + 8 ≤ x ∨ x + 8 ≤ header) :
    next (coalesceDown mem b header) x = next mem x := by
  rw [coalesceDown]
  split
  · exact (next_setNext_of_apart hx).trans (next_setSize (.inr hx))
  · exact next_setNext_of_apart hx

theorem size_coalesceDown_self (mem : Mem) (b header : ℕ) :
    size (coalesceDown mem b header) header =
      if addHeaders header (size mem header) = b then (size mem header + size mem b) % 2 ^ 32
      else size mem header := by
  rw [coalesceDown]
  split
  · exact (size_setNext (.inl rfl)).trans (Mem.read32_write32_self _ _ _)
  · exact size_setNext (.inl rfl)

end Writes

/-- The heap after `free`, whose search ended at `header`. -/
def Allocator.freed (st : Allocator σ) (b header : ℕ) : Allocator σ :=
  { st with
    mem := coalesceDown (coalesceUp st.mem b header) b header
    nextFree := header }

theorem Allocator.mem_freed (st : Allocator σ) (b header : ℕ) :
    (st.freed b header).mem = coalesceDown (coalesceUp st.mem b header) b header := by
  rw [freed]

namespace Place

theorem free_eq (h : Place base st first rest b header)
    (huniq : ∀ x ∈ first :: rest, freeStops st.mem b x ↔ x = header) {fuel : ℕ}
    (hfuel : rest.length < fuel) : free fuel st (b + headerSize) = some (st.freed b header) := by
  have haddr : (b + headerSize + 2 ^ 32 - headerSize) % 2 ^ 32 = b := by
    have hroom := h.live.room
    have hin := h.live.inMemory
    rw [headerSize] at hroom ⊢
    omega
  obtain ⟨r, hrotated, hperm⟩ := h.ring.circular.rotate h.ring.current
  have hlength : r.length < fuel := by
    have heq := hperm.length_eq
    rw [List.length_cons, List.length_cons] at heq
    omega
  have hwalk : walk (next st.mem) (freeStops st.mem b) fuel st.nextFree = some header :=
    hrotated.walk_eq (hperm.mem_iff.mpr h.mem) (fun y hy => huniq y (hperm.mem_iff.mp hy)) hlength
  rw [free]
  simp only [haddr, hwalk, Option.map_some]
  rfl

variable (h : Place base st first rest b header)
include h

/-- The nodes behind the header, and what the writes leave of them. -/
theorem size_freed {x : ℕ} (hx : x ∈ first :: rest) (hne : x ≠ header) :
    size (st.freed b header).mem x = size st.mem x := by
  rw [st.mem_freed, size_coalesceDown ((h.ring.apart_or_eq h.mem hx).resolve_left hne.symm)]
  exact size_coalesceUp (h.live.ne hx).2.symm

theorem next_freed {x : ℕ} (hx : x ∈ first :: rest) (hne : x ≠ header) :
    next (st.freed b header).mem x = next st.mem x := by
  rw [st.mem_freed, next_coalesceDown ((h.ring.apart_or_eq h.mem hx).resolve_left hne.symm)]
  exact next_coalesceUp (h.live.ne hx).2.symm

/-- The header keeps its size unless the second test succeeds. -/
theorem size_freed_header :
    size (st.freed b header).mem header =
      if addHeaders header (size st.mem header) = b then
        (size st.mem header + size (coalesceUp st.mem b header) b) % 2 ^ 32
      else size st.mem header := by
  have hkeep : size (coalesceUp st.mem b header) header = size st.mem header :=
    size_coalesceUp (h.live.ne h.mem).2.symm
  rw [st.mem_freed, size_coalesceDown_self, hkeep]

theorem size_freed_block :
    size (st.freed b header).mem b = size (coalesceUp st.mem b header) b := by
  rw [st.mem_freed]
  exact size_coalesceDown (h.live.ne h.mem).2

theorem next_freed_block :
    next (st.freed b header).mem b =
      if addHeaders b (size st.mem b) = next st.mem header then
        next st.mem (next st.mem header)
      else next st.mem header := by
  rw [st.mem_freed, next_coalesceDown (h.live.ne h.mem).2]
  exact next_coalesceUp_self (h.live.ne h.mem).2.symm (h.live.ne (h.ring.next_mem h.mem)).2.symm

/-- Without a merge downwards the list goes from the header to the block, and on to what
the block was given to point at. -/
theorem path_freed {y : ℕ} {l : List ℕ} (hdown : addHeaders header (size st.mem header) ≠ b)
    (hpath : Path (next st.mem) y l header)
    (hl : ∀ x ∈ l, x ∈ first :: rest ∧ x ≠ header)
    (hy : next (st.freed b header).mem b = next st.mem y) :
    Path (next (st.freed b header).mem) header (b :: l) header := by
  refine ⟨?_, hpath.congr_from hy fun x hx => h.next_freed (hl x hx).1 (hl x hx).2⟩
  have hkeep : size (coalesceUp st.mem b header) header = size st.mem header :=
    size_coalesceUp (h.live.ne h.mem).2.symm
  have hbound : b < 2 ^ 32 := by
    have hroom := h.live.room
    have hin := h.live.inMemory
    rw [headerSize] at hroom
    omega
  rw [st.mem_freed, coalesceDown, hkeep, if_neg hdown]
  exact next_setNext_self _ hbound

/-- The node that a merge upwards joined to the block is off the list. -/
theorem not_onList_freed (hup : addHeaders b (size st.mem b) = next st.mem header)
    (hne : next st.mem header ≠ header)
    (hdown : addHeaders header (size st.mem header) ≠ b) :
    ¬ OnList (st.freed b header) (next st.mem header) := by
  obtain ⟨r, hrotated, hperm⟩ := h.ring.circular.rotate h.mem
  have hnodup := hperm.nodup_iff.mpr h.ring.nodup
  cases r with
  | nil => exact absurd hrotated hne
  | cons y r =>
    obtain ⟨hy, htail⟩ := hrotated
    obtain ⟨hnotin, hnodup⟩ := List.nodup_cons.mp hnodup
    have hpath : Path (next (st.freed b header).mem) header (b :: r) header := by
      refine h.path_freed hdown htail (fun x hx => ⟨?_, ?_⟩) ?_
      · exact hperm.mem_iff.mp (List.mem_cons_of_mem _ (List.mem_cons_of_mem _ hx))
      · exact fun heq => hnotin (heq ▸ List.mem_cons_of_mem _ hx)
      · rw [h.next_freed_block, if_pos hup, hy]
    rw [onList_iff hpath List.mem_cons_self, hy]
    intro hmem
    rcases List.mem_cons.mp hmem with heq | hmem
    · exact hne (hy.trans heq)
    rcases List.mem_cons.mp hmem with heq | hmem
    · exact (h.live.ne (h.ring.next_mem h.mem)).1 (hy.trans heq)
    · exact (List.nodup_cons.mp hnodup).1 hmem

/-! ## Without a merge -/

section NoMerge

variable (hnone : MergesNothing st.mem b header)
include hnone

/-- The block is one more node. -/
theorem onList_freed (x : ℕ) : OnList (st.freed b header) x ↔ x = b ∨ OnList st x := by
  obtain ⟨r, hrotated, hperm⟩ := h.ring.circular.rotate h.mem
  have hnotin := (List.nodup_cons.mp (hperm.nodup_iff.mpr h.ring.nodup)).1
  have hpath : Path (next (st.freed b header).mem) header (b :: r) header := by
    refine h.path_freed hnone.2 hrotated (fun x hx => ⟨?_, ?_⟩) ?_
    · exact hperm.mem_iff.mp (List.mem_cons_of_mem _ hx)
    · exact fun heq => hnotin (heq ▸ hx)
    · rw [h.next_freed_block]
      split
      · rename_i hup
        have hself := hnone.1.resolve_left (not_not_intro hup)
        rw [hself]
        exact hself
      · rfl
  rw [onList_iff hpath List.mem_cons_self, h.ring.onList, ← hperm.mem_iff]
  simp only [List.mem_cons]
  exact or_left_comm

theorem size_freed_onList {x : ℕ} (hx : OnList st x) :
    size (st.freed b header).mem x = size st.mem x := by
  have hx := h.ring.onList.mp hx
  by_cases heq : x = header
  · rw [heq, h.size_freed_header, if_neg hnone.2]
  · exact h.size_freed hx heq

theorem size_freed_self : size (st.freed b header).mem b = size st.mem b := by
  rw [h.size_freed_block, size_coalesceUp_self]
  split
  · rename_i hup
    have hself := hnone.1.resolve_left (not_not_intro hup)
    rw [hself, h.ring.eq_base_of_next_self h.mem hself, h.ring.baseSize, Nat.add_zero]
    exact Nat.mod_eq_of_lt (Mem.read32_lt _ _)
  · rfl

/-- Nothing else has changed. -/
theorem coalesced_of_apart
    (hclear : ∀ x, OnList st x → x ≠ base → ¬ Touches st.mem x b) :
    Coalesced base st (st.freed b header) b := by
  have hsize := fun x hx => h.size_freed_onList hnone (x := x) hx
  have hself := h.size_freed_self hnone
  refine ⟨fun a => ?_, fun x y hx hy hxb hyb hne => ?_, fun x hx _ => ?_⟩
  · constructor
    · rintro ⟨x, hx, hle, hlt⟩
      rcases (h.onList_freed hnone x).mp hx with rfl | hx
      · exact .inr ⟨hle, hself ▸ hlt⟩
      · exact .inl ⟨x, hx, hle, hsize x hx ▸ hlt⟩
    · rintro (⟨x, hx, hle, hlt⟩ | ⟨hle, hlt⟩)
      · exact ⟨x, (h.onList_freed hnone x).mpr (.inr hx), hle, (hsize x hx).symm ▸ hlt⟩
      · exact ⟨b, (h.onList_freed hnone b).mpr (.inl rfl), hle, hself.symm ▸ hlt⟩
  · rw [Touches]
    rcases (h.onList_freed hnone x).mp hx with rfl | hx'
    · rcases (h.onList_freed hnone y).mp hy with rfl | hy'
      · exact absurd rfl hne
      · rw [hself, hsize y hy']
        exact fun htouch => hclear y hy' hyb (Touches.symm htouch)
    · rcases (h.onList_freed hnone y).mp hy with rfl | hy'
      · rw [hself, hsize x hx']
        exact hclear x hx' hxb
      · rw [hsize x hx', hsize y hy']
        exact h.ring.separate x (h.ring.onList.mp hx') y (h.ring.onList.mp hy') hxb hyb hne
  · exact ⟨(h.onList_freed hnone x).mpr (.inr hx), hsize x hx⟩

end NoMerge

/-- A heap that comes right was not merged. -/
theorem mergesNothing_of_coalesced (hright : Coalesced base st (st.freed b header) b) :
    MergesNothing st.mem b header := by
  have hdown : addHeaders header (size st.mem header) ≠ b := by
    intro hdown
    -- the header would have grown by the size of the block
    have hkept := (hright.kept header (h.ring.onList.mpr h.mem) (h.not_touches_header hdown)).2
    have hroom := h.live.room
    have hlt : size st.mem header < 2 ^ 32 := Mem.read32_lt _ _
    have hltb : size st.mem b < 2 ^ 32 := Mem.read32_lt _ _
    rw [headerSize] at hroom
    rw [h.size_freed_header, if_pos hdown, size_coalesceUp_self] at hkept
    split at hkept
    · by_cases hself : next st.mem header = header
      · rw [hself, h.ring.eq_base_of_next_self h.mem hself, h.ring.baseSize] at hkept
        omega
      · have htotal := h.size_add_lt hself
        omega
    · omega
  refine ⟨?_, hdown⟩
  by_contra hmerge
  obtain ⟨hup, hne⟩ := not_or.mp hmerge
  have hup := not_not.mp hup
  -- the next node would be gone
  have hkept := hright.kept _ (h.ring.onList.mpr (h.ring.next_mem h.mem))
    (h.not_touches_next hup hne)
  exact h.not_onList_freed hup hne hdown hkept.1

/-- What is freed comes right exactly where it touches no free block and is not merged. -/
theorem coalesced_iff :
    Coalesced base st (st.freed b header) b ↔
      (∀ x, OnList st x → x ≠ base → ¬ Touches st.mem x b) ∧ MergesNothing st.mem b header := by
  constructor
  · intro hright
    have hnone := h.mergesNothing_of_coalesced hright
    refine ⟨fun x hx hxb htouch => ?_, hnone⟩
    -- both are on the list, and touch as before
    have hbb : b ≠ base := (h.live.ne h.ring.throughBase).1.symm
    refine hright.separate x b ((h.onList_freed hnone x).mpr (.inr hx))
      ((h.onList_freed hnone b).mpr (.inl rfl)) hxb hbb (h.live.ne (h.ring.onList.mp hx)).1 ?_
    rw [Touches, h.size_freed_onList hnone hx, h.size_freed_self hnone]
    exact htouch
  · rintro ⟨hclear, hnone⟩
    exact h.coalesced_of_apart hnone hclear

end Place

/-- **When `free` coalesces.** A live block of a heap is freed, whatever node the search starts
from, and the heap comes right exactly when the block touches no free block (`_base` is not one)
and neither of the scaled tests succeeds where the search ends.

Where a test succeeds, the size is scaled by eight, so the node it finds is not the one that
touches; a heap with such a merge has other free bytes than it should. Where none does, the block
is one more node (`onList_freed`), and all is as it should be if it touches nothing. -/
theorem free_coalesces_iff (h : FreeRing base st first rest)
    (hlive : LiveBlock st (first :: rest) b) :
    ∃ st', (∀ fuel, rest.length < fuel → free fuel st (b + headerSize) = some st') ∧
      (Coalesced base st st' b ↔
        (∀ x, OnList st x → x ≠ base → ¬ Touches st.mem x b) ∧
          ∀ header, OnList st header → freeStops st.mem b header →
            MergesNothing st.mem b header) := by
  obtain ⟨header, hplace, huniq⟩ := h.exists_place hlive
  refine ⟨st.freed b header, fun fuel hfuel => hplace.free_eq huniq hfuel, ?_⟩
  rw [hplace.coalesced_iff]
  refine and_congr_right fun _ => ⟨fun hnone x hx hstops => ?_, fun hall => ?_⟩
  · rw [(huniq x (h.onList.mp hx)).mp hstops]
    exact hnone
  · exact hall header (h.onList.mpr hplace.mem) hplace.stops

/-! ## Represented heaps -/

namespace Rep

variable {lo hi : ℕ} {avail live : List Block} {c : Block}

theorem footprint_eq (h : Rep base lo hi st avail live) (hc : c ∈ avail ++ live) :
    footprint st.mem c.addr = c.size := by
  have hbig := h.blocks.big c hc
  rw [footprint, h.sizes c hc, headerSize]
  omega

/-- The free list of a represented heap where no two free blocks touch. -/
theorem freeRing (h : Rep base lo hi st avail live)
    (hseparate : ∀ b ∈ avail, ∀ c ∈ avail, b ≠ c → b.fin ≠ c.addr) :
    FreeRing base st base (avail.map Block.addr) := by
  have hbase : footprint st.mem base = headerSize := by
    rw [footprint, h.baseSize]
    rfl
  refine ⟨h.ring, ?_, ?_, List.mem_cons_self, h.baseSize, h.current, ?_⟩
  · refine List.pairwise_cons.mpr ⟨fun y hy => ?_, h.ascending.imp_of_mem fun {x y} hx hy hlt => ?_⟩
    · obtain ⟨c, hc, rfl⟩ := List.mem_map.mp hy
      have hbelow := h.baseBelow
      have hin := h.blocks.inside c (List.mem_append_left _ hc)
      rw [hbase, headerSize]
      omega
    · obtain ⟨b, hb, rfl⟩ := List.mem_map.mp hx
      obtain ⟨c, hc, rfl⟩ := List.mem_map.mp hy
      have hb := List.mem_append_left live hb
      have hapart := h.apart_block (mem_nodes_of_block base (List.mem_append_left live hc)) hb
        (Nat.ne_of_gt hlt)
      rw [h.footprint_eq hb]
      simp only [Block.fin] at hapart
      omega
  · refine List.forall_mem_cons.mpr ⟨?_, List.forall_mem_map.mpr fun c hc => ?_⟩
    · have hbounds := h.node_bounds List.mem_cons_self
      rw [hbase, headerSize]
      omega
    · have hc := List.mem_append_left live hc
      have hin := h.blocks.inside c hc
      have hmemory := h.inMemory
      rw [h.footprint_eq hc]
      simp only [Block.fin] at hin
      omega
  · intro x hx y hy hxb hyb hne
    obtain ⟨b, hb, rfl⟩ := List.mem_map.mp ((List.mem_cons.mp hx).resolve_left hxb)
    obtain ⟨c, hc, rfl⟩ := List.mem_map.mp ((List.mem_cons.mp hy).resolve_left hyb)
    have hbc : b ≠ c := fun heq => hne (congrArg Block.addr heq)
    rw [Touches, h.sizes b (List.mem_append_left _ hb), h.sizes c (List.mem_append_left _ hc)]
    exact not_or.mpr ⟨hseparate b hb c hc hbc, hseparate c hc b hb hbc.symm⟩

/-- And its live blocks. -/
theorem liveBlock (h : Rep base lo hi st avail live) (hc : c ∈ live) :
    LiveBlock st (base :: avail.map Block.addr) c.addr := by
  have hc' := List.mem_append_right avail hc
  have hbig := h.blocks.big c hc'
  have hin := h.blocks.inside c hc'
  have hmemory := h.inMemory
  have hbelow := h.baseBelow
  simp only [Block.fin] at hin
  refine ⟨?_, ?_, List.forall_mem_cons.mpr ⟨.inl ?_, List.forall_mem_map.mpr fun b hb => ?_⟩⟩
  · rw [h.sizes c hc', headerSize]
    exact hbig
  · rw [h.sizes c hc']
    omega
  · rw [footprint, h.baseSize, headerSize]
    omega
  · have hb' := List.mem_append_left live hb
    have hne : b ≠ c := fun heq =>
      (List.nodup_append.mp (h.blocks.nodup (by decide))).2.2 b hb c hc heq
    have hapart := h.blocks.apart_of_mem hb' hc' hne
    rw [h.footprint_eq hb', h.sizes c hc']
    exact hapart

end Rep

/-! ## Two small heaps -/

/-- `_base` at `0x1000`, a free block of 16 bytes behind it, and a live one at `0x1020`. -/
def apartHeap : Allocator Unit :=
  ⟨Mem.ofWords 0x1000 [0x1008, 0, 0x1000, 16, 0, 0, 0, 0, 0, 16], 0x1000, 0, ()⟩

/-- The live block touches nothing, and is freed as it should. -/
theorem apartHeap_coalesced : ∃ st', free 2 apartHeap 0x1028 = some st' ∧
    Coalesced 0x1000 apartHeap st' 0x1020 := by
  have hring : FreeRing 0x1000 apartHeap 0x1000 [0x1008] :=
    ⟨⟨by decide, show next apartHeap.mem 0x1008 = 0x1000 by decide⟩,
      by decide, by decide, by decide,
      by decide, by decide, by decide⟩
  have hlive : LiveBlock apartHeap [0x1000, 0x1008] 0x1020 :=
    ⟨by decide, by decide, by decide⟩
  obtain ⟨st', hfree, hiff⟩ := free_coalesces_iff hring hlive
  have htouch : ∀ x ∈ [0x1000, 0x1008], x ≠ 0x1000 → ¬ Touches apartHeap.mem x 0x1020 := by decide
  have hmerge : ∀ x ∈ [0x1000, 0x1008],
      addHeaders 0x1020 (size apartHeap.mem 0x1020) ≠ next apartHeap.mem x ∧
        addHeaders x (size apartHeap.mem x) ≠ 0x1020 := by decide
  refine ⟨st', hfree 2 (by decide), hiff.mpr ⟨fun x hx => ?_, fun x hx _ => ?_⟩⟩
  · exact htouch x (hring.onList.mp hx)
  · have hx := hmerge x (hring.onList.mp hx)
    exact ⟨.inl hx.1, hx.2⟩

/-- The same with the live block right behind the free one. -/
def touchingHeap : Allocator Unit :=
  ⟨Mem.ofWords 0x1000 [0x1008, 0, 0x1000, 16, 0, 0, 0, 16], 0x1000, 0, ()⟩

/-- It is freed and not joined with the block that it touches. -/
theorem touchingHeap_not_coalesced :
    FreeRing 0x1000 touchingHeap 0x1000 [0x1008] ∧
      LiveBlock touchingHeap [0x1000, 0x1008] 0x1018 ∧
      ¬ ∃ fuel st', free fuel touchingHeap 0x1020 = some st' ∧
        Coalesced 0x1000 touchingHeap st' 0x1018 := by
  have hring : FreeRing 0x1000 touchingHeap 0x1000 [0x1008] :=
    ⟨⟨by decide, show next touchingHeap.mem 0x1008 = 0x1000 by decide⟩,
      by decide, by decide, by decide,
      by decide, by decide, by decide⟩
  have hlive : LiveBlock touchingHeap [0x1000, 0x1008] 0x1018 :=
    ⟨by decide, by decide, by decide⟩
  refine ⟨hring, hlive, fun ⟨fuel, st', hfree, hright⟩ => ?_⟩
  obtain ⟨header, hplace, huniq⟩ := hring.exists_place hlive
  have hcall := hplace.free_eq huniq (show [0x1008].length < fuel + 2 by simp)
  obtain rfl : touchingHeap.freed 0x1018 header = st' :=
    Option.some.inj (hcall.symm.trans (free_mono hfree (Nat.le_add_right fuel 2)))
  exact (hplace.coalesced_iff.mp hright).1 0x1008 (hring.onList.mpr (by decide)) (by decide)
    (by decide)

end MissyKernel
