import MissyKernel.Malloc
import MissyKernel.RangePartition

/-!
# The heap that the allocator's memory stands for

`Rep` says which free and live blocks a memory represents: the blocks are the range
obtained from `sbrk`, the free ones are the circular list through `_base` in address
order, and every header has the size of its block. Each operation on memory is one on
the two lists: `free` moves a block to the free list, `malloc` moves one or a part of
one to the live blocks, `morecore` adds one at the end of the range.

`freeStops_iff` reads the two tests of the search on a represented heap: they succeed at the last
node below the block. The edits of the list are those of `CircularList`, the edits of the blocks
those of `RangePartition`; what is left to show here is that the writes of one header reach no
other (`apart_block`, `apart`).
-/

namespace MissyKernel

variable {σ : Type} {base lo hi n : ℕ} {st st' : Allocator σ} {avail live live' : List Block}
  {s t : List Block} {b : Block}

/-- The memory of `st` holds the free blocks `avail`, in address order, and the live
blocks `live`; together they are the bytes from `lo` to `hi`. -/
structure Rep (base lo hi : ℕ) (st : Allocator σ) (avail live : List Block) : Prop where
  /-- the blocks are the range, and each has room for its header -/
  blocks : Partition 8 lo hi (avail ++ live)
  /-- the free list goes from `_base` through the free blocks back to `_base` -/
  ring : Path (next st.mem) base (avail.map Block.addr) base
  /-- in address order -/
  ascending : (avail.map Block.addr).Pairwise (· < ·)
  /-- `_base` is an empty block -/
  baseSize : size st.mem base = 0
  /-- the headers have the sizes of the blocks -/
  sizes : ∀ b ∈ avail ++ live, size st.mem b.addr = b.size
  /-- `_next_free` is on the list -/
  current : st.nextFree ∈ base :: avail.map Block.addr
  /-- `_base` is not at address 0 -/
  basePos : 0 < base
  /-- `_base` lies below the heap -/
  baseBelow : base + 8 ≤ lo
  /-- the break is an address -/
  inMemory : hi < 2 ^ 32

/-- The last free block of `s`, or `_base`: the node behind which the list goes on. -/
def lastNode (base : ℕ) (s : List Block) : ℕ := (s.map Block.addr).getLastD base

/-- `free` without a merge: the block `mblock` is linked in behind `header`. -/
def Allocator.linked (st : Allocator σ) (mblock header : ℕ) : Allocator σ :=
  { st with
    mem := setNext (setNext st.mem mblock (next st.mem header)) header mblock
    nextFree := header }

/-- `morecore` before it calls `free`: `sbrk` returned `header`, which gets its size. -/
def Allocator.grown (st : Allocator σ) (system : σ) (header request : ℕ) : Allocator σ :=
  { st with system := system, mem := setSize st.mem header request }

namespace Rep

/-! ## Headers of a represented heap -/

/-- The nodes of the heap: `_base` and the headers of all blocks. -/
theorem node_bounds (h : Rep base lo hi st avail live) {x : ℕ}
    (hx : x ∈ base :: (avail ++ live).map Block.addr) : base ≤ x ∧ x + 8 < 2 ^ 32 := by
  have hend := h.inMemory
  have hbelow := h.baseBelow
  have hle : lo ≤ hi := by
    have htotal := h.blocks.total
    omega
  rcases List.mem_cons.mp hx with rfl | hx
  · omega
  · obtain ⟨b, hb, rfl⟩ := List.mem_map.mp hx
    have hin := h.blocks.inside b hb
    have hbig := h.blocks.big b hb
    simp only [Block.fin] at hin
    omega

/-- A header does not overlap another block. -/
theorem apart_block (h : Rep base lo hi st avail live) {x : ℕ}
    (hx : x ∈ base :: (avail ++ live).map Block.addr) (hb : b ∈ avail ++ live)
    (hne : x ≠ b.addr) : x + 8 ≤ b.addr ∨ b.fin ≤ x := by
  rcases List.mem_cons.mp hx with rfl | hx
  · have hin := h.blocks.inside b hb
    have hbelow := h.baseBelow
    omega
  · obtain ⟨c, hc, rfl⟩ := List.mem_map.mp hx
    have hapart := h.blocks.apart_of_mem hc hb fun heq => hne (heq ▸ rfl)
    have hbig := h.blocks.big c hc
    simp only [Block.Apart, Block.fin] at hapart ⊢
    omega

/-- Two headers do not overlap. -/
theorem apart (h : Rep base lo hi st avail live) {x y : ℕ}
    (hx : x ∈ base :: (avail ++ live).map Block.addr)
    (hy : y ∈ base :: (avail ++ live).map Block.addr) (hne : x ≠ y) :
    x + 8 ≤ y ∨ y + 8 ≤ x := by
  rcases List.mem_cons.mp hy with rfl | hy
  · obtain ⟨b, hb, rfl⟩ := List.mem_map.mp ((List.mem_cons.mp hx).resolve_left hne)
    have hapart := h.apart_block List.mem_cons_self hb (Ne.symm hne)
    have hbig := h.blocks.big b hb
    simp only [Block.fin] at hapart
    omega
  · obtain ⟨b, hb, rfl⟩ := List.mem_map.mp hy
    have hapart := h.apart_block hx hb hne
    have hbig := h.blocks.big b hb
    simp only [Block.fin] at hapart
    omega

theorem apart_or_eq (h : Rep base lo hi st avail live) {x y : ℕ}
    (hx : x ∈ base :: (avail ++ live).map Block.addr)
    (hy : y ∈ base :: (avail ++ live).map Block.addr) : x = y ∨ x + 8 ≤ y ∨ y + 8 ≤ x := by
  by_cases heq : x = y
  · exact .inl heq
  · exact .inr (h.apart hx hy heq)

theorem mem_nodes_of_list (live : List Block) {x : ℕ}
    (hx : x ∈ base :: avail.map Block.addr) :
    x ∈ base :: (avail ++ live).map Block.addr := by
  rw [List.map_append]
  exact List.mem_cons.mpr ((List.mem_cons.mp hx).imp_right (List.mem_append_left _))

theorem mem_nodes_of_block (base : ℕ) (hb : b ∈ avail ++ live) :
    b.addr ∈ base :: (avail ++ live).map Block.addr :=
  List.mem_cons_of_mem base (List.mem_map_of_mem hb)

/-- `_base` is the lowest node. -/
theorem ascending_base (h : Rep base lo hi st avail live) :
    (base :: avail.map Block.addr).Pairwise (· < ·) := by
  refine List.pairwise_cons.mpr ⟨fun x hx => ?_, h.ascending⟩
  obtain ⟨b, hb, rfl⟩ := List.mem_map.mp hx
  have hin := h.blocks.inside b (List.mem_append_left live hb)
  have hbelow := h.baseBelow
  omega

theorem nodup (h : Rep base lo hi st avail live) : (base :: avail.map Block.addr).Nodup :=
  h.ascending_base.imp ne_of_lt

theorem lastNode_mem (base : ℕ) (s t : List Block) :
    lastNode base s ∈ base :: (s ++ t).map Block.addr := by
  rw [List.map_append]
  exact getLastD_mem _ _ _

theorem lastNode_lt {m : ℕ} (hbase : base < m) (hs : ∀ w ∈ s, w.addr < m) :
    lastNode base s < m := by
  have hmem := lastNode_mem base s []
  rw [List.append_nil] at hmem
  exact (List.forall_mem_cons (p := (· < m))).mpr ⟨hbase, List.forall_mem_map.mpr hs⟩ _ hmem

theorem nextFree_ne_zero (h : Rep base lo hi st avail live) : st.nextFree ≠ 0 := by
  have hpos := h.basePos
  have hbounds := h.node_bounds (mem_nodes_of_list live h.current)
  omega

/-- The representation is in the headers. -/
theorem congr (h : Rep base lo hi st avail live) (hcurrent : st'.nextFree = st.nextFree)
    (hnext : ∀ x ∈ base :: avail.map Block.addr, next st'.mem x = next st.mem x)
    (hsize : ∀ x ∈ base :: (avail ++ live).map Block.addr, size st'.mem x = size st.mem x) :
    Rep base lo hi st' avail live where
  blocks := h.blocks
  ring := h.ring.congr hnext
  ascending := h.ascending
  baseSize := (hsize base List.mem_cons_self).trans h.baseSize
  sizes b hb := (hsize b.addr (mem_nodes_of_block base hb)).trans (h.sizes b hb)
  current := hcurrent ▸ h.current
  basePos := h.basePos
  baseBelow := h.baseBelow
  inMemory := h.inMemory

theorem permLive (h : Rep base lo hi st avail live) (hperm : live.Perm live') :
    Rep base lo hi st avail live' where
  blocks := h.blocks.perm (hperm.append_left avail)
  ring := h.ring
  ascending := h.ascending
  baseSize := h.baseSize
  sizes b hb := h.sizes b ((hperm.append_left avail).mem_iff.mpr hb)
  current := h.current
  basePos := h.basePos
  baseBelow := h.baseBelow
  inMemory := h.inMemory

/-! ## Putting a live block on the free list -/

theorem release (h : Rep base lo hi st (s ++ t) (b :: live)) (hs : ∀ w ∈ s, w.addr < b.addr)
    (ht : ∀ w ∈ t, b.addr < w.addr) :
    Rep base lo hi (st.linked b.addr (lastNode base s)) (s ++ b :: t) live := by
  have hperm : ((s ++ t) ++ b :: live).Perm ((s ++ b :: t) ++ live) := by
    rw [List.append_assoc, List.append_assoc, List.cons_append]
    exact List.Perm.append_left s List.perm_middle
  have hb : b.addr ∈ base :: ((s ++ t) ++ b :: live).map Block.addr :=
    mem_nodes_of_block base (List.mem_append_right _ List.mem_cons_self)
  have hz := lastNode_mem base s t
  have hz' := mem_nodes_of_list (b :: live) hz
  -- `b` is a node of the heap, and not one of the free list
  have hbin := h.blocks.inside b (List.mem_append_right _ List.mem_cons_self)
  have hbelow := h.baseBelow
  have hnotin : ∀ x ∈ base :: (s ++ t).map Block.addr, x ≠ b.addr := by
    refine List.forall_mem_cons.mpr ⟨by omega, List.forall_mem_map.mpr fun w hw => ?_⟩
    rcases List.mem_append.mp hw with hw | hw
    · exact ne_of_lt (hs w hw)
    · exact ne_of_gt (ht w hw)
  have hzb := h.apart hz' hb (hnotin _ hz)
  have hsize : ∀ x ∈ base :: ((s ++ t) ++ b :: live).map Block.addr,
      size (st.linked b.addr (lastNode base s)).mem x = size st.mem x := fun x hx =>
    (size_setNext (h.apart_or_eq hz' hx)).trans (size_setNext (h.apart_or_eq hb hx))
  refine ⟨h.blocks.perm hperm, ?_, ?_, ?_, fun c hc => ?_, ?_, h.basePos, h.baseBelow,
    h.inMemory⟩
  · have hring := h.ring
    have hnodup := h.nodup
    rw [List.map_append] at hring hnodup ⊢
    refine hring.insertAfter hnodup ?_ ?_ fun x hx hne => ?_
    · exact next_setNext_self _ (by have hbounds := h.node_bounds hb; omega)
    · exact (next_setNext_of_apart hzb).trans (next_setNext_self _ (next_lt _ _))
    · rw [← List.map_append] at hx
      have hx' := mem_nodes_of_list (b :: live) hx
      exact (next_setNext_of_apart (h.apart hz' hx' (Ne.symm hne))).trans
        (next_setNext_of_apart (h.apart hb hx' (hnotin x hx).symm))
  · have hasc := h.ascending
    simp only [List.map_append, List.map_cons, List.pairwise_append, List.pairwise_cons,
      List.forall_mem_cons, List.forall_mem_map] at hasc ⊢
    exact ⟨hasc.1, ⟨ht, hasc.2.1⟩, fun w hw => ⟨hs w hw, hasc.2.2 w hw⟩⟩
  · exact (hsize base List.mem_cons_self).trans h.baseSize
  · have hc := hperm.mem_iff.mpr hc
    exact (hsize c.addr (mem_nodes_of_block base hc)).trans (h.sizes c hc)
  · exact lastNode_mem base s (b :: t)

/-- The search of `free` ends at the last node below the block. -/
theorem freeStops_iff {m y : ℕ} (h : Rep base lo hi st (s ++ t) live) (hbase : base < m)
    (hs : ∀ w ∈ s, w.addr < m) (ht : ∀ w ∈ t, m < w.addr)
    (hy : y ∈ base :: (s ++ t).map Block.addr) :
    freeStops st.mem m y ↔ y = lastNode base s := by
  have hring := h.ring
  have hasc := h.ascending_base
  rw [List.map_append] at hring hasc hy
  exact hring.splicePoint_iff hasc (Nat.le_refl base) hbase (List.forall_mem_map.mpr hs)
    (List.forall_mem_map.mpr ht) hy

/-- **`free` of a live block.** The search ends at the last node below the block, from
whatever node it starts; when neither merge test succeeds the block is linked in. -/
theorem free_eq (h : Rep base lo hi st (s ++ t) live) (hb : b ∈ live)
    (hs : ∀ w ∈ s, w.addr < b.addr) (ht : ∀ w ∈ t, b.addr < w.addr)
    (hup : addHeaders b.addr b.size ≠ next st.mem (lastNode base s))
    (hdown : addHeaders (lastNode base s) (size st.mem (lastNode base s)) ≠ b.addr)
    {fuel : ℕ} (hfuel : (s ++ t).length < fuel) :
    free fuel st (b.addr + 8) = some (st.linked b.addr (lastNode base s)) := by
  have hb' := List.mem_append_right (s ++ t) hb
  have hnode := mem_nodes_of_block base hb'
  have hbounds := h.node_bounds hnode
  have hbin := h.blocks.inside b hb'
  have hbelow := h.baseBelow
  have haddr : (b.addr + 8 + 2 ^ 32 - headerSize) % 2 ^ 32 = b.addr := by
    simp only [headerSize]
    omega
  have hz := lastNode_mem base s t
  -- the search
  obtain ⟨r, hrotated, hperm⟩ := h.ring.rotate h.current
  have hlength : r.length < fuel := by
    have heq := hperm.length_eq
    rw [List.length_cons, List.length_cons, List.length_map] at heq
    omega
  have hwalk : walk (next st.mem) (freeStops st.mem b.addr) fuel st.nextFree =
      some (lastNode base s) := by
    exact hrotated.walk_eq (hperm.mem_iff.mpr hz)
      (fun y hy => h.freeStops_iff (by omega) hs ht (hperm.mem_iff.mp hy)) hlength
  have hlt := lastNode_lt (show base < b.addr by omega) hs
  have hkeep : ∀ v, size (setNext st.mem b.addr v) (lastNode base s) =
      size st.mem (lastNode base s) := fun v =>
    size_setNext (h.apart_or_eq hnode (mem_nodes_of_list _ hz))
  -- neither test merges
  rw [free]
  simp only [haddr, hwalk, Option.map_some, coalesceUp, h.sizes b hb', if_neg hup, coalesceDown,
    hkeep, if_neg hdown]
  rfl

/-! ## Taking a free block -/

theorem perm_take (s t live : List Block) (b : Block) :
    ((s ++ b :: t) ++ live).Perm (b :: ((s ++ t) ++ live)) := by
  rw [List.append_assoc, List.append_assoc, List.cons_append]
  exact List.perm_middle

/-- An exact fit leaves the free list. -/
theorem take (h : Rep base lo hi st (s ++ b :: t) live) :
    Rep base lo hi { st with
      mem := setNext st.mem (lastNode base s) (next st.mem b.addr)
      nextFree := lastNode base s } (s ++ t) (b :: live) := by
  have hperm : ((s ++ b :: t) ++ live).Perm ((s ++ t) ++ b :: live) :=
    (perm_take s t live b).trans List.perm_middle.symm
  have hz := mem_nodes_of_list live (lastNode_mem base s (b :: t))
  have hsize : ∀ x ∈ base :: ((s ++ b :: t) ++ live).map Block.addr,
      size (setNext st.mem (lastNode base s) (next st.mem b.addr)) x = size st.mem x :=
    fun x hx => size_setNext (h.apart_or_eq hz hx)
  refine ⟨h.blocks.perm hperm, ?_, ?_, ?_, fun c hc => ?_, ?_, h.basePos, h.baseBelow,
    h.inMemory⟩
  · have hring := h.ring
    have hnodup := h.nodup
    rw [List.map_append, List.map_cons] at hring hnodup
    rw [List.map_append]
    refine hring.removeAfter hnodup (next_setNext_self _ (next_lt _ _)) fun x hx hne => ?_
    refine next_setNext_of_apart (h.apart hz (mem_nodes_of_list _ ?_) (Ne.symm hne))
    rw [List.map_append, List.map_cons]
    exact List.mem_cons.mpr ((List.mem_cons.mp hx).imp_right fun hx =>
      List.mem_append.mpr ((List.mem_append.mp hx).imp_right (List.mem_cons_of_mem _)))
  · have hsub : ((s ++ t).map Block.addr).Sublist ((s ++ b :: t).map Block.addr) :=
      ((List.Sublist.refl s).append (List.sublist_cons_self b t)).map Block.addr
    exact h.ascending.sublist hsub
  · exact (hsize base List.mem_cons_self).trans h.baseSize
  · have hc := hperm.mem_iff.mpr hc
    exact (hsize c.addr (mem_nodes_of_block base hc)).trans (h.sizes c hc)
  · exact lastNode_mem base s t

/-- The end of a larger block becomes a block of its own, the rest stays on the list. -/
theorem takeEnd {a k : ℕ} (h : Rep base lo hi st (s ++ ⟨a, k + n⟩ :: t) live) (hk : 8 ≤ k)
    (hn : 8 ≤ n) {z : ℕ} (hz : z ∈ base :: (s ++ ⟨a, k + n⟩ :: t).map Block.addr) :
    Rep base lo hi { st with
      mem := setSize (setSize st.mem a k) (a + k) n
      nextFree := z } (s ++ ⟨a, k⟩ :: t) (⟨a + k, n⟩ :: live) := by
  have hold := perm_take s t live ⟨a, k + n⟩
  have hnew : (⟨a, k⟩ :: ⟨a + k, n⟩ :: ((s ++ t) ++ live)).Perm
      ((s ++ ⟨a, k⟩ :: t) ++ ⟨a + k, n⟩ :: live) :=
    (List.perm_middle.symm.cons _).trans (perm_take s t _ ⟨a, k⟩).symm
  have hmap : (s ++ (⟨a, k⟩ : Block) :: t).map Block.addr =
      (s ++ ⟨a, k + n⟩ :: t).map Block.addr := by
    simp only [List.map_append, List.map_cons]
  have hb : (⟨a, k + n⟩ : Block) ∈ (s ++ ⟨a, k + n⟩ :: t) ++ live :=
    hold.mem_iff.mpr List.mem_cons_self
  have hin := h.blocks.inside _ hb
  have hmemory := h.inMemory
  simp only [Block.fin] at hin
  have hnode : a ∈ base :: ((s ++ ⟨a, k + n⟩ :: t) ++ live).map Block.addr :=
    mem_nodes_of_block base hb
  -- the new header lies in the old block, so apart from every other one
  have htaken : ∀ x ∈ base :: ((s ++ ⟨a, k + n⟩ :: t) ++ live).map Block.addr,
      a + k + 8 ≤ x ∨ x + 8 ≤ a + k := fun x hx => by
    by_cases hxa : x = a
    · omega
    · have hapart := h.apart_block hx hb hxa
      simp only [Block.fin] at hapart
      omega
  have hsize : ∀ x ∈ base :: ((s ++ ⟨a, k + n⟩ :: t) ++ live).map Block.addr, x ≠ a →
      size (setSize (setSize st.mem a k) (a + k) n) x = size st.mem x := fun x hx hne =>
    (size_setSize_of_apart (htaken x hx)).trans (size_setSize_of_apart (h.apart hnode hx hne.symm))
  refine ⟨((h.blocks.perm hold).split hk hn).perm hnew, ?_, ?_, ?_, fun c hc => ?_, ?_, h.basePos,
    h.baseBelow, h.inMemory⟩
  · rw [hmap]
    refine h.ring.congr fun x hx => ?_
    have hx := mem_nodes_of_list live hx
    exact (next_setSize (.inr (htaken x hx))).trans (next_setSize (h.apart_or_eq hnode hx))
  · exact hmap ▸ h.ascending
  · have hbelow := h.baseBelow
    exact (hsize base List.mem_cons_self (by omega)).trans h.baseSize
  · have hc := hnew.mem_iff.mpr hc
    rcases List.mem_cons.mp hc with rfl | hc
    · exact (size_setSize_of_apart (htaken a hnode)).trans (size_setSize_self _ (by omega))
    rcases List.mem_cons.mp hc with rfl | hc
    · exact size_setSize_self _ (by omega)
    · have hc' := hold.mem_iff.mpr (List.mem_cons_of_mem _ hc)
      have hne : c.addr ≠ a := by
        have hnodup := ((h.blocks.perm hold).nodup (by decide))
        intro heq
        have heq := h.blocks.eq_of_addr (by decide) hc' hb heq
        exact (List.nodup_cons.mp hnodup).1 (heq ▸ hc)
      exact (hsize c.addr (mem_nodes_of_block base hc') hne).trans (h.sizes c hc')
  · exact hmap ▸ hz

/-- **`malloc` takes a block.** An exact fit leaves the list; a larger block keeps its
place and gives up its end, when what it keeps has room for a header. -/
theorem takeBlock (h : Rep base lo hi st (s ++ b :: t) live) (hn : 8 ≤ n)
    (hfit : b.size = n ∨ n + 8 ≤ b.size) :
    ∃ c avail', (takeBlock st n (lastNode base s) b.addr).1 = c.addr + 8 ∧ c.size = n ∧
      Rep base lo hi (takeBlock st n (lastNode base s) b.addr).2 avail' (c :: live) ∧
      ∀ m, m ∣ n → BlocksAligned m (s ++ b :: t) → BlocksAligned m (c :: avail') := by
  have hb : b ∈ (s ++ b :: t) ++ live := (perm_take s t live b).mem_iff.mpr List.mem_cons_self
  have hin := h.blocks.inside b hb
  have hmemory := h.inMemory
  have hbounds := h.node_bounds (mem_nodes_of_block base hb)
  have hsize := h.sizes b hb
  simp only [Block.fin] at hin
  unfold MissyKernel.takeBlock
  by_cases heq : b.size = n
  · rw [if_pos (hsize.trans heq), headerSize]
    exact ⟨b, s ++ t, Nat.mod_eq_of_lt hbounds.2, heq, h.take, fun m _ haligned =>
      haligned.perm List.perm_middle⟩
  · obtain ⟨a, m⟩ := b
    simp only at hfit heq hsize hin
    obtain ⟨k, rfl⟩ : ∃ k, m = k + n := ⟨m - n, (Nat.sub_add_cancel (by omega)).symm⟩
    have hk : k < 2 ^ 32 := by omega
    have hak : (a + k) % 2 ^ 32 = a + k := Nat.mod_eq_of_lt (by omega)
    have hkn : k + n - n = k := Nat.add_sub_cancel k n
    rw [if_neg fun hexact => heq (hsize.symm.trans hexact)]
    simp only [hsize, hkn, size_setSize_self st.mem hk, hak, headerSize]
    refine ⟨⟨a + k, n⟩, s ++ ⟨a, k⟩ :: t, Nat.mod_eq_of_lt (by omega), rfl,
      h.takeEnd (by omega) hn (lastNode_mem base s (⟨a, k + n⟩ :: t)), fun m hm haligned => ?_⟩
    obtain ⟨⟨ha, hkn⟩, hrest⟩ := blocksAligned_cons.mp (haligned.perm List.perm_middle)
    have hk := (Nat.dvd_add_iff_left hm).mpr hkn
    have hleft : BlocksAligned m (⟨a, k⟩ :: (s ++ t)) := blocksAligned_cons.mpr ⟨⟨ha, hk⟩, hrest⟩
    exact blocksAligned_cons.mpr ⟨⟨Nat.dvd_add ha hk, hm⟩, hleft.perm List.perm_middle.symm⟩

/-! ## Growing the heap -/

/-- An allocator that was never used gets an empty list. -/
theorem startList (hnext : st.nextFree = 0) (hpos : 0 < base) (hbelow : base + 8 ≤ lo)
    (hlo : lo < 2 ^ 32) : Rep base lo lo (startList base st) [] [] := by
  rw [MissyKernel.startList, if_pos hnext]
  refine ⟨Partition.nil, ?_, List.Pairwise.nil, ?_, by simp, List.mem_cons_self, hpos, hbelow, hlo⟩
  · exact (next_setSize (.inl rfl)).trans (next_setNext_self _ (by omega))
  · exact size_setSize_self _ (by decide)

theorem startList_eq (h : Rep base lo hi st avail live) :
    MissyKernel.startList base st = st :=
  if_neg h.nextFree_ne_zero

/-- `malloc` sets its list up first, so it makes no difference when that is done already. -/
theorem malloc_startList (h : Rep base lo hi (MissyKernel.startList base st) avail live)
    (sbrk : σ → ℕ → ℕ × σ) (fuel n : ℕ) :
    malloc sbrk base fuel (MissyKernel.startList base st) n = malloc sbrk base fuel st n := by
  simp only [malloc, h.startList_eq]

/-- `morecore` writes the size of the memory it got: a live block at the end. -/
theorem grow (h : Rep base lo hi st avail live) (hn : 8 ≤ n) (hend : hi + n < 2 ^ 32)
    (system : σ) : Rep base lo (hi + n) (st.grown system hi n) avail (⟨hi, n⟩ :: live) := by
  have hperm : (⟨hi, n⟩ :: (avail ++ live)).Perm (avail ++ ⟨hi, n⟩ :: live) :=
    List.perm_middle.symm
  have hapart : ∀ x ∈ base :: (avail ++ live).map Block.addr, hi + 8 ≤ x ∨ x + 8 ≤ hi := by
    refine List.forall_mem_cons.mpr ⟨.inr ?_, List.forall_mem_map.mpr fun c hc => .inr ?_⟩
    · have hbelow := h.baseBelow
      have htotal := h.blocks.total
      omega
    · have hin := h.blocks.inside c hc
      have hbig := h.blocks.big c hc
      simp only [Block.fin] at hin
      omega
  refine ⟨(h.blocks.extend hn).perm hperm, ?_, h.ascending, ?_, fun c hc => ?_, h.current,
    h.basePos, h.baseBelow, hend⟩
  · exact h.ring.congr fun x hx => next_setSize (.inr (hapart x (mem_nodes_of_list _ hx)))
  · exact (size_setSize_of_apart (hapart base List.mem_cons_self)).trans h.baseSize
  · rcases List.mem_cons.mp (hperm.mem_iff.mpr hc) with rfl | hc
    · exact size_setSize_self _ (by omega)
    · exact (size_setSize_of_apart (hapart c.addr (mem_nodes_of_block base hc))).trans
        (h.sizes c hc)

end Rep

end MissyKernel
