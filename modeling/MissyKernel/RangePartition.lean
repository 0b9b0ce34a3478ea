import Mathlib.Algebra.BigOperators.Group.List.Basic
import Mathlib.Data.List.Pairwise
import Mathlib.Tactic

/-!
# A range of addresses cut into blocks

What an allocator does to its memory, without its bookkeeping: the range `[lo, hi)` is
cut into blocks that do not overlap and together have all its bytes. Splitting a block
and growing the range at its end keep it cut; which blocks are free and which are in
use only permutes them.

The module knows nothing of headers, lists or memory. `Partition` has a least size for a block,
and asks that the blocks lie inside the range, do not overlap, and have sizes that add up to it.
That the sum is part of it is what makes bytes countable later: no operation can lose one.
-/

namespace MissyKernel

/-- A block of bytes. -/
structure Block where
  /-- the first byte -/
  addr : ℕ
  /-- the number of bytes -/
  size : ℕ
  deriving DecidableEq

/-- The first address past a block. -/
def Block.fin (b : Block) : ℕ := b.addr + b.size

/-- Two blocks do not overlap. -/
def Block.Apart (b c : Block) : Prop := b.fin ≤ c.addr ∨ c.fin ≤ b.addr

theorem Block.Apart.symm {b c : Block} (h : b.Apart c) : c.Apart b := Or.symm h

instance : Std.Symm Block.Apart := ⟨fun _ _ => Block.Apart.symm⟩

/-- The blocks of `l`, none smaller than `w`, are the range from `lo` to `hi`. -/
structure Partition (w lo hi : ℕ) (l : List Block) : Prop where
  /-- no block is smaller than `w` -/
  big : ∀ b ∈ l, w ≤ b.size
  /-- every block lies in the range -/
  inside : ∀ b ∈ l, lo ≤ b.addr ∧ b.fin ≤ hi
  /-- no two blocks overlap -/
  apart : l.Pairwise Block.Apart
  /-- no byte is lost, none is counted twice -/
  total : lo + (l.map Block.size).sum = hi

/-- The blocks of `l` start at multiples of `m` and have multiples of `m` bytes. -/
def BlocksAligned (m : ℕ) (l : List Block) : Prop := ∀ b ∈ l, m ∣ b.addr ∧ m ∣ b.size

theorem blocksAligned_append {m : ℕ} {l l' : List Block} :
    BlocksAligned m (l ++ l') ↔ BlocksAligned m l ∧ BlocksAligned m l' :=
  List.forall_mem_append

theorem blocksAligned_cons {m : ℕ} {b : Block} {l : List Block} :
    BlocksAligned m (b :: l) ↔ (m ∣ b.addr ∧ m ∣ b.size) ∧ BlocksAligned m l :=
  List.forall_mem_cons

theorem BlocksAligned.perm {m : ℕ} {l l' : List Block} (h : BlocksAligned m l) (hl : l.Perm l') :
    BlocksAligned m l' := fun b hb => h b (hl.mem_iff.mpr hb)

namespace Partition

variable {w lo hi n m k : ℕ} {l l' : List Block} {b c : Block}

theorem nil : Partition w lo lo [] :=
  ⟨by simp, by simp, List.Pairwise.nil, by simp⟩

theorem perm (h : Partition w lo hi l) (hl : l.Perm l') : Partition w lo hi l' where
  big b hb := h.big b (hl.mem_iff.mpr hb)
  inside b hb := h.inside b (hl.mem_iff.mpr hb)
  apart := hl.pairwise h.apart Block.Apart.symm
  total := (hl.map Block.size).sum_eq ▸ h.total

theorem apart_of_mem (h : Partition w lo hi l) (hb : b ∈ l) (hc : c ∈ l) (hne : b ≠ c) :
    b.Apart c :=
  h.apart.forall hb hc hne

/-- The range grows at its end by one block. -/
theorem extend (h : Partition w lo hi l) (hn : w ≤ n) : Partition w lo (hi + n) (⟨hi, n⟩ :: l) where
  big := List.forall_mem_cons.mpr ⟨hn, h.big⟩
  inside := by
    refine List.forall_mem_cons.mpr ⟨⟨?_, Nat.le_refl _⟩, fun b hb => ?_⟩
    · have htotal := h.total
      change lo ≤ hi
      omega
    · exact ⟨(h.inside b hb).1, Nat.le_add_right_of_le (h.inside b hb).2⟩
  apart := List.pairwise_cons.mpr ⟨fun b hb => .inr (h.inside b hb).2, h.apart⟩
  total := by
    have htotal := h.total
    rw [List.map_cons, List.sum_cons]
    change lo + (n + _) = hi + n
    omega

/-- A block can be cut in two. -/
theorem split (h : Partition w lo hi (⟨k, n + m⟩ :: l)) (hn : w ≤ n) (hm : w ≤ m) :
    Partition w lo hi (⟨k, n⟩ :: ⟨k + n, m⟩ :: l) := by
  obtain ⟨hapart, hrest⟩ := List.pairwise_cons.mp h.apart
  have hin := h.inside _ List.mem_cons_self
  simp only [Block.Apart, Block.fin] at hapart hin
  refine ⟨?_, ?_, ?_, ?_⟩
  · refine List.forall_mem_cons.mpr ⟨hn, List.forall_mem_cons.mpr ⟨hm, fun b hb => ?_⟩⟩
    exact h.big b (List.mem_cons_of_mem _ hb)
  · refine List.forall_mem_cons.mpr ⟨?_, List.forall_mem_cons.mpr ⟨?_, fun b hb => ?_⟩⟩
    · simp only [Block.fin]
      omega
    · simp only [Block.fin]
      omega
    · exact h.inside b (List.mem_cons_of_mem _ hb)
  · refine List.pairwise_cons.mpr ⟨?_, List.pairwise_cons.mpr ⟨fun b hb => ?_, hrest⟩⟩
    · refine List.forall_mem_cons.mpr ⟨.inl (Nat.le_refl _), fun b hb => ?_⟩
      have hb := hapart b hb
      simp only [Block.Apart, Block.fin]
      omega
    · have hb := hapart b hb
      simp only [Block.Apart, Block.fin]
      omega
  · have htotal := h.total
    simp only [List.map_cons, List.sum_cons] at htotal ⊢
    omega

/-- Two blocks that start at the same address are one. -/
theorem eq_of_addr (h : Partition w lo hi l) (hw : 0 < w) (hb : b ∈ l) (hc : c ∈ l)
    (haddr : b.addr = c.addr) : b = c := by
  by_contra hne
  have hbig := h.big b hb
  have hbig' := h.big c hc
  have hapart := h.apart_of_mem hb hc hne
  simp only [Block.Apart, Block.fin] at hapart
  omega

/-- Every block is in the list once. -/
theorem nodup (h : Partition w lo hi l) (hw : 0 < w) : l.Nodup := by
  refine h.apart.imp_of_mem fun {b c} hb _ hapart heq => ?_
  have hbig := h.big b hb
  rw [← heq] at hapart
  simp only [Block.Apart, Block.fin] at hapart
  omega

end Partition

end MissyKernel
