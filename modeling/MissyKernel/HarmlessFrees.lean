import MissyKernel.Balloc

/-!
# Freeing any pointer

Both frame allocators take whatever pointer they are given, and its block may lie behind the end
of their bitmap. The early allocator compares the block with the number of blocks first. The
kernel's looks at its bit first, and so reads a word behind the bitmap where the block is far
enough out; what it writes is in bounds all the same.

`HarmlessFree` says what a caller with a wrong pointer can hope for: no word outside the bitmap is
accessed, no bit but the pointer's own changes, and a second free of the pointer leaves the bitmap
and the counters as they are. `harmlessFree_iff` settles it for the kernel's allocator and
`harmlessFree` for the early one, for every state and every pointer.
-/

namespace MissyKernel

/-- A free that does no harm, whatever the block is. `touched` are the bitmap words that were
accessed, newest first, and the `counters` are the numbers of all and of the used blocks. -/
structure HarmlessFree {σ : Type} (touched : σ → List ℕ) (bitmap : σ → ℕ → ℕ)
    (counters : σ → ℕ × ℕ) (free : σ → σ) (block : ℕ) (st : σ) : Prop where
  /-- the words it accesses belong to the bitmap -/
  words : ∃ new, touched (free st) = new ++ touched st ∧
    ∀ i ∈ new, i < ((counters st).1 + 31) / 32
  /-- no bit changes but the one of the block, if there is one -/
  bits : ∀ c < 2 ^ 32, bitAt (bitmap (free st)) c ≠ bitAt (bitmap st) c →
    c = block ∧ block < (counters st).1
  /-- the second free leaves the bitmap as it is -/
  twice : ∀ i < 2 ^ 27, bitmap (free (free st)) i = bitmap (free st) i
  /-- and the counters -/
  twice_counters : counters (free (free st)) = counters (free st)

/-! ## The kernel's allocator -/

namespace Balloc

/-- `_total_blocks` and `_used_blocks` -/
def counters (st : Balloc) : ℕ × ℕ := (st.totalBlocks, st.usedBlocks)

variable {st : Balloc} {p : ℕ}

/-- A block that is marked and has a number below the total is freed, and nothing else is
done to any other. -/
theorem deallocateBlock_eq (st : Balloc) (p : ℕ) :
    ballocDeallocateBlock st p =
      if st.used (p / 4096) ∧ p / 4096 < st.totalBlocks then
        (st.touch (p / 4096 / 32)).deallocate (p / 4096)
      else st.touch (p / 4096 / 32) := by
  rw [ballocDeallocateBlock]
  simp only [blockIsAllocated_eq]
  by_cases hset : st.used (p / 4096) = true
  · by_cases hlt : p / 4096 < st.totalBlocks
    · rw [if_pos hset, if_pos hlt, if_pos ⟨hset, hlt⟩]
    · rw [if_pos hset, if_neg hlt, if_neg fun h => hlt h.2]
  · rw [if_neg hset, if_neg fun h => hset h.1]

/-- The word of the block is accessed in any case, and no other. -/
theorem touched_deallocateBlock (st : Balloc) (p : ℕ) :
    ∃ n, (ballocDeallocateBlock st p).touched =
      List.replicate (n + 1) (p / 4096 / 32) ++ st.touched := by
  rw [deallocateBlock_eq]
  split
  · exact ⟨1, rfl⟩
  · exact ⟨0, rfl⟩

/-- The second time the bit is clear already, or there is none. -/
theorem deallocateBlock_twice (st : Balloc) (p : ℕ) :
    ballocDeallocateBlock (ballocDeallocateBlock st p) p =
      (ballocDeallocateBlock st p).touch (p / 4096 / 32) := by
  have hclear : ¬ ((ballocDeallocateBlock st p).used (p / 4096) ∧
      p / 4096 < (ballocDeallocateBlock st p).totalBlocks) := by
    rintro ⟨hset, hlt⟩
    rw [deallocateBlock_totalBlocks] at hlt
    rw [used_deallocateBlock] at hset
    simp [hlt] at hset
  rw [deallocateBlock_eq (ballocDeallocateBlock st p), if_neg hclear]

/-- `balloc_deallocate_block` does no harm where the block has a word in the bitmap. -/
theorem harmlessFree_iff (st : Balloc) (p : ℕ) :
    HarmlessFree touched mbmp counters (ballocDeallocateBlock · p) (p / 4096) st ↔
      p / 4096 / 32 < (st.totalBlocks + 31) / 32 := by
  obtain ⟨n, htouched⟩ := touched_deallocateBlock st p
  constructor
  · rintro ⟨⟨new, hnew, hwords⟩, -, -, -⟩
    obtain rfl := List.append_cancel_right (htouched.symm.trans hnew)
    exact hwords _ List.mem_cons_self
  · intro hlt
    refine ⟨⟨_, htouched, fun i hi => ?_⟩, fun c _ hne => ?_, fun i _ => ?_, ?_⟩
    · rw [List.eq_of_mem_replicate hi]
      exact hlt
    · have hused := used_deallocateBlock st p c
      by_contra hnot
      refine hne (hused.trans ?_)
      by_cases hc : c = p / 4096
      · have hge : ¬ p / 4096 < st.totalBlocks := fun hlt => hnot ⟨hc, hlt⟩
        simp only [hge, decide_false, Bool.false_and, Bool.not_false, Bool.and_true]
        rfl
      · simp only [hc, decide_false, Bool.and_false, Bool.not_false, Bool.and_true]
        rfl
    · exact (congrArg (Balloc.mbmp · i) (deallocateBlock_twice st p)).trans rfl
    · exact (congrArg counters (deallocateBlock_twice st p)).trans rfl

end Balloc

/-! ## The early allocator -/

namespace Kmemlow

/-- `total_blocks` and `used_blocks` -/
def counters (st : Kmemlow) : ℕ × ℕ := (st.layout.totalBlocks, st.usedBlocks)

variable {st : Kmemlow} {block c i k p v : ℕ}

/-- Two words of the bitmap do not overlap, wherever it lies. -/
theorem word_setWord_of_lt (hi : i < 2 ^ 27) (hk : k < 2 ^ 27) :
    (st.setWord k v).word i = if i = k then v % 2 ^ 32 else st.word i := by
  have haddr : (st.setWord k v).wordAddr i = st.wordAddr i := rfl
  rw [word, haddr, setWord]
  by_cases hik : i = k
  · rw [if_pos hik, hik, Mem.read32_write32_self]
  · rw [if_neg hik, word, Mem.read32_write32_of_disjoint]
    rw [wordAddr, wordAddr]
    omega

/-- So `deallocate` clears its bit in the array of words. -/
theorem word_deallocate_of_lt (hblock : block < 2 ^ 32) (hi : i < 2 ^ 27) :
    (st.deallocate block).word i = clearBit st.word block i := by
  have hlt : st.word (block / 32) &&& (0xffffffff ^^^ 1 <<< (block % 32)) < 2 ^ 32 :=
    lt_of_le_of_lt Nat.and_le_left (Mem.read32_lt _ _)
  have hset : (st.deallocate block).word i = (st.setWord (block / 32)
    (st.word (block / 32) &&& (0xffffffff ^^^ 1 <<< (block % 32)))).word i := rfl
  rw [hset, word_setWord_of_lt hi (by omega), Nat.mod_eq_of_lt hlt, clearBit,
    Function.update_apply]

/-- A bit that is clear is cleared to no effect. -/
theorem word_deallocate_twice (hblock : block < 2 ^ 32) (hi : i < 2 ^ 27) :
    ((st.deallocate block).deallocate block).word i = (st.deallocate block).word i := by
  rw [word_deallocate_of_lt hblock hi, clearBit, Function.update_apply]
  by_cases hword : i = block / 32
  · rw [if_pos hword, hword, word_deallocate_of_lt hblock (by omega), clearBit,
      Function.update_self, Nat.and_assoc, Nat.and_self]
  · rw [if_neg hword]

/-- `kmemlow_free` does no harm. -/
theorem harmlessFree (st : Kmemlow) (hp : p < 2 ^ 32) :
    HarmlessFree touched word counters (kmemlowFree · p) (p / 4096) st := by
  by_cases hlt : p / 4096 < st.layout.totalBlocks
  · have hfree : kmemlowFree st p = st.deallocate (p / 4096) := if_pos hlt
    have htwice : kmemlowFree (kmemlowFree st p) p =
        (st.deallocate (p / 4096)).deallocate (p / 4096) := by
      rw [hfree]
      exact if_pos hlt
    have hblock : p / 4096 < 2 ^ 32 := by omega
    refine ⟨⟨[p / 4096 / 32], ?_, fun i hi => ?_⟩, fun c hc hne => ⟨?_, hlt⟩, fun i hi => ?_, ?_⟩
    · rw [hfree]
      rfl
    · rw [List.mem_singleton.mp hi, counters]
      omega
    · by_contra hnot
      have hword : (st.deallocate (p / 4096)).word (c / 32) =
          clearBit st.word (p / 4096) (c / 32) := word_deallocate_of_lt hblock (by omega)
      rw [hfree, bitAt_congr hword, bitAt_clearBit] at hne
      simp [hnot] at hne
    · rw [htwice, hfree]
      exact word_deallocate_twice hblock hi
    · rw [htwice, hfree]
      rfl
  · have hfree : kmemlowFree st p = st := if_neg hlt
    refine ⟨⟨[], ?_, fun i hi => absurd hi List.not_mem_nil⟩, fun c _ hne => ?_, fun i _ => ?_, ?_⟩
    · rw [hfree, List.nil_append]
    · exact absurd (by rw [hfree]) hne
    · rw [hfree, hfree]
    · rw [hfree, hfree]

end Kmemlow

/-- **Freeing any pointer.** Both frees of a pointer are harmless exactly if its block has a word
in the bitmap of the kernel's allocator.

The early allocator is harmless for every pointer, so the condition is the other one's alone. It is
about the word and not about the block: the blocks behind the last one that still have a bit in the
last word do no harm. -/
theorem frees_harmless_iff (st : Balloc) (early : Kmemlow) (p : BitVec 32) :
    (HarmlessFree Balloc.touched Balloc.mbmp Balloc.counters (ballocDeallocateBlock · p.toNat)
        (p.toNat / 4096) st ∧
      HarmlessFree Kmemlow.touched Kmemlow.word Kmemlow.counters (kmemlowFree · p.toNat)
        (p.toNat / 4096) early) ↔
      p.toNat / 4096 / 32 < (st.totalBlocks + 31) / 32 := by
  rw [Balloc.harmlessFree_iff]
  exact and_iff_left (early.harmlessFree p.isLt)

/-- With 128 megabytes of memory, the last page of the address space. -/
theorem free_reads_behind_bitmap :
    ¬ HarmlessFree Balloc.touched Balloc.mbmp Balloc.counters
        (ballocDeallocateBlock · 0xfffff000) (0xfffff000 / 4096)
        ⟨fun _ => 0xffffffff, 0x8000, 0x8000, 0, []⟩ := by
  rw [Balloc.harmlessFree_iff]
  decide

end MissyKernel
