import MissyKernel.FrameOwnership

/-!
# The used-block counter handed to the kernel

`kernel_early_init` passes `kmemlow_get_used_blocks()` on, and `balloc` counts its
free blocks from it. The initialisation changes the counter once per block of
every pass, whether or not the bit changed, and `kmemlow_alloc` and `kmemlow_free`
change bits without touching the counter. So the counter is right exactly when
the passes happen to balance (`CounterBalanced`) and no later call changes a bit
(`Neutral`).

The condition is exact for every run. `counterAccurate_init_iff` is the part about the passes,
and `counterAccurate_step_iff` the one about a call: from an accurate counter a call keeps it
accurate only if it changes nothing. The rule of `Runs` for exact conditions puts them together,
and `pc_counter_wrong` is the first allocation on a 64 MiB machine.
-/

namespace MissyKernel

/-- A call into the early allocator. -/
inductive KmemlowOp : Type where
  /-- `kmemlow_alloc()` -/
  | alloc
  /-- `kmemlow_free(p)` -/
  | free (p : ℕ)

/-- The effect of a call. -/
def KmemlowOp.step (st : Kmemlow) : KmemlowOp → Kmemlow
  | .alloc => (kmemlowAlloc st).2
  | .free p => kmemlowFree st p

/-- The counter is the number of marked blocks, and what the kernel computes from
it after the hand-over is the number of clear ones. -/
def CounterAccurate (st : Kmemlow) : Prop :=
  kmemlowGetUsedBlocks st = bitCount st.word st.layout.totalBlocks ∧
    ∀ b : Balloc, ballocGetFreeBlocks (handOver st b) =
      clearCount (handOver st b).mbmp (handOver st b).totalBlocks

/-- The counter stays accurate over a whole boot. -/
def CounterStaysAccurate (image : KernelImage) (api : MultibootApi) (st : Kmemlow)
    (ops : List KmemlowOp) : Prop :=
  ∀ pre, pre <+: ops →
    CounterAccurate (pre.foldl KmemlowOp.step (kmemlowInitAllocator image api st))

/-- The managed blocks that the initialisation leaves clear. -/
def freedBlocks (image : KernelImage) (api : MultibootApi) : Finset ℕ :=
  (Finset.range (kmemlowLayout image api).totalBlocks).filter fun b =>
    kernelBlocks image api ≤ b ∧ b ∈ availablePages api.mmap

/-- The passes of the initialisation balance: the map names as many pages in all,
each as often as it is named, as there are blocks below the kernel end and clear
blocks above it. A plain PC map balances, because the hole below one megabyte is
missing from `total_blocks` too; an overlap or a region above the end of memory
upsets it. -/
def CounterBalanced (image : KernelImage) (api : MultibootApi) : Prop :=
  (availablePages api.mmap).length ≡
    kernelBlocks image api + (freedBlocks image api).card [MOD 2 ^ 32]

/-- A call that changes no bit: an allocation that fails, a release of a frame
outside the map or of one that is free already. -/
def Neutral (st : Kmemlow) : KmemlowOp → Prop
  | .alloc => ∀ b, ¬ st.IsNextFree b
  | .free p => st.layout.totalBlocks ≤ p / 4096 ∨ st.used (p / 4096) = false

variable {image : KernelImage} {api : MultibootApi} {st : Kmemlow}

theorem counterAccurate_iff (ht : st.layout.totalBlocks < 2 ^ 20) :
    CounterAccurate st ↔ st.usedBlocks = bitCount st.word st.layout.totalBlocks := by
  have hsum := bitCount_add_clearCount st.word st.layout.totalBlocks
  constructor
  · exact And.left
  · intro h
    refine ⟨h, fun b => ?_⟩
    have hfree : ballocGetFreeBlocks (handOver st b) =
        (st.layout.totalBlocks + 2 ^ 32 - st.usedBlocks) % 2 ^ 32 := rfl
    have hclear : clearCount (handOver st b).mbmp (handOver st b).totalBlocks =
        clearCount st.word st.layout.totalBlocks := rfl
    rw [hfree, hclear, h]
    omega

/-! ## After the initialisation -/

theorem bitCount_kmemlowInitAllocator (image : KernelImage) (api : MultibootApi) (st : Kmemlow) :
    bitCount (kmemlowInitAllocator image api st).word (kmemlowLayout image api).totalBlocks +
      (freedBlocks image api).card = (kmemlowLayout image api).totalBlocks := by
  have hsum := bitCount_add_clearCount (kmemlowInitAllocator image api st).word
    (kmemlowLayout image api).totalBlocks
  have hclear : (Finset.range (kmemlowLayout image api).totalBlocks).filter
      (fun b => bitAt (kmemlowInitAllocator image api st).word b = false) =
        freedBlocks image api := by
    refine Finset.filter_congr fun b hb => ?_
    exact used_kmemlowInitAllocator (lt_bitmapBits (Finset.mem_range.mp hb))
  rw [clearCount, hclear] at hsum
  exact hsum

theorem usedBlocks_kmemlowInitAllocator_lt (image : KernelImage) (api : MultibootApi)
    (st : Kmemlow) :
    (kmemlowInitAllocator image api st).usedBlocks < 2 ^ 32 := by
  obtain ⟨hlow, hhigh⟩ := kernelBlocks_bounds image api
  have hlast : kernelBlocks image api = kernelBlocks image api - 1 + 1 := by omega
  rw [kmemlowInitAllocator_eq, hlast, List.range'_1_concat, List.foldl_append]
  exact Nat.mod_lt _ (by omega)

/-- The counter is right after the initialisation exactly when its passes balance. -/
theorem counterAccurate_init_iff :
    CounterAccurate (kmemlowInitAllocator image api st) ↔ CounterBalanced image api := by
  have htotal := kmemlowLayout_totalBlocks_lt image api
  have hbits := bitCount_kmemlowInitAllocator image api st
  have hlt := usedBlocks_kmemlowInitAllocator_lt image api st
  have hused := usedBlocks_kmemlowInitAllocator image api st
  rw [counterAccurate_iff (by rw [kmemlowInitAllocator_layout]; exact htotal),
    kmemlowInitAllocator_layout, CounterBalanced]
  unfold Nat.ModEq at hused ⊢
  omega

/-! ## After a call -/

/-- `kmemlow_alloc` sets a bit and does not count it. -/
theorem counterAccurate_alloc_iff (hphys : st.layout.mbitmapPhysical < 2 ^ 30)
    (ht : st.layout.totalBlocks < 2 ^ 20) (hacc : CounterAccurate st) :
    CounterAccurate (KmemlowOp.alloc.step st) ↔ Neutral st .alloc := by
  have hcount := (counterAccurate_iff ht).mp hacc
  obtain ⟨b, hnext, hcall⟩ | ⟨hnone, e, hcall⟩ := st.alloc_cases
  · have hlt := hnext.1.lt
    have hset : bitCount (st.allocate b).word st.layout.totalBlocks =
        bitCount st.word st.layout.totalBlocks + 1 :=
      bitCount_set (by omega) hnext.1.clear fun c hc =>
        Kmemlow.used_allocate hphys (by omega) (by omega)
    have hstep : KmemlowOp.step st .alloc = st.allocate b := by rw [KmemlowOp.step, hcall]
    have hsame : (st.allocate b).usedBlocks = st.usedBlocks := rfl
    rw [hstep, counterAccurate_iff (by rwa [Kmemlow.allocate_layout]), Kmemlow.allocate_layout,
      hset, hsame]
    exact ⟨fun h => by omega, fun h => absurd hnext (h b)⟩
  · have hstep : KmemlowOp.step st .alloc = { st with kinitErrno := e } := by
      rw [KmemlowOp.step, hcall]
    rw [hstep]
    exact ⟨fun _ => hnone, fun _ => hacc⟩

/-- `kmemlow_free` clears a bit and does not count it either. -/
theorem counterAccurate_free_iff (hphys : st.layout.mbitmapPhysical < 2 ^ 30)
    (ht : st.layout.totalBlocks < 2 ^ 20) (hacc : CounterAccurate st) (p : ℕ) :
    CounterAccurate ((KmemlowOp.free p).step st) ↔ Neutral st (.free p) := by
  have hcount := (counterAccurate_iff ht).mp hacc
  have hstep : KmemlowOp.step st (.free p) = kmemlowFree st p := rfl
  rw [hstep, Neutral, counterAccurate_iff (by rwa [Kmemlow.free_layout]), Kmemlow.free_layout]
  have hsame : (kmemlowFree st p).usedBlocks = st.usedBlocks := by
    rw [kmemlowFree]
    split <;> rfl
  have hused : ∀ c < st.layout.totalBlocks, bitAt (kmemlowFree st p).word c =
      (bitAt st.word c && !(decide (p / 4096 < st.layout.totalBlocks) &&
        decide (c = p / 4096))) := fun c hc => Kmemlow.used_free hphys (by omega) p (by omega)
  rw [hsame, hcount]
  by_cases hn : st.layout.totalBlocks ≤ p / 4096 ∨ st.used (p / 4096) = false
  · refine iff_of_true (bitCount_congr fun c hc => ?_).symm hn
    rw [hused c hc]
    rcases hn with hge | hclear
    · simp [show ¬ p / 4096 < st.layout.totalBlocks by omega]
    · by_cases hcp : c = p / 4096
      · have hclear' : bitAt st.word (p / 4096) = false := hclear
        rw [hcp, hclear', Bool.false_and]
      · simp [hcp]
  · -- a bit is cleared, so one fewer is set than counted
    obtain ⟨hlt, hset⟩ := not_or.mp hn
    have hdrop := bitCount_clear (w := st.word)
      (show p / 4096 < st.layout.totalBlocks by omega) (by simpa [Kmemlow.used] using hset)
      fun c hc => by
        rw [hused c hc]
        simp [show p / 4096 < st.layout.totalBlocks by omega]
    exact iff_of_false (fun h => by omega) hn

/-- From an accurate counter, a call keeps it accurate exactly when it changes no
bit: the counter itself never moves. -/
theorem counterAccurate_step_iff (hl : st.layout = kmemlowLayout image api)
    (hacc : CounterAccurate st) (op : KmemlowOp) :
    CounterAccurate (op.step st) ↔ Neutral st op := by
  have hphys : st.layout.mbitmapPhysical < 2 ^ 30 := by
    rw [hl]
    exact mbitmapPhysical_lt image api
  have ht : st.layout.totalBlocks < 2 ^ 20 := by
    rw [hl]
    exact kmemlowLayout_totalBlocks_lt image api
  cases op with
  | alloc => exact counterAccurate_alloc_iff hphys ht hacc
  | free p => exact counterAccurate_free_iff hphys ht hacc p

/-- **When the counter is accurate**: at every moment of a run exactly when the passes of the
initialisation balance and no call of the run changes a bit.

An allocation that succeeds sets a bit and leaves the counter, and a release of a marked frame
clears one and leaves it too; so an accurate counter stays accurate in no other step than one that
changes nothing. -/
theorem counterStaysAccurate_iff (image : KernelImage) (api : MultibootApi) (st : Kmemlow)
    (ops : List KmemlowOp) :
    CounterStaysAccurate image api st ops ↔
      CounterBalanced image api ∧ ∀ pre op, pre ++ [op] <+: ops →
        Neutral (pre.foldl KmemlowOp.step (kmemlowInitAllocator image api st)) op := by
  have hkeep : ∀ (s : Kmemlow) (op : KmemlowOp), s.layout = kmemlowLayout image api →
      (op.step s).layout = kmemlowLayout image api := by
    intro s op hs
    cases op with
    | alloc => exact (Kmemlow.alloc_layout s).trans hs
    | free p => exact (Kmemlow.free_layout s p).trans hs
  have hrun := forall_states_iff (P := CounterAccurate) (N := Neutral) hkeep
    (fun s op hs hacc => counterAccurate_step_iff hs hacc op) ops
    (kmemlowInitAllocator image api st) kmemlowInitAllocator_layout
  rw [counterAccurate_init_iff] at hrun
  exact hrun

/-- On the 64 MiB machine the counter is one too low after the first allocation. -/
theorem pc_counter_wrong :
    ¬ CounterStaysAccurate smallImage pcApi (Kmemlow.start (fun _ => 0) 0) [.alloc] := by
  intro h
  have hbefore : CounterAccurate pcBoot := h [] List.nil_prefix
  have hafter := h [.alloc] (List.prefix_refl _)
  rw [List.foldl_cons, List.foldl_nil] at hafter
  have hl : pcBoot.layout = kmemlowLayout smallImage pcApi := kmemlowInitAllocator_layout
  have hneutral := (counterAccurate_step_iff hl hbefore .alloc).mp hafter
  obtain ⟨-, hown⟩ := FrameState.inv_of_reach pcBoot_reach
  refine Owned.kmemlowAlloc_ne_zero hl hown (b := 300) (by rw [hl]; decide)
    (pcBoot_clear (by decide) (by decide)) ?_
  obtain ⟨b, hnext, -⟩ | ⟨-, e, hcall⟩ := pcBoot.alloc_cases
  · exact absurd hnext (hneutral b)
  · rw [hcall]

end MissyKernel
