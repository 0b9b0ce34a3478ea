import MissyKernel.KernelHeap
import MissyKernel.MallocGrowth

/-!
# What becomes of a large request

The size of a request takes two headers on its way, modulo `2 ^ 32` each time, and ends as
the signed increment of `sbrk`. From two gigabytes on the increment is negative, so that the
break moves down, and the last few sizes come round to a small one. `RequestSafe` is what
should hold of every size. It holds where a free block has room, and for less than two
gigabytes when the two requests of the loop are not answered differently.

The contract of `sbrk` is the signed one here (`IncrementSbrk`), for increments that raise the
break by less than two gigabytes; `kernelSbrk_raises` shows that the kernel's own `sbrk` keeps
it, whatever its heap. A clean call is asked for only where no block fits: with one that fits,
`sbrk` is not called and nothing can wrap.
-/

namespace MissyKernel

variable {σ : Type} {base lo n fuel : ℕ} {st st' : Allocator σ} {avail live : List Block}
  {sbrk : σ → ℤ → ℕ × σ} {top : σ → ℕ}

/-! ## A signed `sbrk` -/

/-- A `size_t` that is passed for an `intptr_t`. -/
def toIntptr (size : ℕ) : ℤ := (BitVec.ofNat 32 size).toInt

/-- `sbrk(size)`, as `morecore` calls it. -/
def passSize (sbrk : σ → ℤ → ℕ × σ) (system : σ) (size : ℕ) : ℕ × σ :=
  sbrk system (toIntptr size)

/-- The contract of `sbrk` for increments that raise the break. -/
structure IncrementSbrk (sbrk : σ → ℤ → ℕ × σ) (top : σ → ℕ) : Prop where
  granted : ∀ system (size : ℕ), 0 < size → size < 2 ^ 31 → (sbrk system size).1 ≠ sbrkFailed →
    (sbrk system size).1 = top system ∧ top (sbrk system size).2 = top system + size ∧
      top system + size < 2 ^ 32
  failed : ∀ system (size : ℕ), 0 < size → size < 2 ^ 31 → (sbrk system size).1 = sbrkFailed →
    top (sbrk system size).2 = top system

/-- The sizes that raise the break; the others are refused. -/
def raisingSbrk (sbrk : σ → ℤ → ℕ × σ) (system : σ) (size : ℕ) : ℕ × σ :=
  if 0 < size ∧ size < 2 ^ 31 then sbrk system size else (sbrkFailed, system)

theorem toIntptr_of_lt {size : ℕ} (h : size < 2 ^ 31) : toIntptr size = size := by
  have hsize : size < 2147483648 := h
  rw [toIntptr, BitVec.toInt_ofNat', Int.bmod_def]
  omega

theorem toIntptr_of_le {size : ℕ} (h : 2 ^ 31 ≤ size) (hlt : size < 2 ^ 32) :
    toIntptr size = size - 2 ^ 32 := by
  have hsize : 2147483648 ≤ size := h
  rw [toIntptr, BitVec.toInt_ofNat', Int.bmod_def]
  omega

theorem passSize_of_raising (sbrk : σ → ℤ → ℕ × σ) (system : σ) {size : ℕ} (hpos : 0 < size)
    (hlt : size < 2 ^ 31) : passSize sbrk system size = raisingSbrk sbrk system size := by
  rw [passSize, raisingSbrk, if_pos ⟨hpos, hlt⟩, toIntptr_of_lt hlt]

theorem IncrementSbrk.contiguous (h : IncrementSbrk sbrk top) :
    ContiguousSbrk (raisingSbrk sbrk) top where
  granted system size hgranted := by
    unfold raisingSbrk at hgranted ⊢
    by_cases hsize : 0 < size ∧ size < 2 ^ 31
    · rw [if_pos hsize] at hgranted ⊢
      exact h.granted system size hsize.1 hsize.2 hgranted
    · rw [if_neg hsize] at hgranted
      exact absurd rfl hgranted
  failed system size hfailed := by
    unfold raisingSbrk at hfailed ⊢
    by_cases hsize : 0 < size ∧ size < 2 ^ 31
    · rw [if_pos hsize] at hfailed ⊢
      exact h.failed system size hsize.1 hsize.2 hfailed
    · rw [if_neg hsize]

theorem IncrementSbrk.granted_pass (h : IncrementSbrk sbrk top) {system : σ} {size : ℕ}
    (hpos : 0 < size) (hlt : size < 2 ^ 31)
    (hgranted : (passSize sbrk system size).1 ≠ sbrkFailed) :
    top (passSize sbrk system size).2 = top system + size := by
  rw [passSize, toIntptr_of_lt hlt] at hgranted ⊢
  exact (h.granted system size hpos hlt hgranted).2.1

theorem IncrementSbrk.failed_pass (h : IncrementSbrk sbrk top) {system : σ} {size : ℕ}
    (hpos : 0 < size) (hlt : size < 2 ^ 31) (hfailed : (passSize sbrk system size).1 = sbrkFailed) :
    top (passSize sbrk system size).2 = top system := by
  rw [passSize, toIntptr_of_lt hlt] at hfailed ⊢
  exact h.failed system size hpos hlt hfailed

theorem IncrementSbrk.logged (h : IncrementSbrk sbrk top) :
    IncrementSbrk (MissyKernel.logged sbrk) (top ∘ Prod.fst) where
  granted system := h.granted system.1
  failed system := h.failed system.1

/-! ## `malloc` sees one size -/

section Congr

variable {sbrk₁ sbrk₂ : σ → ℕ → ℕ × σ}

theorem mallocLoop_congr
    (h : ∀ system, sbrk₁ system (morecoreRequest n) = sbrk₂ system (morecoreRequest n))
    (fuel prev header : ℕ) (st : Allocator σ) :
    mallocLoop sbrk₁ n fuel prev header st = mallocLoop sbrk₂ n fuel prev header st := by
  induction fuel generalizing prev header st with
  | zero => rfl
  | succ fuel ih => simp only [mallocLoop, morecore, h, ih]

theorem malloc_congr (hn : n + headerSize < 2 ^ 32)
    (h : ∀ system, sbrk₁ system (morecoreRequest (n + headerSize)) =
      sbrk₂ system (morecoreRequest (n + headerSize))) (fuel : ℕ) (st : Allocator σ) :
    malloc sbrk₁ base fuel st n = malloc sbrk₂ base fuel st n := by
  rw [malloc, malloc, Nat.mod_eq_of_lt hn]
  exact mallocLoop_congr h _ _ _ _

theorem MallocClean.congr
    (h : ∀ system, sbrk₁ system (morecoreRequest (n + headerSize)) =
      sbrk₂ system (morecoreRequest (n + headerSize)))
    (hclean : MallocClean sbrk₁ base st n) : MallocClean sbrk₂ base st n := by
  simp only [MallocClean, GrowsClean, h] at hclean ⊢
  exact hclean

end Congr

/-- The log of increments only grows. -/
theorem Requested.log {s s' : σ × List ℤ} (h : Requested (passSize (logged sbrk)) n s s') :
    s.2 <+: s'.2 := by
  induction h with
  | refl => exact List.prefix_rfl
  | tail _ hstep ih =>
    rw [hstep]
    exact ih.trans (List.prefix_append _ _)

/-! ## What is promised -/

/-- What is promised of `malloc n`. Its sizes do not wrap: each increment it passes to
`sbrk` has room for `n` bytes and two headers, and the break does not go down. It fails
and leaves the free list and the break, or returns a block that is large enough. -/
def RequestSafe (sbrk : σ → ℤ → ℕ × σ) (top : σ → ℕ) (base : ℕ) (st : Allocator σ) (n : ℕ) :
    Prop :=
  n + headerSize < 2 ^ 32 ∧
    ∃ fuel p st', malloc (passSize (logged sbrk)) base fuel (st.withSystem (st.system, [])) n =
        some (p, st') ∧
      (∀ increment ∈ st'.system.2, ((n + 2 * headerSize : ℕ) : ℤ) ≤ increment) ∧
      top st.system ≤ top st'.system.1 ∧
      ((p = 0 ∧ st'.mem = (startList base st).mem ∧
          st'.nextFree = (startList base st).nextFree ∧ top st'.system.1 = top st.system) ∨
        (p ≠ 0 ∧ n + headerSize ≤ size st'.mem (p - headerSize)))

/-- The answers to the two requests of `malloc n` do not leave the first block unused: the
first one is refused, or the second one is not. -/
def AnsweredAlike (sbrk : σ → ℤ → ℕ × σ) (st : Allocator σ) (n : ℕ) : Prop :=
  let request := morecoreRequest (n + headerSize)
  let first := passSize sbrk st.system request
  first.1 = sbrkFailed ∨ (passSize sbrk first.2 request).1 ≠ sbrkFailed

/-- The list has a block that fits, or the request stays below two gigabytes and its two
answers agree. -/
def RequestServed (sbrk : σ → ℤ → ℕ × σ) (base : ℕ) (st : Allocator σ) (n : ℕ) : Prop :=
  Fits (startList base st) n ∨ (n + 2 * headerSize < 2 ^ 31 ∧ AnsweredAlike sbrk st n)

/-- The request of a call does not wrap, or there is none. -/
def MallocCall.Sized (base : ℕ) (st : MallocRun σ) : MallocCall → Prop
  | .malloc nbytes => Fits (startList base st.alloc) nbytes ∨ nbytes + 2 * headerSize < 2 ^ 31
  | .free _ => True
  | .store _ _ => True

theorem morecoreRequest_small (hn : n + 16 < 2 ^ 31) :
    0 < morecoreRequest (n + headerSize) ∧ morecoreRequest (n + headerSize) < 2 ^ 31 := by
  have hn : n + 16 < 2147483648 := hn
  rw [morecoreRequest, headerSize, mallocMinSbrkRequest, Nat.mod_eq_of_lt (by omega)]
  split <;> omega

/-- From two gigabytes on the increment is too small for what was asked. -/
theorem toIntptr_request_lt (hn : 2 ^ 31 ≤ n + 16) (hlt : n + 8 < 2 ^ 32) :
    toIntptr (morecoreRequest (n + headerSize)) < ((n + 2 * headerSize : ℕ) : ℤ) := by
  have hn : 2147483648 ≤ n + 16 := hn
  have hlt : n + 8 < 4294967296 := hlt
  by_cases hwrap : n + 16 < 2 ^ 32
  · have hrequest : morecoreRequest (n + headerSize) = n + 16 := by
      rw [morecoreRequest, headerSize, mallocMinSbrkRequest, Nat.mod_eq_of_lt hwrap, if_neg]
      omega
    rw [hrequest, toIntptr_of_le hn hwrap, headerSize]
    omega
  · have hrequest : morecoreRequest (n + headerSize) = 1024 := by
      rw [morecoreRequest, headerSize, mallocMinSbrkRequest, if_pos]
      omega
    rw [hrequest, toIntptr_of_lt (by decide), headerSize]
    omega

namespace Rep

/-- Below two gigabytes the increments have room for what was asked. -/
theorem increments_of_small (sbrk : σ → ℤ → ℕ × σ) {system : σ} {log : List ℤ}
    (hn : n + 16 < 2 ^ 31)
    (hlog : ∀ increment ∈ log, ((n + 2 * headerSize : ℕ) : ℤ) ≤ increment) :
    ∀ increment ∈ (passSize (logged sbrk) (system, log) (morecoreRequest (n + headerSize))).2.2,
      ((n + 2 * headerSize : ℕ) : ℤ) ≤ increment := by
  intro increment hmem
  rcases List.mem_append.mp hmem with hmem | hmem
  · exact hlog increment hmem
  · have hn' : n + 16 < 2147483648 := hn
    have hbound := (morecoreRequest_bounds (n := n + headerSize) (by rw [headerSize]; omega)).1
    rw [List.mem_singleton.mp hmem, toIntptr_of_lt (morecoreRequest_small hn).2]
    rw [headerSize] at hbound ⊢
    omega

/-- Below two gigabytes, with no block that fits, the call is safe when the two requests are
answered alike. -/
theorem requestSafe_of_small (hsbrk : IncrementSbrk sbrk top)
    (h : Rep base lo (top st.system) (MissyKernel.startList base st) avail live)
    (hn : n + 16 < 2 ^ 31) (hnone : ¬ Fits (MissyKernel.startList base st) n)
    (hclean : MallocClean (passSize sbrk) base st n) :
    RequestSafe sbrk top base st n ↔ AnsweredAlike sbrk st n := by
  have hn' : n + 16 < 2147483648 := hn
  obtain ⟨hpos, hlt⟩ := morecoreRequest_small hn
  have hpass := fun s => passSize_of_raising (logged sbrk) s hpos hlt
  have hlogged := h.withSystem (st.system, ([] : List ℤ))
  obtain ⟨fuel, p, st', hmalloc, houtcome⟩ := hlogged.malloc hsbrk.logged.contiguous (n := n)
    (by omega) (MallocClean.congr hpass (hclean.withSystem (st.system, [])
      h.startList_eq rfl rfl))
  have hallocated := houtcome.allocated hsbrk.logged.contiguous hlogged
  have hgrew := houtcome.grew hnone
  rw [← malloc_congr (by rw [headerSize]; omega) hpass, h.malloc_started] at hmalloc
  simp only [Grew, ← hpass] at hgrew
  constructor
  · rintro ⟨-, fuel', p', st₂, hmalloc', -, -, hresult⟩
    obtain ⟨rfl, rfl⟩ := Prod.mk.inj (malloc_unique hmalloc hmalloc')
    rcases hgrew with ⟨hrefused, -⟩ | ⟨hgranted, hsystem, hnull⟩
    · exact .inl hrefused
    · refine .inr fun hrefused => ?_
      -- the memory of the first request is on the list, and the call failed
      obtain ⟨-, -, -, htop⟩ := hresult.resolve_right fun hp => hp.1 (hnull.mpr hrefused)
      have hfirst := hsbrk.granted_pass hpos hlt hgranted
      have hsecond := hsbrk.failed_pass hpos hlt hrefused
      rw [hsystem] at htop
      have hraised : top st.system + morecoreRequest (n + headerSize) = top st.system :=
        hfirst.symm.trans (hsecond.symm.trans htop)
      omega
  · intro halike
    refine ⟨by rw [headerSize]; omega, fuel, p, st', hmalloc, ?_⟩
    rcases hgrew with ⟨hrefused, rfl, rfl⟩ | ⟨hgranted, hsystem, hnull⟩
    · have htop := hsbrk.failed_pass hpos hlt hrefused
      exact ⟨increments_of_small sbrk hn (List.forall_mem_nil _), htop.ge,
        .inl ⟨rfl, rfl, rfl, htop⟩⟩
    · have hgranted' := halike.resolve_left hgranted
      have hp := fun hp => hgranted' (hnull.mp hp)
      have hfirst : top (passSize sbrk st.system (morecoreRequest (n + headerSize))).2 =
          top st.system + morecoreRequest (n + headerSize) :=
        hsbrk.granted_pass hpos hlt hgranted
      have hsecond := hsbrk.granted_pass hpos hlt hgranted'
      rw [hsystem]
      refine ⟨increments_of_small sbrk hn (increments_of_small sbrk hn (List.forall_mem_nil _)),
        ?_, ?_⟩
      · change top st.system ≤ top (passSize sbrk (passSize sbrk st.system _).2 _).2
        omega
      · obtain ⟨hzero, -⟩ | ⟨c, avail', rfl, hsize, hrep⟩ := hallocated
        · exact absurd hzero hp
        · refine .inr ⟨hp, ?_⟩
          rw [Nat.add_sub_cancel, hrep.sizes c (List.mem_append_right _ List.mem_cons_self), hsize]

/-- A block that fits is all that is needed. -/
theorem requestSafe_of_fits {hi : ℕ}
    (h : Rep base lo hi (MissyKernel.startList base st) avail live) (top : σ → ℕ)
    (hfits : Fits (MissyKernel.startList base st) n) : RequestSafe sbrk top base st n := by
  have hn : n + headerSize < 2 ^ 32 := by
    obtain ⟨x, -, hfit⟩ := hfits
    exact hfit.trans_lt (Mem.read32_lt _ _)
  obtain ⟨fuel, p, st', hmalloc, hp, hsize, hsystem⟩ :=
    (h.withSystem (st.system, ([] : List ℤ))).malloc_of_fits hn hfits
  refine ⟨hn, fuel, p, st', h.malloc_started _ _ ▸ hmalloc _, ?_, ?_, .inr ⟨hp, hsize.ge⟩⟩
  · rw [hsystem]
    exact List.forall_mem_nil _
  · rw [hsystem]
    exact Nat.le_refl _

/-- From two gigabytes on, with no block that fits, the first increment is too small. -/
theorem not_requestSafe_of_large {hi : ℕ}
    (h : Rep base lo hi (MissyKernel.startList base st) avail live) (hn : 2 ^ 31 ≤ n + 16)
    (hnone : ¬ Fits (MissyKernel.startList base st) n) : ¬ RequestSafe sbrk top base st n := by
  rintro ⟨hlt, fuel, p, st', hmalloc, hlog, -⟩
  rcases h.withSystem (st.system, ([] : List ℤ)) |>.search (allocationSize_eq hlt) with
    ⟨prev, y, k, -, -, ⟨j, hj, hfit, -⟩, -⟩ | ⟨hsmall, prev, k, hloop⟩
  · exact hnone ⟨y, ⟨j + 1, hj⟩, hfit⟩
  · rw [← h.malloc_started] at hmalloc
    have hmalloc := (hloop _ fuel).symm.trans (malloc_mono hmalloc (Nat.le_add_right fuel k))
    have hrequests := (mallocLoop_requests (hsmall _ h.current) hmalloc).log
    have hmem := hrequests.subset (List.mem_append_right [] (List.mem_singleton_self _))
    exact absurd (toIntptr_request_lt hn hlt) (Int.not_lt.mpr (hlog _ hmem))

/-- What `malloc n` does at a represented heap. -/
theorem requestSafe_iff (hsbrk : IncrementSbrk sbrk top)
    (h : Rep base lo (top st.system) (MissyKernel.startList base st) avail live)
    (hclean : ¬ Fits (MissyKernel.startList base st) n → n + 2 * headerSize < 2 ^ 31 →
      MallocClean (passSize sbrk) base st n) :
    RequestSafe sbrk top base st n ↔ RequestServed sbrk base st n := by
  by_cases hfits : Fits (MissyKernel.startList base st) n
  · exact ⟨fun _ => .inl hfits, fun _ => h.requestSafe_of_fits top hfits⟩
  by_cases hn : n + 2 * headerSize < 2 ^ 31
  · rw [h.requestSafe_of_small hsbrk hn hfits (hclean hfits hn), RequestServed, or_iff_right hfits,
      and_iff_right hn]
  · rw [RequestServed, or_iff_right hfits]
    exact iff_of_false (h.not_requestSafe_of_large (Nat.le_of_not_lt hn) hfits) fun hand =>
      hn hand.1

end Rep

/-! ## Runs -/

/-- An `sbrk` that refuses everything. -/
theorem refusing_contiguous (top : σ → ℕ) :
    ContiguousSbrk (fun system _ => (sbrkFailed, system)) top where
  granted _ _ h := absurd rfl h
  failed _ _ _ := rfl

/-- A step of a run whose requests do not wrap. -/
theorem RunInv.callSized (hsbrk : IncrementSbrk sbrk top) {st : MallocRun σ}
    (h : RunInv base lo top st) {c : MallocCall} (hallowed : c.Allowed st)
    (hclean : c.Clean (passSize sbrk) base st) (hsized : c.Sized base st) :
    ∃ fuel st', c.run (passSize sbrk) base fuel st = some st' ∧
      ∃ avail, Represents base lo top st' avail := by
  cases c with
  | malloc nbytes =>
    have hn : nbytes + 16 < 4294967296 := hallowed
    rcases hsized with hfits | hsmall
    · -- `sbrk` is not called, so it may refuse everything
      obtain ⟨avail, hstarted⟩ := h.exists_started
      obtain ⟨fuel, p, alloc, hmalloc, -⟩ := hstarted.rep.malloc_of_fits (by omega) hfits
      have hclean' : MallocClean (fun system _ => (sbrkFailed, system)) base st.alloc nbytes :=
        ⟨hclean.1, fun _ hgranted => absurd rfl hgranted⟩
      obtain ⟨fuel', st', hrun, havail⟩ := h.call (refusing_contiguous top)
        (c := .malloc nbytes) hallowed hclean'
      have hsame : ∀ sbrk, (MallocCall.malloc nbytes).run sbrk base fuel st = some
          { alloc := alloc, live := if p = 0 then st.live else (p, nbytes) :: st.live } :=
        fun sbrk => by
          have hcall := hmalloc sbrk
          rw [hstarted.rep.malloc_startList] at hcall
          rw [MallocCall.run, hcall, Option.map_some]
      have heq := MallocCall.run_unique hrun (hsame _)
      exact ⟨fuel, st', heq ▸ hsame _, havail⟩
    · obtain ⟨hpos, hlt⟩ := morecoreRequest_small hsmall
      have hpass := fun s => passSize_of_raising sbrk s hpos hlt
      obtain ⟨fuel, st', hrun, havail⟩ := h.call hsbrk.contiguous (c := .malloc nbytes) hallowed
        (MallocClean.congr hpass hclean)
      refine ⟨fuel, st', ?_, havail⟩
      rw [MallocCall.run, malloc_congr (by rw [headerSize]; omega) hpass]
      exact hrun
  | free block => exact h.call hsbrk.contiguous (c := .free block) hallowed hclean
  | store addr v => exact h.call hsbrk.contiguous (c := .store addr v) hallowed trivial

theorem MallocReach.invSized {start : Allocator σ} {st : MallocRun σ}
    (h : MallocReach (passSize sbrk) base
      (fun st c => c.Clean (passSize sbrk) base st ∧ c.Sized base st) ⟨start, []⟩ st)
    (hsbrk : IncrementSbrk sbrk top) (hstart : EmptyHeap base top start) :
    RunInv base (top start.system) top st := by
  induction h with
  | start => exact .inl ⟨hstart, rfl, rfl⟩
  | call _ hallowed hc hrun ih =>
    obtain ⟨_, _, hrun', havail⟩ := ih.callSized hsbrk hallowed hc.1 hc.2
    exact .inr (MallocCall.run_unique hrun hrun' ▸ havail)

/-- **Sizes of every kind.** In every run of clean calls from the empty heap whose requests do not
wrap, `malloc n` is safe exactly where the list has a block that fits, or where `n` with two
headers is below two gigabytes and the two requests are answered alike.

Where a block fits, nothing is asked for. Where none does, the first increment is the size with two
headers, or at least a kilobyte; from two gigabytes on it is negative or has come round, and so too
small. Below that the call fails cleanly if the first request is refused, and not if only the
second one is. -/
theorem request_safe_iff (hsbrk : IncrementSbrk sbrk top) {start : Allocator σ}
    {st : MallocRun σ} (hstart : EmptyHeap base top start)
    (h : MallocReach (passSize sbrk) base
      (fun st c => c.Clean (passSize sbrk) base st ∧ c.Sized base st) ⟨start, []⟩ st)
    (hclean : ¬ Fits (startList base st.alloc) n → n + 2 * headerSize < 2 ^ 31 →
      MallocClean (passSize sbrk) base st.alloc n) :
    RequestSafe sbrk top base st.alloc n ↔ RequestServed sbrk base st.alloc n := by
  obtain ⟨avail, hstarted⟩ := (h.invSized hsbrk hstart).exists_started
  exact hstarted.rep.requestSafe_iff hsbrk hclean

/-- An `sbrk` that moves the break to any address, up or down. -/
def bumpIncrement (brk : ℕ) (increment : ℤ) : ℕ × ℕ :=
  if 0 ≤ brk + increment ∧ brk + increment < 2 ^ 32 then (brk, (brk + increment).toNat)
  else (sbrkFailed, brk)

theorem bumpIncrement_of_raising (brk size : ℕ) : bumpIncrement brk size = bumpSbrk brk size := by
  unfold bumpIncrement bumpSbrk
  by_cases hfits : brk + size < 2 ^ 32
  · have hfits' : brk + size < 4294967296 := hfits
    rw [if_pos hfits, if_pos (by omega)]
    rfl
  · have hfits' : ¬ brk + size < 4294967296 := hfits
    rw [if_neg hfits, if_neg (by omega)]

theorem bumpIncrement_raises : IncrementSbrk bumpIncrement id where
  granted brk size _ _ hgranted := by
    rw [bumpIncrement_of_raising] at hgranted ⊢
    exact bumpSbrk_contiguous.granted brk size hgranted
  failed brk size _ _ hfailed := by
    rw [bumpIncrement_of_raising] at hfailed ⊢
    exact bumpSbrk_contiguous.failed brk size hfailed

/-- The first call of a run is safe with a hundred bytes. -/
theorem bumpHeap_request_safe : RequestSafe bumpIncrement id 0x1000 bumpHeap 100 := by
  have hpass : ∀ brk, bumpSbrk brk (morecoreRequest (100 + headerSize)) =
      passSize bumpIncrement brk (morecoreRequest (100 + headerSize)) := fun brk => by
    rw [passSize, toIntptr_of_lt (by decide), bumpIncrement_of_raising]
  exact (request_safe_iff bumpIncrement_raises bumpHeap_empty .start
    fun _ _ => MallocClean.congr hpass bumpHeap_clean).mpr (.inr ⟨by decide, .inr (by decide)⟩)

/-- Eight bytes below the end of the address space the first sum is zero, and the empty block
`_base` is handed out. -/
theorem bumpHeap_wraps : ∃ st, MallocReach (passSize bumpIncrement) 0x1000 (fun _ _ => True)
    ⟨bumpHeap, []⟩ st ∧ ¬ RequestSafe bumpIncrement id 0x1000 st.alloc (2 ^ 32 - 8) ∧
      ∃ st', malloc (passSize bumpIncrement) 0x1000 1 st.alloc (2 ^ 32 - 8) = some (0x1008, st') ∧
        size st'.mem 0x1000 = 0 :=
  ⟨⟨bumpHeap, []⟩, .start, fun h => absurd h.1 (by decide), _, rfl, by decide⟩

/-! ## The kernel's `sbrk` -/

/-- The kernel's heap once its break is set, in the upper half of the addresses. -/
structure KernelHeap where
  heap : Heap
  /-- what every call keeps -/
  ok : heap.Ok
  /-- the break is set -/
  set : heap.brk ≠ 0
  /-- the heap lies behind the kernel -/
  high : 2 ^ 31 ≤ heap.heapBase

/-- The kernel's `sbrk`. A call that faults never comes back; here it counts as refused. -/
def kernelSbrk (st : KernelHeap) (increment : ℤ) : ℕ × KernelHeap :=
  match h : MissyKernel.sbrk st.heap increment with
  | none => (sbrkFailed, st)
  | some (r, heap) => (r,
    { heap := heap
      ok := st.ok.run (c := .sbrk increment) (sbrkTarget_lt st.heap increment)
        (show HeapCall.run st.heap _ = some (decide (r ≠ 0xffffffff), heap) by
          rw [HeapCall.run, h]
          rfl)
      set := by
        have hset := st.set
        have hpositive := st.ok.positive
        obtain ⟨-, ⟨-, ⟨hsame, -⟩ | ⟨-, hle⟩⟩ | ⟨-, hsame⟩⟩ := sbrk_cases h <;> omega
      high := (sbrk_cases h).1.symm ▸ st.high })

/-- The kernel's `sbrk` keeps the contract for increments that raise the break: above two
gigabytes a break that wraps falls below the heap, and is refused. -/
theorem kernelSbrk_raises : IncrementSbrk kernelSbrk (fun st => st.heap.brk) := by
  have hcases : ∀ (st : KernelHeap) (size : ℕ), 0 < size → size < 2 ^ 31 →
      ((kernelSbrk st size).1 = st.heap.brk ∧ st.heap.brk ≠ sbrkFailed ∧
          (kernelSbrk st size).2.heap.brk = st.heap.brk + size ∧ st.heap.brk + size < 2 ^ 32) ∨
        ((kernelSbrk st size).1 = sbrkFailed ∧
          (kernelSbrk st size).2.heap.brk = st.heap.brk) := by
    intro st size hpos hlt
    unfold kernelSbrk
    split
    · exact .inr ⟨rfl, rfl⟩
    · rename_i r heap h
      have hbelow := st.ok.below
      have hhigh := st.high
      obtain ⟨-, ⟨rfl, ⟨-, hzero⟩ | ⟨htarget, hle⟩⟩ | hfailed⟩ := sbrk_cases h
      · omega
      · have hsum : heap.brk = st.heap.brk + size ∧ st.heap.brk + size < 2 ^ 32 := by
          rw [sbrkTarget] at htarget
          omega
        exact .inl ⟨rfl, by rw [sbrkFailed]; omega, hsum⟩
      · exact .inr hfailed
  refine ⟨fun st size hpos hlt hgranted => ?_, fun st size hpos hlt hfailed => ?_⟩
  · obtain ⟨hreturned, -, hraised⟩ | ⟨hfailed, -⟩ := hcases st size hpos hlt
    · exact ⟨hreturned, hraised⟩
    · exact absurd hfailed hgranted
  · obtain ⟨hreturned, hne, -⟩ | ⟨-, hsame⟩ := hcases st size hpos hlt
    · exact absurd (hreturned.symm.trans hfailed) hne
    · exact hsame

end MissyKernel
