import MissyKernel.MallocRuns

/-!
# How often `malloc` asks for memory

`logged` is an `sbrk` that keeps a list of the requests it gets. With it one can say that a
call asks once, or not at all (`SbrkOnce`). `morecore` hands the new header back to the
loop, which looks at the header behind it and then at the ones up to `_next_free`, where
`free` left it: the node in front of the new memory. So the loop asks again before it
has seen the new block. What is promised holds exactly where the free list has room, or
where the first request is refused.

To say this of any `sbrk`, the allocator is put on another system: `malloc_withSystem` carries a
call over to a system that simulates the first one, and with the log as the second system
nothing changes (`malloc_logged`). `Requested` is what a call may make of its system, in any
number of requests; later results use it where they need to know that only `sbrk` was called.
-/

namespace MissyKernel

variable {σ τ ρ : Type} {base lo n fuel : ℕ} {st st' : Allocator σ} {avail live : List Block}
  {sbrk : σ → ℕ → ℕ × σ} {top : σ → ℕ}

/-! ## Another system under the same heap -/

/-- The allocator on another system. -/
def Allocator.withSystem (st : Allocator σ) (system : τ) : Allocator τ :=
  { mem := st.mem, nextFree := st.nextFree, errno := st.errno, system := system }

/-- An `sbrk` that notes its requests, the latest at the end. -/
def logged (sbrk : σ → ρ → ℕ × σ) (system : σ × List ρ) (request : ρ) : ℕ × (σ × List ρ) :=
  ((sbrk system.1 request).1, (sbrk system.1 request).2, system.2 ++ [request])

theorem ContiguousSbrk.logged (h : ContiguousSbrk sbrk top) :
    ContiguousSbrk (MissyKernel.logged sbrk) (top ∘ Prod.fst) where
  granted system := h.granted system.1
  failed system := h.failed system.1

@[simp] theorem Allocator.mem_withSystem (st : Allocator σ) (system : τ) :
    (st.withSystem system).mem = st.mem := rfl

@[simp] theorem Allocator.nextFree_withSystem (st : Allocator σ) (system : τ) :
    (st.withSystem system).nextFree = st.nextFree := rfl

@[simp] theorem Allocator.system_withSystem (st : Allocator σ) (system : τ) :
    (st.withSystem system).system = system := rfl

theorem startList_withSystem (st : Allocator σ) (system : τ) :
    startList base (st.withSystem system) = (startList base st).withSystem system := by
  unfold startList
  by_cases hunused : st.nextFree = 0
  · rw [Allocator.nextFree_withSystem, if_pos hunused, if_pos hunused]
    rfl
  · rw [Allocator.nextFree_withSystem, if_neg hunused, if_neg hunused]

theorem takeBlock_withSystem (st : Allocator σ) (system : τ) (prev header : ℕ) :
    takeBlock (st.withSystem system) n prev header =
      ((takeBlock st n prev header).1, (takeBlock st n prev header).2.withSystem system) := by
  unfold takeBlock
  rw [Allocator.mem_withSystem]
  by_cases hexact : size st.mem header = n
  · rw [if_pos hexact, if_pos hexact]
    rfl
  · rw [if_neg hexact, if_neg hexact]
    rfl

/-- A call on another system, with the list set up before. -/
theorem Rep.malloc_started {hi : ℕ} (h : Rep base lo hi (MissyKernel.startList base st) avail live)
    (sbrk : τ → ℕ → ℕ × τ) (system : τ) :
    MissyKernel.malloc sbrk base fuel ((MissyKernel.startList base st).withSystem system) n =
      MissyKernel.malloc sbrk base fuel (st.withSystem system) n := by
  simp only [MissyKernel.malloc, startList_withSystem, h.startList_eq]

/-- Whether a call is clean depends on what the two requests are answered, and on nothing
else of the system. -/
theorem MallocClean.withSystem {sbrk' : τ → ℕ → ℕ × τ} (system : τ)
    (h : MallocClean sbrk base st n)
    (hused : startList base (startList base st) = startList base st)
    (hfirst : (sbrk' system (morecoreRequest (n + headerSize))).1 =
      (sbrk st.system (morecoreRequest (n + headerSize))).1)
    (hsecond : (sbrk' (sbrk' system (morecoreRequest (n + headerSize))).2
        (morecoreRequest (n + headerSize))).1 =
      (sbrk (sbrk st.system (morecoreRequest (n + headerSize))).2
        (morecoreRequest (n + headerSize))).1) :
    MallocClean sbrk' base ((startList base st).withSystem system) n := by
  have hstart : startList base ((startList base st).withSystem system) =
      (startList base st).withSystem system := by
    rw [startList_withSystem, hused]
  unfold MallocClean at h ⊢
  rw [hstart]
  refine ⟨h.1, fun hsmall => ?_⟩
  have hgrows := h.2 hsmall
  simp only [GrowsClean, startList_system] at hgrows ⊢
  rwa [← hfirst, ← hsecond] at hgrows

theorem Rep.withSystem {hi : ℕ} (h : Rep base lo hi st avail live) (system : τ) :
    Rep base lo hi (st.withSystem system) avail live :=
  ⟨h.blocks, h.ring, h.ascending, h.baseSize, h.sizes, h.current, h.basePos, h.baseBelow,
    h.inMemory⟩

section Simulation

variable {sbrk' : τ → ℕ → ℕ × τ} {f : τ → σ}

theorem free_withSystem (st : Allocator τ) (block : ℕ) :
    free fuel (st.withSystem (f st.system)) block =
      (free fuel st block).map fun st' => st'.withSystem (f st'.system) := by
  simp only [free, Allocator.withSystem, Option.map_map, Function.comp_def]
  -- the same search, decided over another record
  rfl

theorem morecore_withSystem
    (hf : ∀ t request, sbrk (f t) request = ((sbrk' t request).1, f (sbrk' t request).2))
    (st : Allocator τ) (size : ℕ) :
    morecore sbrk fuel (st.withSystem (f st.system)) size =
      (morecore sbrk' fuel st size).map fun r => (r.1, r.2.withSystem (f r.2.system)) := by
  simp only [morecore, Allocator.system_withSystem, hf]
  by_cases hfail : (sbrk' st.system (morecoreRequest size)).1 = sbrkFailed
  · simp only [if_pos hfail]
    rfl
  · simp only [if_neg hfail, Option.map_map]
    exact (congrArg _ (free_withSystem (f := f) { st with
      system := (sbrk' st.system (morecoreRequest size)).2
      mem := setSize st.mem (sbrk' st.system (morecoreRequest size)).1 (morecoreRequest size) }
      _)).trans (by rw [Option.map_map]; rfl)

theorem mallocLoop_withSystem
    (hf : ∀ t request, sbrk (f t) request = ((sbrk' t request).1, f (sbrk' t request).2))
    (prev header : ℕ) (st : Allocator τ) :
    mallocLoop sbrk n fuel prev header (st.withSystem (f st.system)) =
      (mallocLoop sbrk' n fuel prev header st).map fun r =>
        (r.1, r.2.withSystem (f r.2.system)) := by
  induction fuel generalizing prev header st with
  | zero => rfl
  | succ fuel ih =>
    simp only [mallocLoop, Allocator.mem_withSystem, Allocator.nextFree_withSystem]
    by_cases hfit : n ≤ size st.mem header
    · rw [if_pos hfit, if_pos hfit, takeBlock_withSystem, Option.map_some,
        Rep.takeBlock_system]
    · rw [if_neg hfit, if_neg hfit]
      by_cases hwrap : header = st.nextFree
      · rw [if_pos hwrap, if_pos hwrap, morecore_withSystem hf, Option.bind_map, Option.map_bind]
        refine Option.bind_congr fun answer _ => ?_
        obtain ⟨found, st'⟩ := answer
        by_cases hnull : found = 0
        · simp only [Function.comp_apply, if_pos hnull]
          rfl
        · simp only [Function.comp_apply, if_neg hnull]
          exact ih found _ st'
      · rw [if_neg hwrap, if_neg hwrap]
        exact ih header _ st

/-- `malloc` on a system that simulates another one is the same `malloc`. -/
theorem malloc_withSystem
    (hf : ∀ t request, sbrk (f t) request = ((sbrk' t request).1, f (sbrk' t request).2))
    (st : Allocator τ) :
    malloc sbrk base fuel (st.withSystem (f st.system)) n =
      (malloc sbrk' base fuel st n).map fun r => (r.1, r.2.withSystem (f r.2.system)) := by
  have hloop : mallocLoop sbrk ((n + headerSize) % 2 ^ 32) fuel _ _ _ = _ :=
    mallocLoop_withSystem hf (startList base st).nextFree
      (next (startList base st).mem (startList base st).nextFree) (startList base st)
  rw [startList_system] at hloop
  simp only [malloc, startList_withSystem]
  exact hloop

/-- The log changes nothing. -/
theorem malloc_logged (st : Allocator σ) (log : List ℕ) :
    malloc sbrk base fuel st n =
      (malloc (logged sbrk) base fuel (st.withSystem (st.system, log)) n).map fun r =>
        (r.1, r.2.withSystem r.2.system.1) :=
  malloc_withSystem (f := Prod.fst) (fun _ _ => rfl) (st.withSystem (st.system, log))

end Simulation

/-! ## Requests -/

/-- What a run of requests for `n` bytes makes of the system. -/
def Requested (sbrk : σ → ℕ → ℕ × σ) (n : ℕ) : σ → σ → Prop :=
  Relation.ReflTransGen fun system system' => system' = (sbrk system (morecoreRequest n)).2

theorem morecore_system {header : ℕ} (h : morecore sbrk fuel st n = some (header, st')) :
    st'.system = (sbrk st.system (morecoreRequest n)).2 := by
  rcases morecore_iff.mp h with ⟨-, heq⟩ | ⟨-, st₁, hfree, heq⟩
  · cases heq
    rfl
  · cases heq
    obtain ⟨header, -, -, -, hsystem⟩ := free_cases hfree
    exact hsystem

/-- The loop changes the system by its requests. -/
theorem mallocLoop_requested {prev header p : ℕ}
    (h : mallocLoop sbrk n fuel prev header st = some (p, st')) :
    Requested sbrk n st.system st'.system := by
  induction fuel generalizing prev header st with
  | zero => exact absurd h (by simp [mallocLoop])
  | succ fuel ih =>
    rcases mallocLoop_succ_iff.mp h with
      ⟨-, htaken⟩ | ⟨-, -, found, st₁, hmore, ⟨-, heq⟩ | ⟨-, hrest⟩⟩ | ⟨-, -, hrest⟩
    · have hst := Rep.takeBlock_system st n prev header
      rw [htaken] at hst
      rw [hst]
      exact .refl
    · cases heq
      exact .single (morecore_system hmore)
    · exact .head (morecore_system hmore) (ih hrest)
    · exact ih hrest

/-- Back at `_next_free` there is a request. -/
theorem mallocLoop_requests {prev p : ℕ} (hsmall : size st.mem st.nextFree < n)
    (h : mallocLoop sbrk n fuel prev st.nextFree st = some (p, st')) :
    Requested sbrk n (sbrk st.system (morecoreRequest n)).2 st'.system := by
  cases fuel with
  | zero => exact absurd h (by simp [mallocLoop])
  | succ fuel =>
    rcases mallocLoop_succ_iff.mp h with
      ⟨hfit, -⟩ | ⟨-, -, found, st₁, hmore, hrest⟩ | ⟨-, hne, -⟩
    · exact absurd hfit (Nat.not_le.mpr hsmall)
    · rw [← morecore_system hmore]
      rcases hrest with ⟨-, heq⟩ | ⟨-, hrest⟩
      · cases heq
        exact .refl
      · exact mallocLoop_requested hrest
    · exact absurd rfl hne

/-- Requests never lower the break. -/
theorem Requested.top_le {s s' : σ} (h : Requested sbrk n s s')
    (hsbrk : ContiguousSbrk sbrk top) : top s ≤ top s' := by
  induction h with
  | refl => exact Nat.le_refl _
  | @tail system _ _ hstep ih =>
    rw [hstep]
    refine ih.trans ?_
    by_cases hfail : (sbrk system (morecoreRequest n)).1 = sbrkFailed
    · exact (hsbrk.failed _ _ hfail).ge
    · exact (hsbrk.granted _ _ hfail).2.1.symm ▸ Nat.le_add_right _ _

/-! ## What is promised -/

/-- `malloc n` returns, without a request where the list has a block that fits, and
otherwise with one request, whose outcome is the outcome of the call. A call that fails
leaves the heap, which is set up on the first call. -/
def SbrkOnce (sbrk : σ → ℕ → ℕ × σ) (base : ℕ) (st : Allocator σ) (n : ℕ) : Prop :=
  ∃ fuel p st', malloc (logged sbrk) base fuel (st.withSystem (st.system, [])) n = some (p, st') ∧
    (Fits (startList base st) n → p ≠ 0 ∧ st'.system.2 = []) ∧
    (¬ Fits (startList base st) n → ∃ request, st'.system.2 = [request] ∧
      ((sbrk st.system request).1 ≠ sbrkFailed → p ≠ 0) ∧
      ((sbrk st.system request).1 = sbrkFailed → p = 0 ∧ st'.errno = enomem ∧
        st'.mem = (startList base st).mem ∧ st'.nextFree = (startList base st).nextFree))

/-- The list has a block that fits, or the request for more is refused. -/
def FitsOrRefused (sbrk : σ → ℕ → ℕ × σ) (base : ℕ) (st : Allocator σ) (n : ℕ) : Prop :=
  Fits (startList base st) n ∨
    (sbrk st.system (morecoreRequest (n + headerSize))).1 = sbrkFailed

namespace Rep

/-- With a block that fits, nothing is asked for, whatever would be answered. -/
theorem malloc_of_fits {hi : ℕ} (h : Rep base lo hi st avail live) (hn : n + 8 < 2 ^ 32)
    (hfits : Fits st n) :
    ∃ fuel p st', (∀ sbrk : σ → ℕ → ℕ × σ,
        MissyKernel.malloc sbrk base fuel st n = some (p, st')) ∧
      p ≠ 0 ∧ size st'.mem (p - headerSize) = n + headerSize ∧ st'.system = st.system := by
  rcases h.search (allocationSize_eq hn) with
    ⟨prev, y, k, hprev, hnext, ⟨j, -, hfit, -⟩, hmalloc⟩ | ⟨hsmall, -⟩
  · have hy : y ∈ base :: avail.map Block.addr := by
      rcases List.mem_append.mp (hnext ▸ h.ring.succ_mem hprev) with hy | hy
      · exact List.mem_cons_of_mem _ hy
      · exact List.mem_singleton.mp hy ▸ List.mem_cons_self
    have hend := h.list_fin hy
    have hin := h.inMemory
    have hapart := h.apart_or_eq (mem_nodes_of_list live hprev) (mem_nodes_of_list live hy)
    exact ⟨0 + 1 + k, _, _, fun sbrk => hmalloc sbrk 0,
      takeBlock_ne_null (by omega) hfit (by omega),
      takeBlock_size hapart (by omega) hfit (by omega), takeBlock_system st (n + 8) prev y⟩
  · obtain ⟨x, hx, hfit⟩ := h.fits_iff.mp hfits
    exact absurd hfit (Nat.not_le.mpr (hsmall x hx))

/-- Without one, a refused request ends the call. -/
theorem malloc_of_refused {hi k : ℕ} (h : Rep base lo hi st avail live) (sbrk : σ → ℕ → ℕ × σ)
    (hk : (n + headerSize) % 2 ^ 32 = k) (hsmall : ∀ x, OnList st x → size st.mem x < k)
    (hrefused : (sbrk st.system (morecoreRequest k)).1 = sbrkFailed) :
    ∃ fuel st', MissyKernel.malloc sbrk base fuel st n = some (0, st') ∧ st'.mem = st.mem ∧
      st'.nextFree = st.nextFree ∧ st'.errno = enomem ∧
      st'.system = (sbrk st.system (morecoreRequest k)).2 := by
  rcases h.search hk with ⟨prev, y, steps, hprev, hnext, ⟨j, hj, hfit, -⟩, -⟩ |
    ⟨-, prev, steps, hmalloc⟩
  · exact absurd hfit (Nat.not_le.mpr (hsmall y ⟨j + 1, hj⟩))
  · exact ⟨0 + 1 + steps, _, (hmalloc sbrk (0 + 1)).trans
      (mallocLoop_failed (hsmall _ ⟨0, rfl⟩) hrefused 0), rfl, rfl, rfl, rfl⟩

theorem sbrkOnce {hi : ℕ} (h : Rep base lo hi (MissyKernel.startList base st) avail live)
    (hn : n + 8 < 2 ^ 32) (hcond : FitsOrRefused sbrk base st n) : SbrkOnce sbrk base st n := by
  have hlogged := h.withSystem (st.system, ([] : List ℕ))
  by_cases hfits : Fits (MissyKernel.startList base st) n
  · obtain ⟨fuel, p, st', hmalloc, hp, -, hsystem⟩ := hlogged.malloc_of_fits hn hfits
    exact ⟨fuel, p, st', h.malloc_started _ _ ▸ hmalloc (logged sbrk), fun _ =>
      ⟨hp, congrArg Prod.snd hsystem⟩, fun hnone => absurd hfits hnone⟩
  · have hrefused := hcond.resolve_left hfits
    obtain ⟨fuel, st', hmalloc, hmem, hcurrent, herrno, hsystem⟩ :=
      hlogged.malloc_of_refused (logged sbrk) (allocationSize_eq hn)
        (fun x hx => Nat.lt_of_not_le fun hfit => hfits ⟨x, hx, hfit⟩) hrefused
    exact ⟨fuel, 0, st', h.malloc_started _ _ ▸ hmalloc, fun hfits' => absurd hfits' hfits,
      fun _ => ⟨_, congrArg Prod.snd hsystem, fun hgranted => absurd hrefused hgranted,
        fun _ => ⟨rfl, herrno, hmem, hcurrent⟩⟩⟩

/-- A clean call that grows the heap asks twice. -/
theorem not_sbrkOnce (hsbrk : ContiguousSbrk sbrk top)
    (h : Rep base lo (top st.system) (MissyKernel.startList base st) avail live)
    (hn : n + 16 < 2 ^ 32) (hclean : MallocClean sbrk base st n)
    (hcond : ¬ FitsOrRefused sbrk base st n) :
    ¬ SbrkOnce sbrk base st n := by
  rintro ⟨fuel, p, st', hmalloc, -, honce⟩
  obtain ⟨hnone, hgranted⟩ := not_or.mp hcond
  obtain ⟨request, hlog, -⟩ := honce hnone
  obtain ⟨fuel', p', st₂, hmalloc', houtcome⟩ := (h.withSystem (st.system, ([] : List ℕ))).malloc
    hsbrk.logged (n := n) hn (hclean.withSystem (st.system, [])
      h.startList_eq rfl rfl)
  rw [h.malloc_started] at hmalloc'
  obtain ⟨rfl, rfl⟩ := Prod.mk.inj (malloc_unique hmalloc hmalloc')
  rcases houtcome.grew hnone with ⟨hrefused, -⟩ | ⟨-, hsystem, -⟩
  · exact hgranted hrefused
  · rw [hsystem] at hlog
    exact absurd (congrArg List.length hlog) (by simp [logged])

end Rep

/-! ## Runs -/

/-- **One request at most.** In every run of clean calls from the empty heap `malloc n` does what
is promised where the list has a block that fits, or where the request is refused; a clean `malloc
n` does it nowhere else.

Where the list has a block that fits, the search comes to it before it comes round (`Rep.search`).
Where it has none and the request is granted, the node in front of the new memory is `_next_free`
and the loop stops there once more, before the new block. -/
theorem malloc_sbrk_once (hsbrk : ContiguousSbrk sbrk top) {start : Allocator σ}
    {st : MallocRun σ} (hstart : EmptyHeap base top start)
    (h : MallocReach sbrk base (fun st c => c.Clean sbrk base st) ⟨start, []⟩ st)
    (hn : n + 2 * headerSize < 2 ^ 32) :
    (FitsOrRefused sbrk base st.alloc n → SbrkOnce sbrk base st.alloc n) ∧
      (MallocClean sbrk base st.alloc n → SbrkOnce sbrk base st.alloc n →
        FitsOrRefused sbrk base st.alloc n) := by
  obtain ⟨avail, hstarted⟩ := (h.inv hsbrk hstart).exists_started
  have hn : n + 16 < 2 ^ 32 := hn
  refine ⟨hstarted.rep.sbrkOnce (by omega), fun hclean honce => ?_⟩
  by_contra hcond
  exact hstarted.rep.not_sbrkOnce hsbrk hn hclean hcond honce

/-- After a run of three allocations and a release, the list serves 300 bytes without a request;
a request that the address space has no room for is refused, and asked for once. -/
theorem bumpHeap_sbrk_once : ∃ st, MallocReach bumpSbrk 0x1000
    (fun st c => c.Clean bumpSbrk 0x1000 st) ⟨bumpHeap, []⟩ st ∧
      Fits (startList 0x1000 st.alloc) 300 ∧ SbrkOnce bumpSbrk 0x1000 st.alloc 300 ∧
      ¬ Fits (startList 0x1000 st.alloc) (2 ^ 32 - 17) ∧
      SbrkOnce bumpSbrk 0x1000 st.alloc (2 ^ 32 - 17) := by
  have hrun : ((MallocRun.runMeeting bumpSbrk 0x1000 20 (MallocCall.FewClean bumpSbrk 0x1000)
      threeCalls ⟨bumpHeap, []⟩).any fun st => decide (
        300 + headerSize ≤ size (startList 0x1000 st.alloc).mem
          ((startList 0x1000 st.alloc).header 0) ∧
        (startList 0x1000 st.alloc).header 4 = (startList 0x1000 st.alloc).nextFree ∧
        (∀ j < 4, size (startList 0x1000 st.alloc).mem ((startList 0x1000 st.alloc).header j) <
          2 ^ 32 - 17 + headerSize) ∧
        (bumpSbrk st.alloc.system (morecoreRequest (2 ^ 32 - 17 + headerSize))).1 =
          sbrkFailed)) = true := by decide +kernel
  obtain ⟨st, hst, hfacts⟩ := (Option.any_eq_true _ _).mp hrun
  obtain ⟨hfit, hround, hsmall, hrefused⟩ := of_decide_eq_true hfacts
  have hreach : MallocReach bumpSbrk 0x1000 (fun st c => c.Clean bumpSbrk 0x1000 st)
      ⟨bumpHeap, []⟩ st := MallocReach.start.runMeeting MallocCall.FewClean.clean hst
  have hfits : Fits (startList 0x1000 st.alloc) 300 := ⟨_, ⟨0, rfl⟩, hfit⟩
  refine ⟨st, hreach, hfits, ?_, ?_, ?_⟩
  · exact (malloc_sbrk_once bumpSbrk_contiguous bumpHeap_empty hreach (by decide)).1 (.inl hfits)
  · rintro ⟨x, hx, hlarge⟩
    obtain ⟨j, hj, rfl⟩ := onList_lt (by decide) hround hx
    exact absurd hlarge (Nat.not_le.mpr (hsmall j hj))
  · exact (malloc_sbrk_once bumpSbrk_contiguous bumpHeap_empty hreach (by decide)).1
      (.inr hrefused)

/-- The first call of a run asks for twice the memory it needs. -/
theorem bumpHeap_asks_twice : ∃ st, MallocReach bumpSbrk 0x1000 (fun _ _ => True)
    ⟨bumpHeap, []⟩ st ∧ 100 + 2 * headerSize < 2 ^ 32 ∧
      ¬ SbrkOnce bumpSbrk 0x1000 st.alloc 100 := by
  have hrep : Rep 0x1000 0x2000 0x2000 (startList 0x1000 bumpHeap) [] [] :=
    Rep.startList rfl (by decide) (by decide) (by decide)
  refine ⟨⟨bumpHeap, []⟩, .start, by decide, ?_⟩
  refine hrep.not_sbrkOnce bumpSbrk_contiguous (by decide) bumpHeap_clean ?_
  rintro (hfits | hrefused)
  · obtain ⟨x, hx, hfit⟩ := hrep.fits_iff.mp hfits
    rw [List.mem_singleton.mp hx, hrep.baseSize] at hfit
    exact absurd hfit (by decide)
  · exact absurd hrefused (by decide)

end MissyKernel
