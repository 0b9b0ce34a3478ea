import MissyKernel.MallocGrowth

/-!
# `calloc`

`calloc` calls `malloc` where it declares its variable and once more where it tests it, so a
call that works leaves a block behind that nobody has a pointer to; and it multiplies
without a test for overflow. It is one zeroed allocation exactly where there is none: where
`malloc` refuses, and refuses again.

What it should be is `CallocOne`: a product that does not fit in 32 bits is refused, and one that
fits is allocated once and filled with zeros. `refusesTwice_of_callocOne` is the hard direction:
a `calloc` that comes out as one allocation cannot have got a block from its first `malloc`,
since nobody would hold that. `bumpHeap_calloc_leaks` is the first call of a run.
-/

namespace MissyKernel

variable {σ : Type} {base lo n fuel count size : ℕ} {sbrk : σ → ℕ → ℕ × σ} {top : σ → ℕ}

/-- `memset` -/
def memset (mem : Mem) (destination : ℕ) (initial : BitVec 8) (count : ℕ) : Mem :=
  mem.fill destination initial count

/-- `malloc`, with the blocks that are live after it. A `NULL` is no block. -/
def MallocRun.malloc (sbrk : σ → ℕ → ℕ × σ) (base fuel : ℕ) (st : MallocRun σ) (nbytes : ℕ) :
    Option (ℕ × MallocRun σ) :=
  (MissyKernel.malloc sbrk base fuel st.alloc nbytes).map fun r =>
    (r.1, { alloc := r.2, live := if r.1 = 0 then st.live else (r.1, nbytes) :: st.live })

/-- `calloc`, with the blocks that are live after it. -/
def MallocRun.calloc (sbrk : σ → ℕ → ℕ × σ) (base fuel : ℕ) (st : MallocRun σ)
    (count size : ℕ) : Option (ℕ × MallocRun σ) :=
  let nbytes := count * size % 2 ^ 32
  (st.malloc sbrk base fuel nbytes).bind fun first =>
    (first.2.malloc sbrk base fuel nbytes).map fun (memblock, st) =>
      if memblock = 0 then (memblock, st)
      else (memblock, { st with
        alloc := { st.alloc with mem := memset st.alloc.mem memblock 0 nbytes } })

/-! ## What is promised -/

/-- The same free list, break and live blocks. -/
structure SameHeap (top : σ → ℕ) (st st' : MallocRun σ) : Prop where
  current : st'.alloc.nextFree = st.alloc.nextFree
  links : ∀ x, OnList st.alloc x → next st'.alloc.mem x = next st.alloc.mem x ∧
    MissyKernel.size st'.alloc.mem x = MissyKernel.size st.alloc.mem x
  raised : top st'.alloc.system = top st.alloc.system
  live : st'.live.Perm st.live

/-- The state with its free list set up, as the first `malloc` does it. -/
def MallocRun.ready (base : ℕ) (st : MallocRun σ) : MallocRun σ :=
  { st with alloc := startList base st.alloc }

/-- `calloc(count, size)` is one zeroed allocation. -/
structure CallocOne (sbrk : σ → ℕ → ℕ × σ) (top : σ → ℕ) (base : ℕ) (st : MallocRun σ)
    (count size : ℕ) : Prop where
  /-- a product that does not fit is refused -/
  overflow : 2 ^ 32 ≤ count * size → ∃ fuel st', st.calloc sbrk base fuel count size =
    some (0, st') ∧ SameHeap top (st.ready base) st'
  /-- a product that fits is allocated once, and filled with zeros -/
  once : count * size < 2 ^ 32 → ∃ fuel p st₁ st',
    st.malloc sbrk base fuel (count * size) = some (p, st₁) ∧
      st.calloc sbrk base fuel count size = some (p, st') ∧ SameHeap top st₁ st' ∧
      (p ≠ 0 → (∀ i < count * size, st'.alloc.mem (p + i) = 0) ∧
        ∀ x ∈ st.live, ∀ a ∈ payload x, st'.alloc.mem a = st.alloc.mem a)

/-- No block on the list is large enough for `n` bytes, and `sbrk` refuses twice in a row. -/
structure RefusesTwice (sbrk : σ → ℕ → ℕ × σ) (base : ℕ) (st : Allocator σ) (n : ℕ) : Prop where
  small : ∀ x, OnList (startList base st) x →
    MissyKernel.size (startList base st).mem x < (n + headerSize) % 2 ^ 32
  first : (sbrk st.system (morecoreRequest ((n + headerSize) % 2 ^ 32))).1 = sbrkFailed
  second : (sbrk (sbrk st.system (morecoreRequest ((n + headerSize) % 2 ^ 32))).2
    (morecoreRequest ((n + headerSize) % 2 ^ 32))).1 = sbrkFailed

/-! ## One call after the other -/

namespace MallocRun

variable {st st₁ st' : MallocRun σ} {p q : ℕ}

theorem malloc_mono {fuel' : ℕ} {r : ℕ × MallocRun σ}
    (h : st.malloc sbrk base fuel n = some r) (hle : fuel ≤ fuel') :
    st.malloc sbrk base fuel' n = some r := by
  obtain ⟨r, hcall, heq⟩ := Option.map_eq_some_iff.mp h
  exact Option.map_eq_some_iff.mpr ⟨r, MissyKernel.malloc_mono hcall hle, heq⟩

theorem malloc_unique {fuel' : ℕ} {r r' : ℕ × MallocRun σ}
    (h : st.malloc sbrk base fuel n = some r) (h' : st.malloc sbrk base fuel' n = some r') :
    r = r' := by
  obtain ⟨answer, hcall, rfl⟩ := Option.map_eq_some_iff.mp h
  obtain ⟨answer', hcall', rfl⟩ := Option.map_eq_some_iff.mp h'
  rw [MissyKernel.malloc_unique hcall hcall']

theorem malloc_of_null {alloc : Allocator σ}
    (h : MissyKernel.malloc sbrk base fuel st.alloc n = some (0, alloc)) :
    st.malloc sbrk base fuel n = some (0, { st with alloc := alloc }) := by
  rw [malloc, h]
  rfl

/-- What a call that fails leaves. -/
theorem malloc_null (h : st.malloc sbrk base fuel n = some (0, st')) :
    MissyKernel.malloc sbrk base fuel st.alloc n = some (0, st'.alloc) ∧ st'.live = st.live := by
  obtain ⟨⟨p, alloc⟩, hcall, heq⟩ := Option.map_eq_some_iff.mp h
  cases heq
  exact ⟨hcall, rfl⟩

/-- A call adds a block where it returns one, and none otherwise. -/
theorem length_malloc (h : st.malloc sbrk base fuel n = some (p, st')) :
    st'.live.length = st.live.length + if p = 0 then 0 else 1 := by
  obtain ⟨r, -, heq⟩ := Option.map_eq_some_iff.mp h
  cases heq
  by_cases hnull : r.1 = 0
  · simp only [if_pos hnull, Nat.add_zero]
  · simp only [if_neg hnull, List.length_cons]

/-- No call lowers the break. -/
theorem top_le_of_malloc (hsbrk : ContiguousSbrk sbrk top)
    (h : st.malloc sbrk base fuel n = some (p, st')) :
    top st.alloc.system ≤ top st'.alloc.system := by
  obtain ⟨⟨q, alloc⟩, hcall, heq⟩ := Option.map_eq_some_iff.mp h
  cases heq
  have hle := (mallocLoop_requested hcall).top_le hsbrk
  rwa [startList_system] at hle

/-- What `calloc` consists of. -/
theorem calloc_cases (h : st.calloc sbrk base fuel count size = some (p, st')) :
    ∃ q st₁ st₂, st.malloc sbrk base fuel (count * size % 2 ^ 32) = some (q, st₁) ∧
      st₁.malloc sbrk base fuel (count * size % 2 ^ 32) = some (p, st₂) ∧
      st'.live = st₂.live ∧ st'.alloc.system = st₂.alloc.system ∧
      (p ≠ 0 → st'.alloc.mem = memset st₂.alloc.mem p 0 (count * size % 2 ^ 32)) := by
  obtain ⟨⟨q, st₁⟩, hfirst, hrest⟩ := Option.bind_eq_some_iff.mp h
  obtain ⟨⟨memblock, st₂⟩, hsecond, heq⟩ := Option.map_eq_some_iff.mp hrest
  by_cases hnull : memblock = 0
  · simp only [if_pos hnull] at heq
    cases heq
    exact ⟨q, st₁, st', hfirst, hsecond, rfl, rfl, fun hp => absurd hnull hp⟩
  · simp only [if_neg hnull] at heq
    cases heq
    exact ⟨q, st₁, st₂, hfirst, hsecond, rfl, rfl, fun _ => rfl⟩

/-- Whatever else it does, `calloc` clears the block it returns. -/
theorem calloc_zeroes (h : st.calloc sbrk base fuel count size = some (p, st')) (hp : p ≠ 0)
    {i : ℕ} (hi : i < count * size % 2 ^ 32) : st'.alloc.mem (p + i) = 0 := by
  obtain ⟨-, -, st₂, -, -, -, -, hmem⟩ := calloc_cases h
  rw [hmem hp, memset, Mem.fill_apply, if_pos ⟨Nat.le_add_right p i, Nat.add_lt_add_left hi p⟩]

/-- Two calls that fail make a `calloc` that fails. -/
theorem calloc_of_null {fuel' : ℕ}
    (hfirst : st.malloc sbrk base fuel (count * size % 2 ^ 32) = some (0, st₁))
    (hsecond : st₁.malloc sbrk base fuel' (count * size % 2 ^ 32) = some (0, st')) :
    st.calloc sbrk base (max fuel fuel') count size = some (0, st') := by
  rw [calloc, malloc_mono hfirst (Nat.le_max_left fuel fuel'), Option.bind_some,
    malloc_mono hsecond (Nat.le_max_right fuel fuel')]
  rfl

end MallocRun

/-! ## At a represented heap -/

namespace Started

variable {st : MallocRun σ} {avail : List Block}

/-- Where `malloc` is refused twice, `calloc` is what it should be. -/
theorem callocOne (hsbrk : ContiguousSbrk sbrk top) (h : Started base lo top st avail)
    (hrefuses : RefusesTwice sbrk base st.alloc (count * size % 2 ^ 32)) :
    CallocOne sbrk top base st count size := by
  obtain ⟨hsmall, hfirst, hsecond⟩ := hrefuses
  have hrep := h.startRep
  rw [← startList_system base st.alloc] at hfirst hsecond
  obtain ⟨fuel₁, alloc₁, hmalloc₁, hmem₁, hcurrent₁, -, hsystem₁⟩ :=
    hrep.malloc_of_refused sbrk rfl hsmall hfirst
  have htop₁ := hsbrk.failed _ _ hfirst
  rw [← hsystem₁] at hsecond htop₁
  have hrep₁ : Rep base lo (top (startList base st.alloc).system) alloc₁ avail
      (st.live.map liveBlock) :=
    hrep.congr hcurrent₁ (fun _ _ => hmem₁ ▸ rfl) fun _ _ => hmem₁ ▸ rfl
  have hsame₁ : ∀ x, OnList alloc₁ x ↔ OnList (startList base st.alloc) x := fun x => by
    rw [hrep₁.onList, hrep.onList]
  obtain ⟨fuel₂, alloc₂, hmalloc₂, hmem₂, hcurrent₂, -, hsystem₂⟩ :=
    hrep₁.malloc_of_refused sbrk rfl
      (fun x hx => hmem₁.symm ▸ hsmall x ((hsame₁ x).mp hx)) hsecond
  have htop₂ := hsbrk.failed _ _ hsecond
  rw [← hsystem₂] at htop₂
  rw [h.rep.malloc_startList] at hmalloc₁
  have hcall₁ := MallocRun.malloc_of_null hmalloc₁
  have hcalloc := MallocRun.calloc_of_null hcall₁ (MallocRun.malloc_of_null hmalloc₂)
  refine ⟨fun _ => ⟨_, _, hcalloc, hcurrent₂.trans hcurrent₁, fun x hx => ?_,
    htop₂.trans htop₁, .refl _⟩, fun hfits => ?_⟩
  · rw [hmem₂, hmem₁]
    exact ⟨rfl, rfl⟩
  · rw [Nat.mod_eq_of_lt hfits] at hcall₁
    refine ⟨max fuel₁ fuel₂, 0, _, _, MallocRun.malloc_mono hcall₁ (Nat.le_max_left _ _),
      hcalloc, ⟨hcurrent₂, fun x hx => ?_, htop₂, .refl _⟩, fun hp => absurd rfl hp⟩
    rw [hmem₂]
    exact ⟨rfl, rfl⟩

/-- After a clean `malloc` that fails, a `malloc` that fails too without raising the break was
refused like the first. -/
theorem refusesTwice (hsbrk : ContiguousSbrk sbrk top) (h : Started base lo top st avail)
    (hn : n + 16 < 2 ^ 32) (hclean : MallocClean sbrk base st.alloc n) {fuel' : ℕ}
    {st₁ st₂ : MallocRun σ} (hfirst : st.malloc sbrk base fuel n = some (0, st₁))
    (hsecond : st₁.malloc sbrk base fuel' n = some (0, st₂))
    (htop : top st₂.alloc.system ≤ top st₁.alloc.system) :
    RefusesTwice sbrk base st.alloc n := by
  have hrep := h.startRep
  obtain ⟨fuel₁, p, alloc, hmalloc, houtcome⟩ := h.malloc hsbrk hn hclean
  have hfirst' := (MallocRun.malloc_null hfirst).1
  have hsecond' := (MallocRun.malloc_null hsecond).1
  obtain ⟨rfl, rfl⟩ := Prod.mk.inj (malloc_unique hmalloc hfirst')
  have hk := allocationSize_eq (n := n) (by omega)
  cases houtcome with
  | fit hfits htaken => exact absurd rfl (hrep.taken htaken).1
  | refused hnone hrefused hp hst =>
    have hsmall : ∀ x, OnList (startList base st.alloc) x →
        MissyKernel.size (startList base st.alloc).mem x < n + 8 := fun x hx =>
      Nat.lt_of_not_le fun hfit => hnone ⟨x, hx, hfit⟩
    rw [startList_system] at hrefused hst
    refine ⟨by rwa [hk], by rwa [hk], ?_⟩
    rw [hk]
    by_contra hgranted
    -- the second call raises the break
    have hrep₁ : Rep base lo (top (startList base st.alloc).system) st₁.alloc avail
        (st.live.map liveBlock) := hst ▸ hrep.congr rfl (fun _ _ => rfl) fun _ _ => rfl
    rcases hrep₁.search hk with ⟨prev, y, k, -, -, ⟨j, hj, hfit, -⟩, -⟩ | ⟨hsmall₁, prev, k, hloop⟩
    · rw [hst] at hj hfit
      exact absurd (hsmall y ⟨j + 1, hj⟩) (Nat.not_lt.mpr hfit)
    · have hloop := (hloop sbrk fuel').symm.trans
        (malloc_mono hsecond' (Nat.le_add_right fuel' k))
      have hle := (mallocLoop_requests (hsmall₁ _ hrep₁.current) hloop).top_le hsbrk
      have hsystem₁ : st₁.alloc.system = (sbrk st.alloc.system (morecoreRequest (n + 8))).2 :=
        hst ▸ rfl
      have hbounds := morecoreRequest_bounds (n := n + 8) (by omega)
      rw [← hsystem₁] at hgranted
      rw [(hsbrk.granted _ _ hgranted).2.1] at hle
      omega
  | halfway st₀ hnone hrefused hsystem hrep₀ hsecond₀ hp hst =>
    -- the memory of the first request serves the second call
    have hrep₁ : Rep base lo (top st₀.system) st₁.alloc (avail ++
        [⟨top (startList base st.alloc).system, morecoreRequest (n + 8)⟩])
        (st.live.map liveBlock) := hst ▸ hrep₀.congr rfl (fun _ _ => rfl) fun _ _ => rfl
    have hbounds := morecoreRequest_bounds (n := n + 8) (by omega)
    have hfits : Fits st₁.alloc n := by
      refine hrep₁.fits_iff.mpr ⟨top (startList base st.alloc).system, by simp, ?_⟩
      rw [hrep₁.sizes ⟨top (startList base st.alloc).system, morecoreRequest (n + 8)⟩ (by simp)]
      exact Nat.le_of_add_right_le hbounds.1
    obtain ⟨fuel₂, p, st₃, hmalloc₂, hp₂, -⟩ := hrep₁.malloc_of_fits (by omega) hfits
    exact absurd (Prod.mk.inj (malloc_unique (hmalloc₂ sbrk) hsecond')).1 hp₂
  | grown st₀ st₃ hnone hrefused hsystem hsecond₀ hsystem' hrep₀ htaken =>
    exact absurd rfl (hrep₀.taken htaken).1

/-- A `calloc` that is one allocation was refused twice. -/
theorem refusesTwice_of_callocOne (hsbrk : ContiguousSbrk sbrk top)
    (h : Started base lo top st avail) (hn : count * size % 2 ^ 32 + 16 < 2 ^ 32)
    (hclean : MallocClean sbrk base st.alloc (count * size % 2 ^ 32))
    (hone : CallocOne sbrk top base st count size) :
    RefusesTwice sbrk base st.alloc (count * size % 2 ^ 32) := by
  rcases Nat.lt_or_ge (count * size) (2 ^ 32) with hfits | hover
  · obtain ⟨fuel, p, st₁, st', hmalloc, hcalloc, hsame, -⟩ := hone.once hfits
    rw [← Nat.mod_eq_of_lt hfits] at hmalloc
    obtain ⟨q, st₁', st₂, hfirst, hsecond, hlive, hsystem, -⟩ := MallocRun.calloc_cases hcalloc
    obtain ⟨rfl, rfl⟩ := Prod.mk.inj (MallocRun.malloc_unique hmalloc hfirst)
    have hlength := MallocRun.length_malloc hsecond
    have hperm := hsame.live.length_eq
    rw [hlive] at hperm
    by_cases hp : p = 0
    · subst hp
      exact h.refusesTwice hsbrk hn hclean hfirst hsecond (hsystem ▸ hsame.raised).le
    · rw [if_neg hp] at hlength
      omega
  · obtain ⟨fuel, st', hcalloc, hsame⟩ := hone.overflow hover
    obtain ⟨q, st₁, st₂, hfirst, hsecond, hlive, hsystem, -⟩ := MallocRun.calloc_cases hcalloc
    have hlength₁ := MallocRun.length_malloc hfirst
    have hlength₂ := MallocRun.length_malloc hsecond
    have hperm := hsame.live.length_eq
    rw [hlive] at hperm
    have hready : (st.ready base).live = st.live := rfl
    rw [hready] at hperm
    by_cases hq : q = 0
    · subst hq
      refine h.refusesTwice hsbrk hn hclean hfirst hsecond ?_
      have hraised := hsame.raised
      rw [hsystem] at hraised
      exact hraised.le.trans ((congrArg top (startList_system base st.alloc)).le.trans
        (MallocRun.top_le_of_malloc hsbrk hfirst))
    · rw [if_neg hq] at hlength₁
      omega

end Started

/-! ## Runs -/

/-- **`calloc`.** In every run of clean calls from the empty heap `calloc` is one zeroed allocation
where the list has no room and `sbrk` refuses twice in a row; where a clean `malloc` comes first,
and its size does not wrap with two headers, nowhere else.

The first half needs no clean call, since a refused `malloc` takes nothing. For the second half, a
first `malloc` that got a block would leave it without an owner, so the live blocks would be one
too many. -/
theorem calloc_one_iff (hsbrk : ContiguousSbrk sbrk top) {start : Allocator σ}
    {st : MallocRun σ} (hstart : EmptyHeap base top start)
    (h : MallocReach sbrk base (fun st c => c.Clean sbrk base st) ⟨start, []⟩ st) :
    (RefusesTwice sbrk base st.alloc (count * size % 2 ^ 32) →
        CallocOne sbrk top base st count size) ∧
      (count * size % 2 ^ 32 + 2 * headerSize < 2 ^ 32 →
        MallocClean sbrk base st.alloc (count * size % 2 ^ 32) →
        CallocOne sbrk top base st count size →
        RefusesTwice sbrk base st.alloc (count * size % 2 ^ 32)) := by
  obtain ⟨avail, hstarted⟩ := (h.inv hsbrk hstart).exists_started
  exact ⟨hstarted.callocOne hsbrk, fun hn hclean =>
    hstarted.refusesTwice_of_callocOne hsbrk hn hclean⟩

/-- A block that the address space has no room for. -/
theorem bumpHeap_calloc_refused : CallocOne bumpSbrk id 0x1000 ⟨bumpHeap, []⟩ 1 (2 ^ 32 - 17) := by
  have hrep : Rep 0x1000 0x2000 0x2000 (startList 0x1000 bumpHeap) [] [] :=
    Rep.startList rfl (by decide) (by decide) (by decide)
  refine (calloc_one_iff bumpSbrk_contiguous bumpHeap_empty .start).1
    ⟨fun x hx => ?_, by decide, by decide⟩
  rw [List.mem_singleton.mp (hrep.onList.mp hx), hrep.baseSize]
  decide

/-- The first call of a run, for ten times ten bytes, leaves a block behind. -/
theorem bumpHeap_calloc_leaks : ∃ st, MallocReach bumpSbrk 0x1000 (fun _ _ => True)
    ⟨bumpHeap, []⟩ st ∧ ¬ CallocOne bumpSbrk id 0x1000 st 10 10 := by
  refine ⟨⟨bumpHeap, []⟩, .start, fun hone => ?_⟩
  have hrefuses := bumpHeap_empty.started.refusesTwice_of_callocOne bumpSbrk_contiguous
    (by decide) bumpHeap_clean hone
  exact absurd hrefuses.first (by decide)

end MissyKernel
