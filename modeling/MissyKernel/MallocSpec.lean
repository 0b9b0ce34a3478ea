import MissyKernel.MallocHeap

/-!
# What `malloc` and `free` do to a represented heap

`sbrk` is any function that keeps its contract: the old break with the new bytes above
it, or a failure. The calls are clean when they stay off the two defects of the code,
the merge tests of `free` that scale a size in bytes, and the split that leaves less
than a header. A clean call on a represented heap returns, and leaves one.

Cleanness is stated on memory, not on the represented heap: `FreeClean` and `MallocClean` look at
the headers one meets from `_next_free` on (`OnList`). So it can be looked up in any state, and a
run can be checked for it. `MallocOutcome` lists the four ways a call of `malloc` ends, with all
that callers rely on.
-/

namespace MissyKernel

variable {σ : Type} {base lo n fuel : ℕ} {st st' : Allocator σ} {avail live : List Block}
  {sbrk : σ → ℕ → ℕ × σ} {top : σ → ℕ}

/-- The contract of `sbrk`, with `top` the break: it returns the old break and moves it up
by `size`, or it fails and leaves it. The break is an address. -/
structure ContiguousSbrk (sbrk : σ → ℕ → ℕ × σ) (top : σ → ℕ) : Prop where
  granted : ∀ system size, (sbrk system size).1 ≠ sbrkFailed →
    (sbrk system size).1 = top system ∧ top (sbrk system size).2 = top system + size ∧
      top system + size < 2 ^ 32
  failed : ∀ system size, (sbrk system size).1 = sbrkFailed →
    top (sbrk system size).2 = top system

/-! ## Clean calls -/

/-- The headers one meets from `_next_free` on. -/
def OnList (st : Allocator σ) (x : ℕ) : Prop := ∃ k, (next st.mem)^[k] st.nextFree = x

/-- Neither merge test of `free` succeeds for a block `mblock` of `size` bytes behind
`header`. -/
def NoMerge (mem : Mem) (mblock blockSize header : ℕ) : Prop :=
  addHeaders mblock blockSize ≠ next mem header ∧ addHeaders header (size mem header) ≠ mblock

/-- `free p` stays off the defect: where its search ends, neither merge test succeeds. -/
def FreeClean (st : Allocator σ) (p : ℕ) : Prop :=
  ∀ header, OnList st header → freeStops st.mem (p - headerSize) header →
    NoMerge st.mem (p - headerSize) (size st.mem (p - headerSize)) header

/-- The first header behind `_next_free` with `n` bytes or more. -/
def FirstFit (st : Allocator σ) (n x : ℕ) : Prop :=
  ∃ k, (next st.mem)^[k + 1] st.nextFree = x ∧ n ≤ size st.mem x ∧
    ∀ j < k, size st.mem ((next st.mem)^[j + 1] st.nextFree) < n

/-- The blocks that `morecore` gets for a request of `n` bytes, at most two of them, are
put on the list without a merge. -/
def GrowsClean (sbrk : σ → ℕ → ℕ × σ) (base : ℕ) (st : Allocator σ) (n : ℕ) : Prop :=
  let request := morecoreRequest n
  let first := sbrk st.system request
  let second := sbrk first.2 request
  first.1 ≠ sbrkFailed →
    (∀ header, OnList st header → freeStops st.mem first.1 header →
      NoMerge st.mem first.1 request header) ∧
    (second.1 ≠ sbrkFailed → addHeaders second.1 request ≠ base)

/-- `malloc n` stays off the two defects: the block it takes fits exactly or keeps room
for a header, and when there is none, the new memory is not merged. -/
def MallocClean (sbrk : σ → ℕ → ℕ × σ) (base : ℕ) (st : Allocator σ) (n : ℕ) : Prop :=
  let st := startList base st
  let size' := n + headerSize
  (∀ x, FirstFit st size' x → size st.mem x = size' ∨ size' + headerSize ≤ size st.mem x) ∧
    ((∀ x, OnList st x → size st.mem x < size') → GrowsClean sbrk base st size')

/-! ## The loop of `malloc` -/

/-- Headers that are too small are passed over. -/
theorem mallocLoop_skip {l : List ℕ} {prev y : ℕ} (hpath : Path (next st.mem) prev l y)
    (hsmall : ∀ x ∈ l, size st.mem x < n ∧ x ≠ st.nextFree) (fuel : ℕ) :
    mallocLoop sbrk n (fuel + l.length) prev (next st.mem prev) st =
      mallocLoop sbrk n fuel (l.getLastD prev) y st := by
  induction l generalizing prev with
  | nil =>
    rw [show next st.mem prev = y from hpath]
    rfl
  | cons x l ih =>
    obtain ⟨hx, hsmall⟩ := List.forall_mem_cons.mp hsmall
    rw [hpath.1, List.length_cons, ← Nat.add_assoc, mallocLoop, if_neg (Nat.not_le.mpr hx.1),
      if_neg hx.2, ih hpath.2 hsmall, List.getLastD_cons]

theorem mallocLoop_fit {prev y : ℕ} (hfit : n ≤ size st.mem y) (fuel : ℕ) :
    mallocLoop sbrk n (fuel + 1) prev y st = some (takeBlock st n prev y) := by
  rw [mallocLoop, if_pos hfit]

theorem morecore_failed (hfail : (sbrk st.system (morecoreRequest n)).1 = sbrkFailed) :
    morecore sbrk fuel st n = some (0, { st with
      system := (sbrk st.system (morecoreRequest n)).2
      errno := enomem }) := by
  simp only [morecore, if_pos hfail]

theorem morecore_granted (hgranted : (sbrk st.system (morecoreRequest n)).1 ≠ sbrkFailed) :
    morecore sbrk fuel st n =
      (free fuel (st.grown (sbrk st.system (morecoreRequest n)).2
        (sbrk st.system (morecoreRequest n)).1 (morecoreRequest n))
        (((sbrk st.system (morecoreRequest n)).1 + headerSize) % 2 ^ 32)).map
        fun st' => ((sbrk st.system (morecoreRequest n)).1, st') := by
  simp only [morecore, if_neg hgranted, Allocator.grown]

/-- Back at `_next_free`, a request that fails ends the loop. -/
theorem mallocLoop_failed {prev : ℕ} (hsmall : size st.mem st.nextFree < n)
    (hfail : (sbrk st.system (morecoreRequest n)).1 = sbrkFailed) (fuel : ℕ) :
    mallocLoop sbrk n (fuel + 1) prev st.nextFree st =
      some (0, { st with
        system := (sbrk st.system (morecoreRequest n)).2
        errno := enomem }) := by
  rw [mallocLoop, if_neg (Nat.not_le.mpr hsmall), if_pos rfl, morecore_failed hfail,
    Option.bind_some]
  exact if_pos rfl

/-- Back at `_next_free`, new memory sends the loop on from the new header. -/
theorem mallocLoop_more {prev header : ℕ} (hsmall : size st.mem st.nextFree < n)
    (hmore : morecore sbrk fuel st n = some (header, st')) (hne : header ≠ 0) :
    mallocLoop sbrk n (fuel + 1) prev st.nextFree st =
      mallocLoop sbrk n fuel header (next st'.mem header) st' := by
  rw [mallocLoop, if_neg (Nat.not_le.mpr hsmall), if_pos rfl, hmore, Option.bind_some]
  exact if_neg hne

theorem morecoreRequest_bounds (hn : n + 8 < 2 ^ 32) :
    n + 8 ≤ morecoreRequest n ∧ 1024 ≤ morecoreRequest n ∧ morecoreRequest n < 2 ^ 32 := by
  rw [morecoreRequest, headerSize, mallocMinSbrkRequest, Nat.mod_eq_of_lt hn]
  split <;> omega

theorem add_eight_mul_mod_ne {m a k : ℕ} (hm : Nat.Coprime m 7) (hpos : 0 < k)
    (hend : a + k < m) : (a + 8 * k) % m ≠ a + k := by
  intro heq
  have hdiv := Nat.div_add_mod (a + 8 * k) m
  rw [heq] at hdiv
  have hdvd : m ∣ 7 * k := ⟨(a + 8 * k) / m, by omega⟩
  have hle := Nat.le_of_dvd hpos (hm.dvd_of_dvd_mul_left hdvd)
  omega

/-- The scaled pointer sum is never the end of the block: seven is odd. -/
theorem addHeaders_ne_end {a k : ℕ} (hpos : 0 < k) (hend : a + k < 2 ^ 32) :
    addHeaders a k ≠ a + k :=
  add_eight_mul_mod_ne (by norm_num) hpos hend

/-- Of a circular list one meets every node, from whichever one starts. -/
theorem onList_iff {a x : ℕ} {l : List ℕ} (h : Path (next st.mem) a l a)
    (hcurrent : st.nextFree ∈ a :: l) : OnList st x ↔ x ∈ a :: l := by
  obtain ⟨r, hrotated, hperm⟩ := h.rotate hcurrent
  constructor
  · rintro ⟨k, rfl⟩
    exact hperm.mem_iff.mp (hrotated.iterate_mem k)
  · exact fun hx => hrotated.exists_iterate (hperm.mem_iff.mpr hx)

namespace Rep

/-- Two memories with the same blocks on the list have the same sizes there. -/
theorem size_eq {hi hi' : ℕ} {avail' live' : List Block} (h : Rep base lo hi st avail live)
    (h' : Rep base lo hi' st' avail' live') (hsub : avail ⊆ avail') {x : ℕ}
    (hx : x ∈ base :: avail.map Block.addr) : size st'.mem x = size st.mem x := by
  rcases List.mem_cons.mp hx with rfl | hx
  · exact h'.baseSize.trans h.baseSize.symm
  · obtain ⟨b, hb, rfl⟩ := List.mem_map.mp hx
    exact (h'.sizes b (List.mem_append_left _ (hsub hb))).trans
      (h.sizes b (List.mem_append_left _ hb)).symm

theorem onList {hi : ℕ} (h : Rep base lo hi st avail live) {x : ℕ} :
    OnList st x ↔ x ∈ base :: avail.map Block.addr :=
  onList_iff h.ring h.current

/-- The free block behind the node `prev` is taken. -/
theorem takeFrom {hi prev y : ℕ} (h : Rep base lo hi st avail live)
    (hprev : prev ∈ base :: avail.map Block.addr) (hnext : next st.mem prev = y) (hn : 8 ≤ n)
    (hfit : size st.mem y = n ∨ n + 8 ≤ size st.mem y) :
    ∃ c avail', (MissyKernel.takeBlock st n prev y).1 = c.addr + 8 ∧ c.size = n ∧
      Rep base lo hi (MissyKernel.takeBlock st n prev y).2 avail' (c :: live) ∧
      ∀ m, m ∣ n → BlocksAligned m avail → BlocksAligned m (c :: avail') := by
  have hy : y ∈ avail.map Block.addr := by
    rcases List.mem_append.mp (hnext ▸ h.ring.succ_mem hprev) with hy | hy
    · exact hy
    · have hbase := h.baseSize
      rw [List.mem_singleton.mp hy] at hfit
      omega
  obtain ⟨b, hb, rfl⟩ := List.mem_map.mp hy
  obtain ⟨s, t, rfl⟩ := List.append_of_mem hb
  have hring := h.ring
  rw [List.map_append, List.map_cons] at hring
  have heq : prev = lastNode base s :=
    h.ring.injOn h.nodup hprev (lastNode_mem base s (b :: t)) (hnext.trans hring.succ_getLastD.symm)
  rw [h.sizes b (List.mem_append_left _ hb)] at hfit
  subst heq
  exact h.takeBlock hn hfit

theorem avail_lt_top {hi : ℕ} (h : Rep base lo hi st avail live) : ∀ w ∈ avail, w.addr < hi := by
  intro w hw
  have hin := h.blocks.inside w (List.mem_append_left _ hw)
  have hbig := h.blocks.big w (List.mem_append_left _ hw)
  simp only [Block.fin] at hin
  omega

theorem lastNode_lt_top {hi : ℕ} (h : Rep base lo hi st avail live) : lastNode base avail < hi := by
  refine lastNode_lt ?_ h.avail_lt_top
  have hbelow := h.baseBelow
  have htotal := h.blocks.total
  omega

theorem lastNode_mem_list (base : ℕ) (avail : List Block) :
    lastNode base avail ∈ base :: avail.map Block.addr := by
  simpa using lastNode_mem base avail []

/-- `morecore` when `sbrk` has the memory and `free` does not merge: one more free block,
at the end of the list. -/
theorem morecore (hsbrk : ContiguousSbrk sbrk top)
    (h : Rep base lo (top st.system) st avail live) (hn : n + 8 < 2 ^ 32)
    (hgranted : (sbrk st.system (morecoreRequest n)).1 ≠ sbrkFailed)
    (hup : addHeaders (top st.system) (morecoreRequest n) ≠ base)
    (hdown : addHeaders (lastNode base avail) (size st.mem (lastNode base avail)) ≠
      top st.system) :
    ∃ st', (∀ fuel, avail.length < fuel →
        MissyKernel.morecore sbrk fuel st n = some (top st.system, st')) ∧
      Rep base lo (top st'.system) st' (avail ++ [⟨top st.system, morecoreRequest n⟩]) live ∧
      st'.nextFree = lastNode base avail ∧
      st'.system = (sbrk st.system (morecoreRequest n)).2 := by
  obtain ⟨hreturned, htop, hend⟩ := hsbrk.granted _ _ hgranted
  have hbounds := morecoreRequest_bounds hn
  have hgrow := h.grow (n := morecoreRequest n) (by omega) hend
    (sbrk st.system (morecoreRequest n)).2
  have hlast := lastNode_mem_list base avail
  have hbelow := h.avail_lt_top
  have hgrow' := hgrow
  rw [← List.append_nil avail] at hgrow
  have hlive := List.mem_cons_self (a := (⟨top st.system, morecoreRequest n⟩ : Block)) (l := live)
  have hnode : (top st.system + headerSize) % 2 ^ 32 = top st.system + 8 := by
    rw [headerSize]
    omega
  have hnextbase : next (st.grown (sbrk st.system (morecoreRequest n)).2 (top st.system)
      (morecoreRequest n)).mem (lastNode base avail) = base := by
    have hring := hgrow.ring
    rw [List.append_nil] at hring
    exact hring.succ_last
  have hsize := h.size_eq hgrow' (List.Subset.refl avail) hlast
  refine ⟨(st.grown (sbrk st.system (morecoreRequest n)).2 (top st.system)
    (morecoreRequest n)).linked (top st.system) (lastNode base avail), fun fuel hfuel => ?_, ?_,
    rfl, rfl⟩
  · rw [morecore_granted hgranted, hreturned, hnode]
    rw [hgrow.free_eq hlive hbelow (List.forall_mem_nil _) (hnextbase.symm ▸ hup)
      (hsize.symm ▸ hdown) (by simpa using hfuel), Option.map_some]
  · have hrelease := hgrow.release hbelow (List.forall_mem_nil _)
    rwa [← htop] at hrelease

/-- From the last header on the list the loop comes round to `_next_free`, when that is the
one before and the others are too small. -/
theorem loop_around {hi : ℕ} {c : Block} (h : Rep base lo hi st (avail ++ [c]) live)
    (sbrk : σ → ℕ → ℕ × σ) (n : ℕ)
    (hcurrent : st.nextFree = lastNode base avail)
    (hsmall : ∀ x ∈ base :: avail.map Block.addr, x ≠ lastNode base avail → size st.mem x < n) :
    ∃ k prev, prev ∈ base :: (avail ++ [c]).map Block.addr ∧ next st.mem prev = st.nextFree ∧
      ∀ fuel, mallocLoop sbrk n (fuel + k) c.addr (next st.mem c.addr) st =
        mallocLoop sbrk n fuel prev st.nextFree st := by
  have hring := h.ring
  have hnodup := h.nodup
  rw [List.map_append, List.map_singleton] at hring hnodup
  obtain ⟨q, hq, hmem⟩ := hring.around (List.nodup_append.mp hnodup).1
  rw [hcurrent]
  refine ⟨q.length, q.getLastD c.addr, ?_, hq.succ_last, fun fuel => ?_⟩
  · rw [List.map_append, List.map_singleton, ← List.cons_append]
    rcases List.mem_cons.mp (show q.getLastD c.addr ∈ c.addr :: q by
      simpa using getLastD_mem q [] c.addr) with heq | hin
    · rw [heq]
      exact List.mem_append_right _ (List.mem_singleton_self _)
    · exact List.mem_append_left _ (hmem _ hin).1
  · exact mallocLoop_skip hq (fun x hx => ⟨hsmall x (hmem x hx).1 (hmem x hx).2,
      hcurrent.symm ▸ (hmem x hx).2⟩) fuel

end Rep

/-! ## The calls -/

theorem allocationSize_eq (hn : n + 8 < 2 ^ 32) : (n + headerSize) % 2 ^ 32 = n + 8 :=
  Nat.mod_eq_of_lt hn

/-- What `malloc n` may have done: it failed, with the blocks as they were up to new free
ones, or `p` is the payload of a new live block. -/
def Allocated (base lo : ℕ) (top : σ → ℕ) (live : List Block) (n p : ℕ) (st : Allocator σ) :
    Prop :=
  (p = 0 ∧ ∃ avail, Rep base lo (top st.system) st avail live) ∨
    ∃ c avail, p = c.addr + headerSize ∧ c.size = n + headerSize ∧
      Rep base lo (top st.system) st avail (c :: live)

/-- Some block on the list has room for `n` bytes and their header. -/
def Fits (st : Allocator σ) (n : ℕ) : Prop := ∃ x, OnList st x ∧ n + headerSize ≤ size st.mem x

/-- What `malloc n` does when nothing on the list fits: a request that is refused at once
ends it, otherwise there is a second one, and that one decides. -/
def Grew (sbrk : σ → ℕ → ℕ × σ) (st : Allocator σ) (n p : ℕ) (st' : Allocator σ) : Prop :=
  let request := morecoreRequest (n + headerSize)
  let first := sbrk st.system request
  let second := sbrk first.2 request
  (first.1 = sbrkFailed ∧ p = 0 ∧ st' = { st with system := first.2, errno := enomem }) ∨
    (first.1 ≠ sbrkFailed ∧ st'.system = second.2 ∧ (p = 0 ↔ second.1 = sbrkFailed))

/-- `p` is taken out of the block behind a node, all of it or its end. -/
def TakenFrom (base : ℕ) (avail : List Block) (st : Allocator σ) (n p : ℕ) (st' : Allocator σ) :
    Prop :=
  ∃ prev ∈ base :: avail.map Block.addr,
    (size st.mem (next st.mem prev) = n + 8 ∨ n + 8 + 8 ≤ size st.mem (next st.mem prev)) ∧
      takeBlock st (n + 8) prev (next st.mem prev) = (p, st')

/-- The ways a clean `malloc n` goes on a represented heap. -/
inductive MallocOutcome (sbrk : σ → ℕ → ℕ × σ) (top : σ → ℕ) (base lo : ℕ)
    (avail live : List Block) (st : Allocator σ) (n p : ℕ) (st' : Allocator σ) : Prop
  /-- a block on the list fits -/
  | fit (hfits : Fits st n) (htaken : TakenFrom base avail st n p st')
  /-- the first request is refused -/
  | refused (hnone : ¬ Fits st n)
      (hfirst : (sbrk st.system (morecoreRequest (n + 8))).1 = sbrkFailed)
      (hp : p = 0) (hst : st' = { st with
        system := (sbrk st.system (morecoreRequest (n + 8))).2
        errno := enomem })
  /-- the second request is refused, and the memory of the first stays on the list -/
  | halfway (st₁ : Allocator σ) (hnone : ¬ Fits st n)
      (hfirst : (sbrk st.system (morecoreRequest (n + 8))).1 ≠ sbrkFailed)
      (hsystem : st₁.system = (sbrk st.system (morecoreRequest (n + 8))).2)
      (hrep : Rep base lo (top st₁.system) st₁
        (avail ++ [⟨top st.system, morecoreRequest (n + 8)⟩]) live)
      (hsecond : (sbrk st₁.system (morecoreRequest (n + 8))).1 = sbrkFailed)
      (hp : p = 0) (hst : st' = { st₁ with
        system := (sbrk st₁.system (morecoreRequest (n + 8))).2
        errno := enomem })
  /-- both are granted, and the block is taken out of the memory of the first -/
  | grown (st₁ st₂ : Allocator σ) (hnone : ¬ Fits st n)
      (hfirst : (sbrk st.system (morecoreRequest (n + 8))).1 ≠ sbrkFailed)
      (hsystem : st₁.system = (sbrk st.system (morecoreRequest (n + 8))).2)
      (hsecond : (sbrk st₁.system (morecoreRequest (n + 8))).1 ≠ sbrkFailed)
      (hsystem' : st₂.system = (sbrk st₁.system (morecoreRequest (n + 8))).2)
      (hrep : Rep base lo (top st₂.system) st₂
        (avail ++ [⟨top st.system, morecoreRequest (n + 8)⟩] ++
          [⟨top st₁.system, morecoreRequest (n + 8)⟩]) live)
      (htaken : TakenFrom base (avail ++ [⟨top st.system, morecoreRequest (n + 8)⟩] ++
        [⟨top st₁.system, morecoreRequest (n + 8)⟩]) st₂ n p st')

namespace Rep

theorem fits_iff {hi : ℕ} (h : Rep base lo hi st avail live) :
    Fits st n ↔ ∃ x ∈ base :: avail.map Block.addr, n + 8 ≤ size st.mem x := by
  simp only [Fits, h.onList, headerSize]

/-- What is taken out of a block in memory is not at the address zero. -/
theorem takeBlock_ne_null {prev y : ℕ} (hn : 8 ≤ n) (hfit : n ≤ size st.mem y)
    (hend : y + size st.mem y < 2 ^ 32) : (MissyKernel.takeBlock st n prev y).1 ≠ 0 := by
  unfold MissyKernel.takeBlock
  by_cases hexact : size st.mem y = n
  · rw [if_pos hexact, headerSize]
    change (y + 8) % 2 ^ 32 ≠ 0
    omega
  · rw [if_neg hexact, headerSize]
    change ((y + size (setSize st.mem y (size st.mem y - n)) y) % 2 ^ 32 + 8) % 2 ^ 32 ≠ 0
    rw [size_setSize_self st.mem (by omega)]
    omega

/-- Its header has the size that was asked for. -/
theorem takeBlock_size {prev y : ℕ} (hapart : prev = y ∨ prev + 8 ≤ y ∨ y + 8 ≤ prev)
    (hn : 8 ≤ n) (hfit : n ≤ size st.mem y) (hend : y + size st.mem y < 2 ^ 32) :
    size (MissyKernel.takeBlock st n prev y).2.mem
      ((MissyKernel.takeBlock st n prev y).1 - headerSize) = n := by
  unfold MissyKernel.takeBlock
  by_cases hexact : size st.mem y = n
  · rw [if_pos hexact, headerSize]
    change size (setNext st.mem prev (next st.mem y)) ((y + 8) % 2 ^ 32 - 8) = n
    rw [Nat.mod_eq_of_lt (by omega), Nat.add_sub_cancel, size_setNext hapart, hexact]
  · rw [if_neg hexact, headerSize]
    change size (setSize _ ((y + size (setSize st.mem y (size st.mem y - n)) y) % 2 ^ 32) n)
      (((y + size (setSize st.mem y (size st.mem y - n)) y) % 2 ^ 32 + 8) % 2 ^ 32 - 8) = n
    rw [size_setSize_self st.mem (by omega), Nat.mod_eq_of_lt (a := y + _) (by omega),
      Nat.mod_eq_of_lt (by omega), Nat.add_sub_cancel, size_setSize_self _ (by omega)]

theorem takeBlock_system (st : Allocator σ) (n prev y : ℕ) :
    (MissyKernel.takeBlock st n prev y).2.system = st.system := by
  unfold MissyKernel.takeBlock
  split <;> rfl

/-- The bytes of a header on the list lie below the break. -/
theorem list_fin {hi x : ℕ} (h : Rep base lo hi st avail live)
    (hx : x ∈ base :: avail.map Block.addr) : x + size st.mem x ≤ hi := by
  rcases List.mem_cons.mp hx with rfl | hx
  · have hbelow := h.baseBelow
    have htotal := h.blocks.total
    rw [h.baseSize]
    omega
  · obtain ⟨b, hb, rfl⟩ := List.mem_map.mp hx
    have hb := List.mem_append_left live hb
    rw [h.sizes b hb]
    exact (h.blocks.inside b hb).2

/-- The search of `malloc` takes the first block that fits, or comes round to where it
started. -/
theorem search {hi k : ℕ} (h : Rep base lo hi st avail live)
    (hk : (n + headerSize) % 2 ^ 32 = k) :
    (∃ prev y steps, prev ∈ base :: avail.map Block.addr ∧ next st.mem prev = y ∧
        FirstFit st k y ∧ ∀ (sbrk : σ → ℕ → ℕ × σ) (fuel : ℕ),
          MissyKernel.malloc sbrk base (fuel + 1 + steps) st n =
            some (MissyKernel.takeBlock st k prev y)) ∨
      (∀ x ∈ base :: avail.map Block.addr, size st.mem x < k) ∧
        ∃ prev steps, ∀ (sbrk : σ → ℕ → ℕ × σ) (fuel : ℕ),
          MissyKernel.malloc sbrk base (fuel + steps) st n =
            mallocLoop sbrk k fuel prev st.nextFree st := by
  simp only [MissyKernel.malloc, h.startList_eq, hk]
  obtain ⟨r, hrotated, hperm⟩ := h.ring.rotate h.current
  have hnotin := (List.nodup_cons.mp (hperm.nodup_iff.mpr h.nodup)).1
  have hlist : ∀ x ∈ st.nextFree :: r, x ∈ base :: avail.map Block.addr := fun x hx =>
    hperm.mem_iff.mp hx
  rcases hrotated.find_first (fun x => k ≤ size st.mem x) with
    ⟨s, y, hs, hfit, hpassed⟩ | hnone
  · -- a free block is large enough
    have hfirst : FirstFit st k y := ⟨s.length, hs.iterate_length, hfit, fun j hj =>
      Nat.lt_of_not_le (hpassed _ (hs.iterate_lt hj)).2⟩
    have hprev : s.getLastD st.nextFree ∈ st.nextFree :: r := by
      have hmem := getLastD_mem s [] st.nextFree
      rw [List.append_nil] at hmem
      exact List.mem_cons.mpr ((List.mem_cons.mp hmem).imp_right fun hin => (hpassed _ hin).1)
    refine .inl ⟨s.getLastD st.nextFree, y, s.length, hlist _ hprev, hs.succ_last, hfirst,
      fun _ fuel => ?_⟩
    rw [mallocLoop_skip hs fun x hx => ⟨Nat.lt_of_not_le (hpassed x hx).2, ?_⟩]
    · exact mallocLoop_fit hfit fuel
    · exact fun heq => hnotin (heq ▸ (hpassed x hx).1)
  · -- none is: the loop comes round to where it started
    have hsmall : ∀ x ∈ base :: avail.map Block.addr, size st.mem x < k := fun x hx => by
      have hx := hperm.mem_iff.mpr hx
      refine Nat.lt_of_not_le (hnone x ?_)
      rcases List.mem_cons.mp hx with rfl | hx
      · exact List.mem_append_right _ (List.mem_singleton_self _)
      · exact List.mem_append_left _ hx
    refine .inr ⟨hsmall, r.getLastD st.nextFree, r.length, fun _ fuel => ?_⟩
    exact mallocLoop_skip hrotated (fun x hx =>
      ⟨hsmall x (hlist x (List.mem_cons_of_mem _ hx)), fun heq => hnotin (heq ▸ hx)⟩) fuel

/-- What is taken is a live block. -/
theorem taken {hi p : ℕ} (h : Rep base lo hi st avail live)
    (htaken : TakenFrom base avail st n p st') :
    p ≠ 0 ∧ st'.system = st.system ∧ ∃ c avail', p = c.addr + headerSize ∧
      c.size = n + headerSize ∧ Rep base lo hi st' avail' (c :: live) ∧
      ∀ m, m ∣ n + headerSize → BlocksAligned m avail → BlocksAligned m (c :: avail') := by
  obtain ⟨prev, hprev, hround, htake⟩ := htaken
  obtain ⟨c, avail', hp, hc, hrep, haligned⟩ := h.takeFrom hprev rfl (by omega) hround
  rw [htake] at hp hrep
  have hp : p = c.addr + 8 := hp
  have hsystem := takeBlock_system st (n + 8) prev (next st.mem prev)
  rw [htake] at hsystem
  exact ⟨by omega, hsystem, c, avail', hp, hc, hrep, haligned⟩

/-- A failed request leaves the blocks. -/
theorem failed (hsbrk : ContiguousSbrk sbrk top) (h : Rep base lo (top st.system) st avail live)
    {request : ℕ} (hfail : (sbrk st.system request).1 = sbrkFailed) (e : ℕ) :
    Rep base lo (top (sbrk st.system request).2)
      { st with system := (sbrk st.system request).2, errno := e } avail live := by
  rw [hsbrk.failed _ _ hfail]
  exact h.congr rfl (fun _ _ => rfl) fun _ _ => rfl

/-- Back at `_next_free` with all free blocks too small: `morecore` is called, the loop comes
round to the node in front of the new memory, `morecore` is called again, and the loop
comes round to the first of the two new blocks. -/
theorem loop_grow (hsbrk : ContiguousSbrk sbrk top) (h : Rep base lo (top st.system) st avail live)
    (hn : n + 16 < 2 ^ 32) (hsmall : ∀ x ∈ base :: avail.map Block.addr, size st.mem x < n + 8)
    (hgrows : GrowsClean sbrk base st (n + 8)) (prev : ℕ) :
    ∃ fuel p st', mallocLoop sbrk (n + 8) fuel prev st.nextFree st = some (p, st') ∧
      MallocOutcome sbrk top base lo avail live st n p st' := by
  obtain ⟨hrequest, -, -⟩ := morecoreRequest_bounds (n := n + 8) (by omega)
  have hnone : ¬ Fits st n := fun hfits => by
    obtain ⟨x, hx, hfit⟩ := h.fits_iff.mp hfits
    exact absurd hfit (Nat.not_le.mpr (hsmall x hx))
  by_cases hfail : (sbrk st.system (morecoreRequest (n + 8))).1 = sbrkFailed
  · exact ⟨1, 0, _, mallocLoop_failed (hsmall _ h.current) hfail 0, .refused hnone hfail rfl rfl⟩
  -- the first block
  obtain ⟨hreturned, -, hend⟩ := hsbrk.granted _ _ hfail
  obtain ⟨hclean, hclean'⟩ := hgrows hfail
  have hlast := lastNode_mem_list base avail
  have hbounds := h.node_bounds (mem_nodes_of_list live hlast)
  have hnext : next st.mem (lastNode base avail) = base := h.ring.succ_last
  have hlt : lastNode base avail < top st.system := h.lastNode_lt_top
  obtain ⟨hup, hdown⟩ := hclean (lastNode base avail) (h.onList.mpr hlast)
    (.inr ⟨hnext.symm ▸ hbounds.1, .inl (hreturned.symm ▸ hlt)⟩)
  rw [hreturned] at hup hdown
  obtain ⟨st₁, hmore₁, h₁, hcurrent₁, hsystem₁⟩ := h.morecore hsbrk (by omega) hfail
    (hnext ▸ hup) hdown
  have hsize₁ : ∀ x ∈ base :: avail.map Block.addr, size st₁.mem x < n + 8 := fun x hx =>
    h.size_eq h₁ (List.subset_append_left avail _) hx ▸ hsmall x hx
  obtain ⟨k₁, prev₁, -, -, haround₁⟩ := h₁.loop_around sbrk (n + 8) hcurrent₁
    fun x hx _ => hsize₁ x hx
  have hpos : top st.system ≠ 0 := Nat.ne_zero_of_lt hlt
  have hsmall₁ : size st₁.mem st₁.nextFree < n + 8 := hsize₁ _ (hcurrent₁ ▸ hlast)
  by_cases hfail' : (sbrk st₁.system (morecoreRequest (n + 8))).1 = sbrkFailed
  · refine ⟨avail.length + 1 + k₁ + 1, 0, _, ?_,
      .halfway st₁ hnone hfail hsystem₁ h₁ hfail' rfl rfl⟩
    rw [mallocLoop_more (hsmall _ h.current) (hmore₁ _ (by omega)) hpos, haround₁]
    exact mallocLoop_failed hsmall₁ hfail' _
  -- the second block, above the first one
  have htop₁ : top st₁.system = top st.system + morecoreRequest (n + 8) :=
    hsystem₁ ▸ (hsbrk.granted _ _ hfail).2.1
  have hlast₁ : lastNode base (avail ++ [⟨top st.system, morecoreRequest (n + 8)⟩]) =
      top st.system := by
    rw [lastNode, List.map_append, List.map_singleton, List.getLastD_concat]
  have hsizelast₁ : size st₁.mem (top st.system) = morecoreRequest (n + 8) :=
    h₁.sizes ⟨top st.system, morecoreRequest (n + 8)⟩ (by simp)
  obtain ⟨st₂, hmore₂, h₂, hcurrent₂, hsystem₂⟩ := h₁.morecore hsbrk (by omega) hfail'
    (by
      have hreturned₁ := (hsbrk.granted _ _ hfail').1
      rw [← hreturned₁]
      rw [hsystem₁] at hfail' ⊢
      exact hclean' hfail')
    (by
      rw [hlast₁, hsizelast₁, htop₁]
      exact addHeaders_ne_end (by omega) hend)
  have hsizelast₂ : size st₂.mem (top st.system) = morecoreRequest (n + 8) :=
    h₂.sizes ⟨top st.system, morecoreRequest (n + 8)⟩ (by simp)
  obtain ⟨k₂, prev₂, hprev₂, hnext₂, haround₂⟩ := h₂.loop_around sbrk (n + 8)
    hcurrent₂ fun x hx hne => by
      rw [hlast₁] at hne
      have hx' : x ∈ base :: avail.map Block.addr := by
        simpa [hne] using hx
      rw [h.size_eq h₂ (fun w hw => by simp [hw]) hx']
      exact hsmall x hx'
  rw [hcurrent₂, hlast₁] at hnext₂ haround₂
  refine ⟨avail.length + 1 + 1 + k₂ + 1 + k₁ + 1, _, _, ?_, .grown st₁ st₂ hnone hfail hsystem₁
    hfail' hsystem₂ h₂ ⟨prev₂, hprev₂, .inr (by rw [hnext₂]; omega), rfl⟩⟩
  rw [mallocLoop_more (hsmall _ h.current) (hmore₁ _ (by omega)) hpos, haround₁,
    mallocLoop_more hsmall₁ (hmore₂ _ (by simp; omega)) (by omega), haround₂, hnext₂]
  exact mallocLoop_fit (by omega) _

/-- **`malloc`.** On a represented heap a clean call returns, in one of four ways. -/
theorem malloc (hsbrk : ContiguousSbrk sbrk top) (h : Rep base lo (top st.system) st avail live)
    (hn : n + 16 < 2 ^ 32) (hclean : MallocClean sbrk base st n) :
    ∃ fuel p st', MissyKernel.malloc sbrk base fuel st n = some (p, st') ∧
      MallocOutcome sbrk top base lo avail live st n p st' := by
  obtain ⟨hround, hgrows⟩ := hclean
  simp only [h.startList_eq, headerSize] at hround hgrows
  rcases h.search (allocationSize_eq (n := n) (by omega)) with
    ⟨prev, y, k, hprev, rfl, hfirst, hmalloc⟩ | ⟨hsmall, prev, k, hmalloc⟩
  · obtain ⟨j, hj, hfit, -⟩ := id hfirst
    exact ⟨0 + 1 + k, _, _, hmalloc sbrk 0, .fit ⟨_, ⟨j + 1, hj⟩, hfit⟩
      ⟨prev, hprev, hround _ hfirst, rfl⟩⟩
  · obtain ⟨fuel, p, st', hloop, houtcome⟩ := h.loop_grow hsbrk hn hsmall
      (hgrows fun x hx => hsmall x (h.onList.mp hx)) prev
    exact ⟨fuel + k, p, st', (hmalloc sbrk fuel).trans hloop, houtcome⟩

end Rep

/-- What is a multiple of `m` before a call for `n` bytes is one afterwards: the break, and the
blocks that are or were free. -/
def KeepsAligned (top : σ → ℕ) (n : ℕ) (st : Allocator σ) (avail : List Block) (st' : Allocator σ)
    (avail' : List Block) : Prop :=
  ∀ m, m ∣ headerSize → m ∣ n → m ∣ top st.system → BlocksAligned m avail →
    m ∣ top st'.system ∧ BlocksAligned m avail'

theorem dvd_morecoreRequest {m : ℕ} (h8 : m ∣ headerSize) (hn : m ∣ n) :
    m ∣ morecoreRequest (n + headerSize) := by
  have hword : m ∣ 2 ^ 32 := h8.trans (by decide)
  rw [morecoreRequest]
  split
  · exact h8.trans (by decide)
  · exact (Nat.dvd_mod_iff hword).mpr (Nat.dvd_add (Nat.dvd_add hn h8) h8)

/-- The blocks after a call: what it returns is a live one. -/
theorem MallocOutcome.blocks (hsbrk : ContiguousSbrk sbrk top) {p : ℕ}
    (h : Rep base lo (top st.system) st avail live)
    (houtcome : MallocOutcome sbrk top base lo avail live st n p st') :
    (p = 0 ∧ ∃ avail', Rep base lo (top st'.system) st' avail' live ∧
        KeepsAligned top n st avail st' avail') ∨
      ∃ c avail', p = c.addr + headerSize ∧ c.size = n + headerSize ∧
        Rep base lo (top st'.system) st' avail' (c :: live) ∧
        KeepsAligned top n st avail st' (c :: avail') := by
  cases houtcome with
  | fit hfits htaken =>
    obtain ⟨-, hsystem, c, avail', hp, hc, hrep, haligned⟩ := h.taken htaken
    refine .inr ⟨c, avail', hp, hc, hsystem.symm ▸ hrep, fun m h8 hn htop havail => ?_⟩
    exact ⟨hsystem.symm ▸ htop, haligned m (Nat.dvd_add hn h8) havail⟩
  | refused hnone hfirst hp hst =>
    subst hst
    refine .inl ⟨hp, avail, h.failed hsbrk hfirst enomem, fun m h8 hn htop havail => ⟨?_, havail⟩⟩
    exact (hsbrk.failed _ _ hfirst).symm ▸ htop
  | halfway st₁ hnone hfirst hsystem hrep hsecond hp hst =>
    subst hst
    refine .inl ⟨hp, _, hrep.failed hsbrk hsecond enomem, fun m h8 hn htop havail => ?_⟩
    have hrequest := dvd_morecoreRequest h8 hn
    have htop₁ : m ∣ top st₁.system := by
      rw [hsystem, (hsbrk.granted _ _ hfirst).2.1]
      exact Nat.dvd_add htop hrequest
    exact ⟨(hsbrk.failed _ _ hsecond).symm ▸ htop₁, blocksAligned_append.mpr ⟨havail,
      List.forall_mem_singleton.mpr ⟨htop, hrequest⟩⟩⟩
  | grown st₁ st₂ hnone hfirst hsystem hsecond hsystem' hrep htaken =>
    obtain ⟨-, hsystem'', c, avail', hp, hc, hrep, haligned⟩ := hrep.taken htaken
    refine .inr ⟨c, avail', hp, hc, hsystem''.symm ▸ hrep, fun m h8 hn htop havail => ?_⟩
    have hrequest := dvd_morecoreRequest h8 hn
    have htop₁ : m ∣ top st₁.system := by
      rw [hsystem, (hsbrk.granted _ _ hfirst).2.1]
      exact Nat.dvd_add htop hrequest
    have htop₂ : m ∣ top st₂.system := by
      rw [hsystem', (hsbrk.granted _ _ hsecond).2.1]
      exact Nat.dvd_add htop₁ hrequest
    exact ⟨hsystem''.symm ▸ htop₂, haligned m (Nat.dvd_add hn h8) (blocksAligned_append.mpr
      ⟨blocksAligned_append.mpr ⟨havail, List.forall_mem_singleton.mpr ⟨htop, hrequest⟩⟩,
        List.forall_mem_singleton.mpr ⟨htop₁, hrequest⟩⟩)⟩

/-- What it returns is right. -/
theorem MallocOutcome.allocated (hsbrk : ContiguousSbrk sbrk top) {p : ℕ}
    (h : Rep base lo (top st.system) st avail live)
    (houtcome : MallocOutcome sbrk top base lo avail live st n p st') :
    Allocated base lo top live n p st' :=
  (houtcome.blocks hsbrk h).imp (fun ⟨hp, avail', hrep, _⟩ => ⟨hp, avail', hrep⟩)
    fun ⟨c, avail', hp, hc, hrep, _⟩ => ⟨c, avail', hp, hc, hrep⟩

/-- Nothing fits, so there are requests. -/
theorem MallocOutcome.grew {p : ℕ} (houtcome : MallocOutcome sbrk top base lo avail live st n p st')
    (hnone : ¬ Fits st n) : Grew sbrk st n p st' := by
  cases houtcome with
  | fit hfits htaken => exact absurd hfits hnone
  | refused _ hfirst hp hst => exact .inl ⟨hfirst, hp, hst⟩
  | halfway st₁ _ hfirst hsystem hrep hsecond hp hst =>
    rw [hsystem] at hsecond hst
    subst hst
    exact .inr ⟨hfirst, rfl, fun _ => hsecond, fun _ => hp⟩
  | grown st₁ st₂ _ hfirst hsystem hsecond hsystem' hrep htaken =>
    obtain ⟨hp, htaken, -⟩ := hrep.taken htaken
    rw [hsystem] at hsecond hsystem'
    exact .inr ⟨hfirst, htaken.trans hsystem', fun hnull => absurd hnull hp,
      fun hrefused => absurd hrefused hsecond⟩

namespace Rep

/-- **`free`.** On a represented heap a clean call on a live block returns. -/
theorem free {hi : ℕ} {b : Block} (h : Rep base lo hi st avail (b :: live))
    (hclean : FreeClean st (b.addr + 8)) :
    ∃ fuel st' avail', MissyKernel.free fuel st (b.addr + 8) = some st' ∧
      st'.system = st.system ∧ Rep base lo hi st' avail' live ∧ avail'.Perm (b :: avail) := by
  have hb : b ∈ avail ++ b :: live := List.mem_append_right _ List.mem_cons_self
  have hin := h.blocks.inside b hb
  have hbelow := h.baseBelow
  have hnew : b.addr ∉ avail.map Block.addr := by
    intro hmem
    obtain ⟨c, hc, heq⟩ := List.mem_map.mp hmem
    have hcb := h.blocks.eq_of_addr (by decide) (List.mem_append_left _ hc) hb heq
    exact (List.nodup_append.mp (h.blocks.nodup (by decide))).2.2 c hc b List.mem_cons_self hcb
  obtain ⟨addrs, addrs', hsplit, hs, ht⟩ := exists_split_at h.ascending hnew
  obtain ⟨s, t, rfl, rfl, rfl⟩ := List.map_eq_append_iff.mp hsplit
  rw [List.forall_mem_map] at hs ht
  have hlast := lastNode_mem base s t
  obtain ⟨hup, hdown⟩ := hclean (lastNode base s) (h.onList.mpr hlast)
    ((h.freeStops_iff (by omega) hs ht hlast).mpr rfl)
  rw [headerSize, Nat.add_sub_cancel, h.sizes b hb] at hup
  rw [headerSize, Nat.add_sub_cancel] at hdown
  exact ⟨(s ++ t).length + 1, _, s ++ b :: t,
    h.free_eq List.mem_cons_self hs ht hup hdown (Nat.lt_succ_self _), rfl, h.release hs ht,
    List.perm_middle⟩

end Rep

end MissyKernel
