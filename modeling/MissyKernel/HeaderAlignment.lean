import MissyKernel.MallocRuns

/-!
# Alignment of headers

The union behind a header is there for its alignment, but `malloc` does not round a size up
to a multiple of anything, and blocks are cut off at the end. What keeps headers aligned is
the sizes that callers ask for. Multiples of four are enough where the calls stay clean;
where they do not, headers may come to lie across each other, and it takes multiples of
eight, the size of a header, to keep them apart.

The first of the two cases goes through the represented heap: sizes and addresses of all blocks
are multiples of four. The second one has no heap to go by, because the calls may be unclean; its
invariant is on memory (`Spaced`): all headers the list can come to are multiples of eight, so
that two of them are the same or apart, whatever they say about sizes.
-/

namespace MissyKernel

variable {σ : Type} {base n fuel : ℕ} {sbrk : σ → ℕ → ℕ × σ} {top : σ → ℕ}

/-- The alignment of `_mheader_t`, a pointer and two words of 32 bits. -/
def headerAlign : ℕ := 4

/-- The pointers that callers hold are aligned, and the headers on the free list. -/
structure HeadersAligned (st : MallocRun σ) : Prop where
  pointers : ∀ x ∈ st.live, headerAlign ∣ x.1
  headers : st.alloc.nextFree ≠ 0 → ∀ x, OnList st.alloc x → headerAlign ∣ x

/-- A `malloc` of any size, or a `free` of a live pointer. -/
def MallocCall.Plain (st : MallocRun σ) : MallocCall → Prop
  | .malloc nbytes => nbytes < 2 ^ 32
  | .free block => ∃ x ∈ st.live, x.1 = block
  | .store _ _ => False

/-- The states of sequences of such calls, where each call meets `P`. -/
inductive PlainReach (sbrk : σ → ℕ → ℕ × σ) (base : ℕ) (P : MallocCall → Prop)
    (start : MallocRun σ) : MallocRun σ → Prop
  | start : PlainReach sbrk base P start start
  | call {st st' : MallocRun σ} {c : MallocCall} {fuel : ℕ} (h : PlainReach sbrk base P start st)
      (hplain : c.Plain st) (hc : P c) (hrun : c.run sbrk base fuel st = some st') :
      PlainReach sbrk base P start st'

/-! ## Clean calls -/

/-- In a run of clean calls that ask for multiples of `m` bytes all blocks are aligned. -/
theorem MallocReach.blocksAligned {m : ℕ} (h8 : m ∣ headerSize) {start : Allocator σ}
    {st : MallocRun σ}
    (h : MallocReach sbrk base (fun st c => c.Clean sbrk base st ∧ c.MultipleOf m) ⟨start, []⟩ st)
    (hsbrk : ContiguousSbrk sbrk top) (hstart : EmptyHeap base top start)
    (htop : m ∣ top start.system) :
    ∃ avail, Started base (top start.system) top st avail ∧ m ∣ top st.alloc.system ∧
      BlocksAligned m (avail ++ st.live.map liveBlock) := by
  induction h with
  | start => exact ⟨[], hstart.started, htop, List.forall_mem_nil _⟩
  | call _ hallowed hc hrun ih =>
    obtain ⟨avail, hstarted, htop, haligned⟩ := ih
    obtain ⟨fuel, st', avail', hrun', hrep, hkeeps⟩ := hstarted.call hsbrk hallowed hc.1
    rw [MallocCall.run_unique hrun hrun']
    exact ⟨avail', hrep.started, hkeeps m h8 hc.2 htop haligned⟩

theorem Started.headersAligned {lo : ℕ} {st : MallocRun σ} {avail : List Block}
    (h : Started base lo top st avail) (hbase : headerAlign ∣ base)
    (haligned : BlocksAligned headerAlign (avail ++ st.live.map liveBlock)) :
    HeadersAligned st where
  pointers x hx := by
    have hrep := h.rep
    rw [h.used.resolve_left (List.ne_nil_of_mem hx)] at hrep
    obtain ⟨hmem, haddr⟩ := Represents.mem_block hrep hx
    exact haddr ▸ Nat.dvd_add (haligned _ hmem).1 (by decide)
  headers hused x hx := by
    have hrep := h.rep
    rw [startList, if_neg hused] at hrep
    rcases List.mem_cons.mp (hrep.onList.mp hx) with rfl | hx
    · exact hbase
    · obtain ⟨b, hb, rfl⟩ := List.mem_map.mp hx
      exact (haligned b (List.mem_append_left _ hb)).1

/-! ## Headers at multiples of eight -/

/-- All headers are at multiples of eight, so that no two of them overlap in part, and have
sizes that are multiples of eight; the nodes of the free list are linked among themselves. -/
structure Spaced (mem : Mem) (nodes blocks : Set ℕ) : Prop where
  spaced : ∀ x ∈ nodes ∪ blocks, 8 ∣ x ∧ x < 2 ^ 32
  sizes : ∀ x ∈ nodes ∪ blocks, 8 ∣ size mem x
  linked : ∀ x ∈ nodes, next mem x ∈ nodes

theorem apart_of_spaced {x y : ℕ} (hx : 8 ∣ x) (hy : 8 ∣ y) : x = y ∨ x + 8 ≤ y ∨ y + 8 ≤ x := by
  omega

/-- The block in front of a pointer. -/
def blockOf (p : ℕ) : ℕ := (p + 2 ^ 32 - headerSize) % 2 ^ 32

theorem blockOf_add {x : ℕ} (hx : x < 2 ^ 32) : blockOf ((x + headerSize) % 2 ^ 32) = x := by
  rw [blockOf, headerSize]
  omega

namespace Spaced

variable {mem : Mem} {nodes blocks blocks' : Set ℕ} {x v b header : ℕ}

theorem mono (h : Spaced mem nodes blocks) (hsub : blocks' ⊆ blocks) : Spaced mem nodes blocks' :=
  ⟨fun x hx => h.spaced x (Set.union_subset_union_right nodes hsub hx),
    fun x hx => h.sizes x (Set.union_subset_union_right nodes hsub hx), h.linked⟩

/-- A link may be written into any header, into a node the link to a node. -/
theorem setNext (h : Spaced mem nodes blocks) (hx : 8 ∣ x) (hv : x ∈ nodes → v ∈ nodes) :
    Spaced (setNext mem x v) nodes blocks where
  spaced := h.spaced
  sizes y hy := by
    rw [size_setNext (apart_of_spaced hx (h.spaced y hy).1)]
    exact h.sizes y hy
  linked y hy := by
    rcases apart_of_spaced hx (h.spaced y (.inl hy)).1 with rfl | hapart
    · rw [next_setNext_self mem (h.spaced v (.inl (hv hy))).2]
      exact hv hy
    · rw [next_setNext_of_apart hapart]
      exact h.linked y hy

theorem size_setSize (mem : Mem) (x : ℕ) (hv : 8 ∣ v) :
    8 ∣ size (MissyKernel.setSize mem x v) x := by
  rw [show size (MissyKernel.setSize mem x v) x = v % 2 ^ 32 from Mem.read32_write32_self _ _ _]
  omega

/-- A multiple of eight may be written for the size of any header. -/
theorem setSize (h : Spaced mem nodes blocks) (hx : 8 ∣ x) (hv : 8 ∣ v) :
    Spaced (setSize mem x v) nodes blocks where
  spaced := h.spaced
  sizes y hy := by
    rcases apart_of_spaced hx (h.spaced y hy).1 with rfl | hapart
    · exact size_setSize mem x hv
    · rw [size_setSize_of_apart hapart]
      exact h.sizes y hy
  linked y hy := by
    rw [next_setSize (apart_of_spaced hx (h.spaced y (.inl hy)).1)]
    exact h.linked y hy

/-- A header becomes the header of a live block. -/
theorem addBlock (h : Spaced mem nodes blocks) (hx : 8 ∣ x) (hlt : x < 2 ^ 32)
    (hsize : 8 ∣ size mem x) : Spaced mem nodes (insert x blocks) := by
  have hcases : ∀ y ∈ nodes ∪ insert x blocks, y = x ∨ y ∈ nodes ∪ blocks := fun y hy =>
    hy.elim (fun hy => .inr (.inl hy)) fun hy => hy.imp id fun hy => .inr hy
  refine ⟨fun y hy => ?_, fun y hy => ?_, h.linked⟩
  · rcases hcases y hy with rfl | hy
    · exact ⟨hx, hlt⟩
    · exact h.spaced y hy
  · rcases hcases y hy with rfl | hy
    · exact hsize
    · exact h.sizes y hy

/-- A block becomes a node of the list, once it has its link. -/
theorem addNode (h : Spaced mem nodes blocks) (hb : b ∈ blocks)
    (hnext : next mem b ∈ insert b nodes) : Spaced mem (insert b nodes) blocks := by
  have hcases : ∀ y ∈ insert b nodes ∪ blocks, y ∈ nodes ∪ blocks := fun y hy =>
    hy.elim (fun hy => hy.elim (fun hyb => .inr (hyb.symm ▸ hb)) .inl) .inr
  refine ⟨fun y hy => h.spaced y (hcases y hy), fun y hy => h.sizes y (hcases y hy),
    fun y hy => ?_⟩
  rcases hy with rfl | hy
  · exact hnext
  · exact .inr (h.linked y hy)

theorem coalesceUp (h : Spaced mem nodes blocks) (hb : b ∈ blocks) (hheader : header ∈ nodes) :
    Spaced (coalesceUp mem b header) (insert b nodes) blocks := by
  have hb8 := (h.spaced b (.inr hb)).1
  have hnext := h.linked header hheader
  unfold MissyKernel.coalesceUp
  split
  · have hsizes := h.setSize hb8 (Nat.dvd_add (h.sizes b (.inr hb)) (h.sizes _ (.inl hnext)))
    have hlink := hsizes.linked _ (hsizes.linked header hheader)
    have hlinked := hsizes.setNext hb8 fun _ => hlink
    refine hlinked.addNode hb ?_
    rw [next_setNext_self _ (next_lt _ _)]
    exact .inr hlink
  · refine (h.setNext hb8 fun _ => hnext).addNode hb ?_
    rw [next_setNext_self _ (next_lt _ _)]
    exact .inr hnext

theorem coalesceDown (h : Spaced mem nodes blocks) (hb : b ∈ nodes) (hheader : header ∈ nodes) :
    Spaced (coalesceDown mem b header) nodes blocks := by
  have hheader8 := (h.spaced header (.inl hheader)).1
  unfold MissyKernel.coalesceDown
  split
  · have hsizes := h.setSize hheader8
      (Nat.dvd_add (h.sizes header (.inl hheader)) (h.sizes b (.inl hb)))
    exact hsizes.setNext hheader8 fun _ => hsizes.linked b hb
  · exact h.setNext hheader8 fun _ => hb

theorem iterate_mem (h : Spaced mem nodes blocks) (hx : x ∈ nodes) (k : ℕ) :
    (next mem)^[k] x ∈ nodes := by
  induction k with
  | zero => exact hx
  | succ k ih =>
    rw [Function.iterate_succ_apply']
    exact h.linked _ ih

variable {st st' : Allocator σ}

/-- `free`: the block is a node now, and `_next_free` is one. -/
theorem free {block : ℕ} (hfree : free fuel st block = some st') (h : Spaced st.mem nodes blocks)
    (hcurrent : st.nextFree ∈ nodes) (hb : blockOf block ∈ blocks) :
    ∃ nodes', Spaced st'.mem nodes' blocks ∧ st'.nextFree ∈ nodes' ∧ blockOf block ∈ nodes' ∧
      st'.system = st.system := by
  obtain ⟨header, hwalk, hmem, hnextFree, hsystem⟩ := free_cases hfree
  obtain ⟨k, -, hk, -⟩ := walk_eq_some_iff.mp hwalk
  have hheader : header ∈ nodes := hk ▸ h.iterate_mem hcurrent k
  have hdown := (h.coalesceUp hb hheader).coalesceDown (.inl rfl) (.inr hheader)
  rw [blockOf, ← hmem] at hdown
  exact ⟨_, hdown, hnextFree ▸ .inr hheader, .inl rfl, hsystem⟩

/-- `morecore`: the new memory is a node, and the break is where it should be. -/
theorem morecore (hsbrk : ContiguousSbrk sbrk top) (h : Spaced st.mem nodes blocks)
    (hcurrent : st.nextFree ∈ nodes) (htop : 8 ∣ top st.system) (hn : 8 ∣ n)
    (hmore : morecore sbrk fuel st n = some (header, st')) :
    8 ∣ top st'.system ∧ ∃ nodes', Spaced st'.mem nodes' blocks ∧ st'.nextFree ∈ nodes' ∧
      (header = 0 ∨ header ∈ nodes') := by
  have hrequest : 8 ∣ morecoreRequest n := by
    rw [morecoreRequest, headerSize, mallocMinSbrkRequest]
    split <;> omega
  rcases morecore_iff.mp hmore with ⟨hfail, heq⟩ | ⟨hgranted, st₁, hfree, heq⟩
  · cases heq
    exact ⟨(hsbrk.failed _ _ hfail).symm ▸ htop, nodes, h, hcurrent, .inl rfl⟩
  · cases heq
    obtain ⟨hreturned, hraised, hend⟩ := hsbrk.granted _ _ hgranted
    have hlt : (sbrk st.system (morecoreRequest n)).1 < 2 ^ 32 := by omega
    have hnew : 8 ∣ (sbrk st.system (morecoreRequest n)).1 := hreturned.symm ▸ htop
    have hblocks := (h.setSize hnew hrequest).addBlock hnew hlt (size_setSize st.mem _ hrequest)
    obtain ⟨nodes', h', hcurrent', hnode, hsystem⟩ := hblocks.free hfree hcurrent
      (.inl (blockOf_add hlt))
    rw [blockOf_add hlt] at hnode
    rw [hsystem]
    exact ⟨hraised.symm ▸ Nat.dvd_add htop hrequest, nodes', h'.mono (Set.subset_insert _ _),
      hcurrent', .inr hnode⟩

/-- A block is taken: its header is the one in front of the pointer. -/
theorem takeBlock {prev : ℕ} (h : Spaced st.mem nodes blocks) (hprev : prev ∈ nodes)
    (hheader : header ∈ nodes) (hn : 8 ∣ n) :
    8 ∣ (takeBlock st n prev header).1 ∧ (takeBlock st n prev header).2.nextFree = prev ∧
      Spaced (takeBlock st n prev header).2.mem nodes
        (insert (blockOf (takeBlock st n prev header).1) blocks) := by
  obtain ⟨hheader8, hlt⟩ := h.spaced header (.inl hheader)
  have hsize := h.sizes header (.inl hheader)
  unfold MissyKernel.takeBlock
  by_cases hexact : size st.mem header = n
  · simp only [if_pos hexact]
    refine ⟨by rw [headerSize]; omega, trivial, ?_⟩
    rw [blockOf_add hlt]
    have hlink := h.setNext (h.spaced prev (.inl hprev)).1 fun _ => h.linked header hheader
    exact hlink.addBlock hheader8 hlt (hlink.sizes header (.inl hheader))
  · simp only [if_neg hexact]
    have hrest := h.setSize hheader8 (Nat.dvd_sub hsize hn)
    have hnew : 8 ∣ (header + size (MissyKernel.setSize st.mem header
        (size st.mem header - n)) header) % 2 ^ 32 := by
      have hleft := hrest.sizes header (.inl hheader)
      omega
    have hnewlt : (header + size (MissyKernel.setSize st.mem header
        (size st.mem header - n)) header) % 2 ^ 32 < 2 ^ 32 := Nat.mod_lt _ (by decide)
    refine ⟨by rw [headerSize]; omega, trivial, ?_⟩
    rw [blockOf_add hnewlt]
    exact (hrest.setSize hnew hn).addBlock hnew hnewlt (size_setSize _ _ hn)

/-- The loop of `malloc`: the pointer is aligned, and in front of it is a header. -/
theorem mallocLoop (hsbrk : ContiguousSbrk sbrk top) (hn : 8 ∣ n) {prev p : ℕ}
    (h : Spaced st.mem nodes blocks) (hcurrent : st.nextFree ∈ nodes) (htop : 8 ∣ top st.system)
    (hprev : prev ∈ nodes) (hheader : header ∈ nodes)
    (hloop : mallocLoop sbrk n fuel prev header st = some (p, st')) :
    8 ∣ p ∧ 8 ∣ top st'.system ∧ ∃ nodes', st'.nextFree ∈ nodes' ∧
      Spaced st'.mem nodes' (if p = 0 then blocks else insert (blockOf p) blocks) := by
  induction fuel generalizing prev header st nodes with
  | zero => exact absurd hloop (by simp [MissyKernel.mallocLoop])
  | succ fuel ih =>
    rcases mallocLoop_succ_iff.mp hloop with
      ⟨-, htake⟩ | ⟨-, -, found, st₁, hmore, hrest⟩ | ⟨-, -, hrest⟩
    · obtain ⟨hp, hcurrent', htaken⟩ := h.takeBlock hprev hheader hn
      have hsystem := Rep.takeBlock_system st n prev header
      rw [htake] at hp hcurrent' htaken hsystem
      refine ⟨hp, hsystem.symm ▸ htop, nodes, hcurrent'.symm ▸ hprev, ?_⟩
      by_cases hnull : p = 0
      · rw [if_pos hnull]
        exact htaken.mono (Set.subset_insert _ _)
      · rw [if_neg hnull]
        exact htaken
    · obtain ⟨htop₁, nodes₁, h₁, hcurrent₁, hfound⟩ := h.morecore hsbrk hcurrent htop hn hmore
      rcases hrest with ⟨-, heq⟩ | ⟨hpos, hrest⟩
      · cases heq
        exact ⟨Nat.dvd_zero 8, htop₁, nodes₁, hcurrent₁, (if_pos rfl).symm ▸ h₁⟩
      · have hfound := hfound.resolve_left hpos
        exact ih h₁ hcurrent₁ htop₁ hfound (h₁.linked found hfound) hrest
    · exact ih h hcurrent htop hheader (h.linked header hheader) hrest

/-- The first lines of `malloc`: `_base` may be the first node. -/
theorem startList (h : Spaced st.mem nodes blocks) (hbase : 8 ∣ base) (hlt : base < 2 ^ 32)
    (hcurrent : st.nextFree = 0 ∨ st.nextFree ∈ nodes) :
    ∃ nodes', Spaced (startList base st).mem nodes' blocks ∧
      (startList base st).nextFree ∈ nodes' := by
  unfold MissyKernel.startList
  by_cases hunused : st.nextFree = 0
  · rw [if_pos hunused]
    have hlinked := (h.setNext (v := base) hbase id).setSize hbase (Nat.dvd_zero 8)
    have hblock := hlinked.addBlock hbase hlt (size_setSize _ _ (Nat.dvd_zero 8))
    refine ⟨insert base nodes, ?_, .inl rfl⟩
    refine (hblock.addNode (.inl rfl) (.inl ?_)).mono (Set.subset_insert _ _)
    exact (next_setSize (.inl rfl)).trans (next_setNext_self st.mem hlt)
  · rw [if_neg hunused]
    exact ⟨nodes, h, hcurrent.resolve_left hunused⟩

end Spaced

/-! ## Runs -/

/-- What calls for multiples of eight keep. -/
structure SpacedRun (top : σ → ℕ) (st : MallocRun σ) (nodes : Set ℕ) : Prop where
  heap : Spaced st.alloc.mem nodes {b | ∃ x ∈ st.live, blockOf x.1 = b}
  pointers : ∀ x ∈ st.live, 8 ∣ x.1
  current : st.alloc.nextFree ∈ nodes ∨ (st.alloc.nextFree = 0 ∧ st.live = [])
  raised : 8 ∣ top st.alloc.system

/-- A step of such a run. -/
theorem SpacedRun.call (hsbrk : ContiguousSbrk sbrk top) (hbase : 8 ∣ base)
    (hlt : base < 2 ^ 32) {st st' : MallocRun σ} {nodes : Set ℕ} (h : SpacedRun top st nodes)
    {c : MallocCall} (hplain : c.Plain st) (hc : c.MultipleOf headerSize)
    (hrun : c.run sbrk base fuel st = some st') : ∃ nodes', SpacedRun top st' nodes' := by
  cases c with
  | malloc nbytes =>
    have hn : 8 ∣ nbytes := hc
    have hsize : 8 ∣ (nbytes + headerSize) % 2 ^ 32 := by
      rw [headerSize]
      omega
    obtain ⟨⟨p, alloc⟩, hmalloc, rfl⟩ := Option.map_eq_some_iff.mp hrun
    obtain ⟨nodes₁, h₁, hcurrent₁⟩ := h.heap.startList hbase hlt (h.current.symm.imp And.left id)
    have htop₁ : 8 ∣ top (startList base st.alloc).system :=
      (startList_system base st.alloc).symm ▸ h.raised
    obtain ⟨hp, htop, nodes', hcurrent, h'⟩ := h₁.mallocLoop hsbrk hsize hcurrent₁ htop₁
      hcurrent₁ (h₁.linked _ hcurrent₁) hmalloc
    refine ⟨nodes', ?_, fun x hx => ?_, .inl hcurrent, htop⟩
    · by_cases hnull : p = 0
      · simp only [if_pos hnull] at h' ⊢
        exact h'
      · simp only [if_neg hnull] at h' ⊢
        refine h'.mono ?_
        rintro b ⟨x, hx, rfl⟩
        rcases List.mem_cons.mp hx with rfl | hx
        · exact .inl rfl
        · exact .inr ⟨x, hx, rfl⟩
    · by_cases hnull : p = 0
      · simp only [if_pos hnull] at hx
        exact h.pointers x hx
      · simp only [if_neg hnull] at hx
        rcases List.mem_cons.mp hx with rfl | hx
        · exact hp
        · exact h.pointers x hx
  | free block =>
    obtain ⟨x, hx, rfl⟩ := hplain
    obtain ⟨alloc, hfree, rfl⟩ := Option.map_eq_some_iff.mp hrun
    have hcurrent := h.current.resolve_right fun hempty => List.ne_nil_of_mem hx hempty.2
    obtain ⟨nodes', h', hcurrent', -, hsystem⟩ := h.heap.free hfree hcurrent ⟨x, hx, rfl⟩
    refine ⟨nodes', h'.mono ?_, fun y hy => h.pointers y (List.mem_of_mem_eraseP hy),
      .inl hcurrent', hsystem.symm ▸ h.raised⟩
    rintro b ⟨y, hy, rfl⟩
    exact ⟨y, List.mem_of_mem_eraseP hy, rfl⟩
  | store addr v => exact absurd hplain id

theorem SpacedRun.headersAligned {st : MallocRun σ} {nodes : Set ℕ} (h : SpacedRun top st nodes) :
    HeadersAligned st where
  pointers x hx := Nat.dvd_trans (by decide) (h.pointers x hx)
  headers hused x := by
    rintro ⟨k, rfl⟩
    have hcurrent := h.current.resolve_right fun hempty => hused hempty.1
    exact Nat.dvd_trans (by decide) (h.heap.spaced _ (.inl (h.heap.iterate_mem hcurrent k))).1

theorem PlainReach.spaced {start : Allocator σ} {st : MallocRun σ}
    (h : PlainReach sbrk base (MallocCall.MultipleOf headerSize) ⟨start, []⟩ st)
    (hsbrk : ContiguousSbrk sbrk top) (hstart : EmptyHeap base top start)
    (htop : 8 ∣ top start.system) (hbase : 8 ∣ base) : ∃ nodes, SpacedRun top st nodes := by
  have hlt : base < 2 ^ 32 := by
    have hbelow := hstart.baseBelow
    have hmemory := hstart.inMemory
    omega
  induction h with
  | start =>
    refine ⟨∅, ⟨?_, ?_, ?_⟩, fun x hx => absurd hx List.not_mem_nil,
      .inr ⟨hstart.unused, rfl⟩, htop⟩
    · rintro x (hx | ⟨y, hy, -⟩)
      · exact absurd hx (Set.notMem_empty x)
      · exact absurd hy List.not_mem_nil
    · rintro x (hx | ⟨y, hy, -⟩)
      · exact absurd hx (Set.notMem_empty x)
      · exact absurd hy List.not_mem_nil
    · exact fun x hx => absurd hx (Set.notMem_empty x)
  | call _ hplain hc hrun ih =>
    obtain ⟨nodes, ih⟩ := ih
    exact ih.call hsbrk hbase hlt hplain hc hrun

/-- **Alignment.** On a heap that starts at a page, pointers and headers are aligned in every run
whose calls are clean and ask for multiples of four, and in every run, clean or not, whose calls
ask for multiples of eight, when `_base` is at one.

In the first case the represented heap carries it, block by block (`Started.call` keeps multiples
of any `m` that divides a header). In the second one nothing can be said about the blocks, and the
headers in memory carry it instead (`SpacedRun.call`). -/
theorem headers_aligned (hsbrk : ContiguousSbrk sbrk top) {start : Allocator σ}
    {st : MallocRun σ} (hstart : EmptyHeap base top start) (hpage : 4096 ∣ top start.system)
    (hbase : headerAlign ∣ base)
    (h : MallocReach sbrk base
        (fun st c => c.Clean sbrk base st ∧ c.MultipleOf headerAlign) ⟨start, []⟩ st ∨
      (headerSize ∣ base ∧
        PlainReach sbrk base (MallocCall.MultipleOf headerSize) ⟨start, []⟩ st)) :
    HeadersAligned st := by
  rcases h with h | ⟨hbase8, h⟩
  · obtain ⟨avail, hstarted, -, haligned⟩ := h.blocksAligned (by decide) hsbrk hstart
      (Nat.dvd_trans (by decide) hpage)
    exact hstarted.headersAligned hbase haligned
  · obtain ⟨nodes, hspaced⟩ := h.spaced hsbrk hstart (Nat.dvd_trans (by decide) hpage) hbase8
    exact hspaced.headersAligned

/-- After three allocations of multiples of four and a release everything is aligned. -/
theorem bumpHeap_aligned : ∃ st, MallocReach bumpSbrk 0x1000
    (fun st c => c.Clean bumpSbrk 0x1000 st ∧ c.MultipleOf headerAlign) ⟨bumpHeap, []⟩ st ∧
      st.live = [(8796, 200), (9116, 100)] ∧ HeadersAligned st := by
  have hrun : ((MallocRun.runMeeting bumpSbrk 0x1000 20
      (fun st c => c.FewClean bumpSbrk 0x1000 st ∧ c.MultipleOf headerAlign)
      threeCalls ⟨bumpHeap, []⟩).any
      fun st => decide (st.live = [(8796, 200), (9116, 100)])) = true := by decide +kernel
  obtain ⟨st, hst, hlive⟩ := (Option.any_eq_true _ _).mp hrun
  have hreach : MallocReach bumpSbrk 0x1000
      (fun st c => c.Clean bumpSbrk 0x1000 st ∧ c.MultipleOf headerAlign) ⟨bumpHeap, []⟩ st :=
    MallocReach.start.runMeeting (fun st c h => ⟨h.1.clean st c, h.2⟩) hst
  exact ⟨st, hreach, of_decide_eq_true hlive, headers_aligned bumpSbrk_contiguous bumpHeap_empty
    (by decide) (by decide) (.inl hreach)⟩

/-- One byte is not: the block is the last nine bytes of a kilobyte. -/
theorem bumpHeap_misaligned : ∃ st, PlainReach bumpSbrk 0x1000 (fun _ => True) ⟨bumpHeap, []⟩ st ∧
    ¬ HeadersAligned st := by
  have hrun : (((MallocCall.malloc 1).run bumpSbrk 0x1000 20 ⟨bumpHeap, []⟩).any
      fun st => decide ((0x23ff, 1) ∈ st.live)) = true := by decide +kernel
  obtain ⟨st, hst, hlive⟩ := (Option.any_eq_true _ _).mp hrun
  have hplain : (MallocCall.malloc 1).Plain ⟨bumpHeap, []⟩ := show 1 < 2 ^ 32 by decide
  refine ⟨st, PlainReach.start.call hplain trivial hst, fun haligned => ?_⟩
  exact absurd (haligned.pointers _ (of_decide_eq_true hlive)) (by decide)

end MissyKernel
