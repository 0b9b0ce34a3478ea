import MissyKernel.FreeMerges

/-!
# The search of `free`

`free` looks for the node behind which a block belongs, from `_next_free` on, and has no count
to stop it. On a circular list with one wrap, whatever its length and wherever `_next_free`
stands, one node passes the tests for a block that is not on the list: the two around the block
if it lies between two nodes, the wrap if it lies above or below all of them. So the search ends
within one round, and the block linked in there leaves one wrap.

The list starts with `_base` alone, and every list of the allocator is of this kind.

That the loop has no count is why this has to be proved at all: on a list with a node that is its
own successor elsewhere it would not stop. The general facts are those of `OneWrap` in
`CircularList`; here they are put together with the tests of `free` as the code has them, and
with the two stores that link the block in (`oneWrap_linked`).
-/

namespace MissyKernel

variable {σ : Type} {base a header mblock : ℕ} {l : List ℕ} {st : Allocator σ}

/-! ## The lists of the allocator -/

/-- The first lines of `malloc`: `_base` is its own successor. -/
theorem oneWrap_startList (hbase : base < 2 ^ 32) (hfresh : st.nextFree = 0) :
    OneWrap (next (startList base st).mem) base [] := by
  have hnext : next (startList base st).mem base = base := by
    rw [startList, if_pos hfresh]
    exact (next_setSize (.inl rfl)).trans (next_setNext_self st.mem hbase)
  exact oneWrap_of_ascending hnext (List.pairwise_singleton _ base)

theorem FreeRing.oneWrap {first : ℕ} {rest : List ℕ} (h : FreeRing base st first rest) :
    OneWrap (next st.mem) first rest :=
  oneWrap_of_ascending h.circular h.ascending

/-- The free list of a represented heap. -/
theorem Rep.oneWrap {lo hi : ℕ} {avail live : List Block} (h : Rep base lo hi st avail live) :
    OneWrap (next st.mem) base (avail.map Block.addr) :=
  oneWrap_of_ascending h.ring h.ascending_base

/-! ## The search -/

/-- The two stores of a `free` that merges nothing link the block in, if no two headers
overlap. -/
theorem oneWrap_linked (h : OneWrap (next st.mem) a l) (hheader : header ∈ a :: l)
    (hstops : freeStops st.mem mblock header) (hlt : mblock < 2 ^ 32)
    (hblock : ∀ x ∈ a :: l, x + 8 ≤ mblock ∨ mblock + 8 ≤ x)
    (hnodes : ∀ x ∈ a :: l, x ≠ header → x + 8 ≤ header ∨ header + 8 ≤ x) :
    ∃ l', OneWrap (next (st.linked mblock header).mem) a l' ∧
      (a :: l').Perm (mblock :: a :: l) := by
  have hnotin : mblock ∉ a :: l := fun hmem => by
    have hapart := hblock mblock hmem
    omega
  obtain ⟨l', hlist, hperm⟩ := h.insertAfter hheader hstops hnotin
  refine ⟨l', hlist.congr fun x hx => ?_, hperm⟩
  have hnew : ∀ y, y + 8 ≤ header ∨ header + 8 ≤ y →
      next (st.linked mblock header).mem y =
        next (setNext st.mem mblock (next st.mem header)) y := fun y hy =>
    next_setNext_of_apart hy.symm
  rcases List.mem_cons.mp (hperm.mem_iff.mp hx) with rfl | hx
  · -- the block itself
    have hne : x ≠ header := fun heq => hnotin (heq ▸ hheader)
    rw [insertAfter_new _ hne, hnew x (hblock header hheader).symm,
      next_setNext_self _ (next_lt _ _)]
  by_cases hxh : x = header
  · rw [hxh, insertAfter_self]
    exact next_setNext_self _ hlt
  · have hxm : x ≠ mblock := fun heq => hnotin (heq ▸ hx)
    rw [insertAfter_of_ne _ hxh hxm, hnew x (hnodes x hx hxh),
      next_setNext_of_apart (hblock x hx).symm]

/-- **The search ends at the right place.** On a circular list with one wrap, from any node of it,
and for any block that is not on it, the loop of `free` tests each node at most once and ends at
one behind which the block keeps the list to one wrap.

Both tests together are the splice point of `CircularList`, and there is just one on such a list
(`OneWrap.exists_splicePoint`); the loop comes to every node before it comes to one twice. -/
theorem free_search_stops (hlist : OneWrap (next st.mem) a l) (hstart : st.nextFree ∈ a :: l)
    {block : ℕ} (hblock : (block + 2 ^ 32 - headerSize) % 2 ^ 32 = mblock)
    (hnotin : mblock ∉ a :: l) :
    ∃ header ∈ a :: l,
      walk (next st.mem) (freeStops st.mem mblock) (l.length + 1) st.nextFree = some header ∧
      free (l.length + 1) st block = some { st with
        mem := coalesceDown (coalesceUp st.mem mblock header) mblock header
        nextFree := header } ∧
      ∃ l', OneWrap (insertAfter (next st.mem) header mblock) a l' ∧
        (a :: l').Perm (mblock :: a :: l) := by
  obtain ⟨header, hheader, hsplice, hwalk⟩ := hlist.walk_splicePoint hstart hnotin
  have hsearch : walk (next st.mem) (freeStops st.mem mblock) (l.length + 1) st.nextFree =
    some header := hwalk
  refine ⟨header, hheader, hsearch, ?_, hlist.insertAfter hheader hsplice hnotin⟩
  rw [free, hblock, hsearch, Option.map_some]

/-- `_base` and one free block, where `_next_free` stands. -/
def twoNodes : Allocator Unit where
  mem := setNext (setNext (fun _ => 0) 0x1000 0x2000) 0x2000 0x1000
  nextFree := 0x2000
  errno := 0
  system := ()

/-- A block between the two: the search goes over the wrap. -/
theorem free_search_stops_between :
    ∃ header ∈ [0x1000, 0x2000],
      walk (next twoNodes.mem) (freeStops twoNodes.mem 0x1800) 2 twoNodes.nextFree = some header ∧
      free 2 twoNodes 0x1808 = some { twoNodes with
        mem := coalesceDown (coalesceUp twoNodes.mem 0x1800 header) 0x1800 header
        nextFree := header } ∧
      ∃ l', OneWrap (insertAfter (next twoNodes.mem) header 0x1800) 0x1000 l' ∧
        (0x1000 :: l').Perm [0x1800, 0x1000, 0x2000] := by
  have hlist : OneWrap (next twoNodes.mem) 0x1000 [0x2000] :=
    ⟨⟨by decide, show next twoNodes.mem 0x2000 = 0x1000 by decide⟩, by decide⟩
  exact free_search_stops hlist (by decide) rfl (by decide)

end MissyKernel
