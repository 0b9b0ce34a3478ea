import MissyKernel.CircularList
import MissyKernel.Runs
import Mathlib.Data.BitVec
import Mathlib.Logic.Function.Basic

/-!
# The character-device registry (`chrdev.c`)

The registry is a linked list that starts in a static node, zero before the first
registration and searched all the same. A node's number is one more than the nodes before
it, so the descriptors issued so far are the numbers from 1 to the length of the list, and
a lookup among them finds its device.

Two calls do not do what is said of them. `read_device_char` has no `return` behind its
`if`, so it answers nothing for a descriptor that was not issued; and before the first
registration the static node has the number 0 and no device, which both functions follow.

`Holds` says that memory has the nodes of a list, in order and with their devices;
`Holds.route_eq` is what a lookup finds, and `Holds.register_some` what a registration adds. What
`malloc` answers is given from outside, a block or none, and it is asked only that a block was
not handed out before. A call of a device's function is an answer of the call here (`Outcome`),
because what the device does with it is the device's.
-/

namespace MissyKernel

/-- A node: the static one, or a block from `malloc`. -/
inductive NodeId : Type where
  /-- `base_inode` -/
  | base
  /-- the block at an address -/
  | block (address : ℕ)
deriving DecidableEq

/-- `_chrdev_inode_t` -/
structure ChrdevInode : Type where
  /-- `inode` -/
  inode : BitVec 32
  /-- `device_descriptor`, by the device's number -/
  deviceDescriptor : Option ℕ
  /-- `next` -/
  next : Option NodeId

/-- `_chrdev_t`, the fields that the registry reads and writes. -/
structure CharacterDevice : Type where
  /-- `_descriptor` -/
  descriptor : BitVec 32
  /-- `minor_revision` -/
  minorRevision : BitVec 32
  /-- `readchar` -/
  readchar : Option ℕ
  /-- `write` -/
  write : Option ℕ

/-- The statics of `chrdev.c`, over the nodes and the devices in memory. -/
structure Chrdev : Type where
  /-- the nodes -/
  nodes : NodeId → ChrdevInode
  /-- `current_inode` -/
  currentInode : Option NodeId
  /-- `current_inode_number` -/
  currentInodeNumber : BitVec 32
  /-- `minor_revision_number` -/
  minorRevisionNumber : BitVec 32
  /-- the devices -/
  devices : ℕ → CharacterDevice
  /-- `errno` -/
  errno : BitVec 32

/-- The statics as the C initialisers leave them: the static node is zero. -/
def Chrdev.start (devices : ℕ → CharacterDevice) : Chrdev where
  nodes := fun _ => ⟨0, none, none⟩
  currentInode := none
  currentInodeNumber := 1
  minorRevisionNumber := 0
  devices := devices
  errno := 0

/-- What a call does. -/
inductive Outcome : Type where
  /-- it returns a number and calls no device -/
  | returned (r : BitVec 32)
  /-- it returns what a function of a device answers to these arguments -/
  | called (device function : ℕ) (args : List (BitVec 32))
  /-- it ends without a value -/
  | noValue
  /-- it reads a device through a null pointer -/
  | nullAccess
deriving DecidableEq

/-- What `malloc` answers: a block with what is left in it, or nothing. -/
abbrev MallocAnswer : Type := Option (ℕ × ChrdevInode)

namespace Chrdev

/-- The loop of `find_device_inode`: the next node, and none behind the last. -/
def follow (st : Chrdev) (p : Option NodeId) : Option NodeId := p.bind fun a => (st.nodes a).next

/-- The test that ends it. -/
def Stops (st : Chrdev) (descriptor : BitVec 32) (p : Option NodeId) : Prop :=
  ∀ a, p = some a → (st.nodes a).inode = descriptor

instance (st : Chrdev) (descriptor : BitVec 32) : DecidablePred (st.Stops descriptor)
  | none => .isTrue fun _ h => nomatch h
  | some a =>
    decidable_of_iff ((st.nodes a).inode = descriptor)
      ⟨fun h _ ha => Option.some.inj ha ▸ h, fun h => h a rfl⟩

/-- `find_device_inode`. The steps are bounded by the number of addresses. -/
def findDeviceInode (st : Chrdev) (descriptor : BitVec 32) : Option NodeId :=
  (walk st.follow (st.Stops descriptor) (2 ^ 32) (some .base)).join

/-- `new_inode`, with what `malloc` answers if it is called. -/
def newInode (st : Chrdev) (malloc : MallocAnswer) : Option NodeId × Chrdev :=
  match st.currentInode with
  | none =>
    (some .base, { st with
      nodes := Function.update st.nodes .base { st.nodes .base with next := none }
      currentInode := some .base })
  | some current =>
    match malloc with
    | none =>
      (none, { st with
        nodes := Function.update st.nodes current { st.nodes current with next := none } })
    | some (address, content) =>
      let nodes := Function.update st.nodes current
        { st.nodes current with next := some (.block address) }
      (some (.block address), { st with
        nodes := Function.update nodes (.block address) { content with next := none }
        currentInode := some (.block address) })

end Chrdev

/-- `register_device` -/
def registerDevice (st : Chrdev) (device : ℕ) (malloc : MallocAnswer) : BitVec 32 × Chrdev :=
  match st.newInode malloc with
  | (none, st) => (-1, { st with errno := 2 })
  | (some current, st) =>
    (st.currentInodeNumber, { st with
      nodes := Function.update st.nodes current
        { st.nodes current with
          deviceDescriptor := some device
          inode := st.currentInodeNumber }
      currentInodeNumber := st.currentInodeNumber + 1
      minorRevisionNumber := st.minorRevisionNumber + 1
      devices := Function.update st.devices device
        { st.devices device with
          descriptor := st.currentInodeNumber
          minorRevision := st.minorRevisionNumber } })

/-- `read_device_char` -/
def readDeviceChar (st : Chrdev) (descriptor : BitVec 32) : Outcome :=
  match st.findDeviceInode descriptor with
  | none => .noValue
  | some a =>
    match (st.nodes a).deviceDescriptor with
    | none => .nullAccess
    | some device =>
      match (st.devices device).readchar with
      | some readchar => .called device readchar []
      | none => .noValue

/-- `write_device` -/
def writeDevice (st : Chrdev) (descriptor buffer length : BitVec 32) : Outcome :=
  match st.findDeviceInode descriptor with
  | none => .returned (-1)
  | some a =>
    match (st.nodes a).deviceDescriptor with
    | none => .nullAccess
    | some device =>
      match (st.devices device).write with
      | some write => .called device write [buffer, length]
      | none => .returned (-1)

namespace Chrdev

/-- Where a descriptor leads: to no node, or to a node with or without a device. -/
def route (st : Chrdev) (descriptor : BitVec 32) : Option (Option ℕ) :=
  (st.findDeviceInode descriptor).map fun a => (st.nodes a).deviceDescriptor

end Chrdev

/-- A call of the registry. -/
inductive ChrdevOp : Type where
  /-- `register_device(device)` -/
  | register (device : ℕ) (malloc : MallocAnswer)
  /-- `read_device_char(descriptor)` -/
  | readChar (descriptor : BitVec 32)
  /-- `write_device(descriptor, buffer, length)` -/
  | write (descriptor buffer length : BitVec 32)

namespace ChrdevOp

/-- The state after a call: only a registration changes it. -/
def step (st : Chrdev) : ChrdevOp → Chrdev
  | .register device malloc => (registerDevice st device malloc).2
  | .readChar _ => st
  | .write .. => st

/-- The address of the block that `malloc` answers with. -/
def block : ChrdevOp → Option ℕ
  | .register _ malloc => malloc.map Prod.fst
  | .readChar _ => none
  | .write .. => none

end ChrdevOp

/-- The state after some calls. -/
def Chrdev.after (st : Chrdev) (ops : List ChrdevOp) : Chrdev := ops.foldl ChrdevOp.step st

/-- The devices registered so far: the first registration takes the static node, every other
one a block. -/
def registered (ops : List ChrdevOp) : List ℕ :=
  ops.foldl
    (fun l op =>
      match op with
      | .register device malloc => if l ≠ [] ∧ malloc = none then l else l ++ [device]
      | .readChar _ => l
      | .write .. => l) []

/-- Descriptor 1 is the first device of the list. -/
def routed (l : List ℕ) (descriptor : BitVec 32) : Option ℕ :=
  if descriptor = 0 then none else l[descriptor.toNat - 1]?

theorem descriptor_eq_zero_iff (d : BitVec 32) : d = 0 ↔ d.toNat = 0 := by
  rw [← BitVec.toNat_inj]
  rfl

/-- What stands where in a list with one more element. -/
theorem getElem?_concat_eq_some {α : Type} {l : List α} {x a : α} {k : ℕ} :
    (l ++ [x])[k]? = some a ↔ l[k]? = some a ∨ (k = l.length ∧ a = x) := by
  rcases Nat.lt_trichotomy k l.length with hlt | rfl | hgt
  · rw [List.getElem?_append_left hlt]
    exact (or_iff_left fun h => absurd h.1 (Nat.ne_of_lt hlt)).symm
  · rw [List.getElem?_concat_length, Option.some.injEq, List.getElem?_eq_none (le_refl _),
      and_iff_right rfl, eq_comm]
    exact (or_iff_right fun h => nomatch h).symm
  · rw [List.getElem?_eq_none (by rw [List.length_append, List.length_singleton]; omega),
      List.getElem?_eq_none (by omega)]
    exact iff_of_false (fun h => nomatch h) fun h => h.elim (fun h => nomatch h) fun h => by omega

namespace Chrdev

/-- The nodes of the list hold these devices, numbered from 1: `blocks` are the nodes behind
the static one. -/
structure Holds (st : Chrdev) (l : List ℕ) (blocks : List NodeId) : Prop where
  /-- one node a device -/
  length : blocks.length + 1 = l.length
  /-- no node is linked twice -/
  nodup : (NodeId.base :: blocks).Nodup
  /-- the links -/
  path : Path st.follow (some .base) (blocks.map some) none
  /-- the last node -/
  current : st.currentInode = some (blocks.getLastD .base)
  /-- the next number -/
  number : st.currentInodeNumber = BitVec.ofNat 32 (l.length + 1)
  /-- numbers and devices -/
  nodes : ∀ k a device, (NodeId.base :: blocks)[k]? = some a → l[k]? = some device →
    (st.nodes a).inode = BitVec.ofNat 32 (k + 1) ∧ (st.nodes a).deviceDescriptor = some device

variable {st : Chrdev} {l : List ℕ} {blocks : List NodeId} {d : BitVec 32}

theorem Holds.ne_nil (h : st.Holds l blocks) : l ≠ [] := by
  rintro rfl
  exact nomatch h.length

/-! ## Lookups -/

theorem findDeviceInode_eq {nodes : List NodeId}
    (hpath : Path st.follow (some .base) (nodes.map some) none)
    (hlt : nodes.length + 1 < 2 ^ 32) :
    st.findDeviceInode d = (NodeId.base :: nodes).find? fun a => (st.nodes a).inode = d := by
  have hstops : (fun a => decide (st.Stops d (some a))) = fun a => (st.nodes a).inode = d := by
    funext a
    exact decide_eq_decide.mpr ⟨fun h => h a rfl, fun h _ ha => Option.some.inj ha ▸ h⟩
  have hnone : st.Stops d none := fun _ h => nomatch h
  rw [findDeviceInode, hpath.walk_find hnone (by rwa [List.length_map]), ← List.map_cons,
    List.find?_map, Function.comp_def, hstops]
  cases (NodeId.base :: nodes).find? fun a => (st.nodes a).inode = d <;> rfl

/-- A descriptor of the list leads to its device, any other one nowhere. -/
theorem Holds.route_eq (h : st.Holds l blocks) (hlt : l.length < 2 ^ 31) :
    st.route d = (routed l d).map some := by
  have hblocks := h.length
  have hlength : (NodeId.base :: blocks).length = l.length := hblocks
  have hnode : ∀ k (hk : k < (NodeId.base :: blocks).length),
      (st.nodes (NodeId.base :: blocks)[k]).inode = BitVec.ofNat 32 (k + 1) ∧
        (st.nodes (NodeId.base :: blocks)[k]).deviceDescriptor = some (l.get ⟨k, hlength ▸ hk⟩) :=
    fun k hk => h.nodes k _ _ (List.getElem?_eq_getElem hk)
      (List.getElem?_eq_getElem (hlength ▸ hk))
  have hinode : ∀ k (hk : k < (NodeId.base :: blocks).length),
      (st.nodes (NodeId.base :: blocks)[k]).inode = d ↔ k + 1 = d.toNat := by
    intro k hk
    rw [(hnode k hk).1, ← BitVec.toNat_inj, BitVec.toNat_ofNat, Nat.mod_eq_of_lt (by omega)]
  have hzero := descriptor_eq_zero_iff d
  rw [route, findDeviceInode_eq h.path (by omega), routed]
  by_cases hd : d.toNat ≠ 0 ∧ d.toNat ≤ l.length
  · obtain ⟨k, hk⟩ := Nat.exists_eq_succ_of_ne_zero hd.1
    have hkl : k < (NodeId.base :: blocks).length := by omega
    have hfind : ((NodeId.base :: blocks).find? fun a => (st.nodes a).inode = d) =
        some (NodeId.base :: blocks)[k] := by
      rw [List.find?_eq_some_iff_getElem]
      refine ⟨decide_eq_true ((hinode k hkl).mpr hk.symm), k, hkl, rfl, fun j hj => ?_⟩
      rw [Bool.not_eq_true', decide_eq_false_iff_not, hinode j (by omega)]
      omega
    rw [hfind, Option.map_some, (hnode k hkl).2, if_neg (mt hzero.mp hd.1),
      show d.toNat - 1 = k by omega, List.getElem?_eq_getElem (hlength ▸ hkl)]
    rfl
  · have hfind : ((NodeId.base :: blocks).find? fun a => (st.nodes a).inode = d) = none := by
      rw [List.find?_eq_none]
      intro a ha
      obtain ⟨k, hk, rfl⟩ := List.getElem_of_mem ha
      rw [decide_eq_true_eq, hinode k hk]
      omega
    rw [hfind]
    by_cases hd0 : d = 0
    · rw [if_pos hd0]
      rfl
    · rw [hzero] at hd0
      rw [if_neg (mt hzero.mp hd0), List.getElem?_eq_none (by omega)]
      rfl

/-! ## Registrations -/

/-- A registration that gets a block. -/
theorem register_block {cur : NodeId} {address : ℕ} (device : ℕ) (content : ChrdevInode)
    (hcur : st.currentInode = some cur) (hne : cur ≠ .block address) :
    ∃ st', registerDevice st device (some (address, content)) = (st.currentInodeNumber, st') ∧
      st'.currentInode = some (.block address) ∧
      st'.currentInodeNumber = st.currentInodeNumber + 1 ∧
      st'.nodes (.block address) = ⟨st.currentInodeNumber, some device, none⟩ ∧
      st'.nodes cur = { st.nodes cur with next := some (.block address) } ∧
      ∀ a, a ≠ .block address → a ≠ cur → st'.nodes a = st.nodes a := by
  refine ⟨_, by rw [registerDevice, newInode, hcur], rfl, rfl, ?_, ?_, fun a ha hacur => ?_⟩
  · simp
  · simp [hne]
  · simp [ha, hacur]

/-- A registration that gets none. -/
theorem register_failed {cur : NodeId} {device : ℕ} (hcur : st.currentInode = some cur)
    (hlast : (st.nodes cur).next = none) :
    registerDevice st device none = (-1, { st with errno := 2 }) := by
  have hnodes : Function.update st.nodes cur { st.nodes cur with next := none } = st.nodes := by
    rw [← hlast]
    exact Function.update_eq_self cur st.nodes
  simp only [registerDevice, newInode, hcur, hnodes]

/-- The first registration takes the static node. -/
theorem register_first (device : ℕ) (hcur : st.currentInode = none)
    (hnumber : st.currentInodeNumber = 1) (malloc : MallocAnswer) :
    (registerDevice st device malloc).1 = 1 ∧
      (registerDevice st device malloc).2.Holds [device] [] := by
  rw [registerDevice, newInode, hcur]
  refine ⟨hnumber, rfl, List.nodup_singleton _, ?_, rfl, ?_, fun k a device' ha hdevice => ?_⟩
  · simp [Path, follow]
  · exact congrArg (· + 1) hnumber
  · cases k with
    | zero =>
      obtain rfl := Option.some.inj ha
      obtain rfl := Option.some.inj hdevice
      simp [hnumber]
    | succ k => exact absurd ha (Option.some_ne_none a).symm

/-- The list stays as it is when no block is to be had. -/
theorem Holds.register_none (h : st.Holds l blocks) (device : ℕ) :
    registerDevice st device none = (-1, { st with errno := 2 }) := by
  refine register_failed h.current ?_
  have hlast := h.path.succ_last
  rwa [List.getLastD_map] at hlast

/-- The links, when the last node gets one to a new node. -/
theorem Holds.path_append {st' : Chrdev} {node : NodeId} (h : st.Holds l blocks)
    (hnot : node ∉ NodeId.base :: blocks) (hnode : (st'.nodes node).next = none)
    (hlast : (st'.nodes (blocks.getLastD .base)).next = some node)
    (hothers : ∀ a, a ≠ node → a ≠ blocks.getLastD .base → st'.nodes a = st.nodes a) :
    Path st'.follow (some .base) ((blocks ++ [node]).map some) none := by
  have hpath : Path st.follow (some .base) (blocks.map some ++ []) none := by
    rw [List.append_nil]
    exact h.path
  rw [List.map_append, List.map_singleton]
  refine hpath.insertAfter ?_ ?_ ?_ ?_
  · rw [List.append_nil, ← List.map_cons]
    exact h.nodup.map (Option.some_injective _)
  · rw [List.getLastD_map]
    exact hlast
  · rw [h.path.succ_last]
    exact hnode
  · intro p hp hpne
    rw [List.append_nil, ← List.map_cons] at hp
    obtain ⟨a, ha, rfl⟩ := List.mem_map.mp hp
    rw [List.getLastD_map] at hpne
    exact congrArg ChrdevInode.next
      (hothers a (fun heq => hnot (heq ▸ ha)) fun heq => hpne (congrArg some heq))

/-- A block joins the list behind the last node. -/
theorem Holds.register_some {address : ℕ} (h : st.Holds l blocks)
    (hfresh : NodeId.block address ∉ blocks) (device : ℕ) (content : ChrdevInode) :
    (registerDevice st device (some (address, content))).1 = BitVec.ofNat 32 (l.length + 1) ∧
      (registerDevice st device (some (address, content))).2.Holds (l ++ [device])
        (blocks ++ [.block address]) := by
  have hnot : NodeId.block address ∉ NodeId.base :: blocks :=
    List.not_mem_cons_of_ne_of_not_mem (by simp) hfresh
  have hlast : blocks.getLastD .base ∈ NodeId.base :: blocks := List.getLastD_mem_cons
  have hlastne : blocks.getLastD .base ≠ .block address := fun heq => hnot (heq ▸ hlast)
  have hlength : (NodeId.base :: blocks).length = l.length := h.length
  obtain ⟨st', hst', hcurrent, hnumber, hblock, hcur, hothers⟩ :=
    register_block device content h.current hlastne
  rw [hst']
  have hkept : ∀ a ∈ NodeId.base :: blocks, (st'.nodes a).inode = (st.nodes a).inode ∧
      (st'.nodes a).deviceDescriptor = (st.nodes a).deviceDescriptor := by
    intro a ha
    by_cases hacur : a = blocks.getLastD .base
    · rw [hacur, hcur]
      exact ⟨rfl, rfl⟩
    · rw [hothers a (fun heq => hnot (heq ▸ ha)) hacur]
      exact ⟨rfl, rfl⟩
  refine ⟨h.number, ?_, ?_, ?_, ?_, ?_, fun k a device' ha hdevice => ?_⟩
  · simp [h.length]
  · rw [← List.cons_append, List.nodup_append]
    refine ⟨h.nodup, List.nodup_singleton _, fun a ha b hb heq => ?_⟩
    rw [List.mem_singleton] at hb
    exact hnot (hb ▸ heq ▸ ha)
  · exact h.path_append hnot (congrArg ChrdevInode.next hblock) (congrArg ChrdevInode.next hcur)
      hothers
  · rw [hcurrent, List.getLastD_concat]
  · rw [hnumber, h.number, List.length_append, List.length_singleton]
    exact BitVec.ofNat_add_ofNat _ _
  · rw [← List.cons_append, getElem?_concat_eq_some, hlength] at ha
    rw [getElem?_concat_eq_some] at hdevice
    rcases ha with hold | ⟨rfl, rfl⟩
    · have hk := (List.getElem?_eq_some_iff.mp hold).1
      have hdevice := hdevice.resolve_right fun h => by omega
      rw [(hkept a (List.mem_of_getElem? hold)).1, (hkept a (List.mem_of_getElem? hold)).2]
      exact h.nodes k a device' hold hdevice
    · obtain ⟨-, rfl⟩ := hdevice.resolve_left (by simp)
      rw [hblock, h.number]
      exact ⟨rfl, rfl⟩

end Chrdev

/-! ## Runs -/

/-- `malloc` never answers with a block that it answered with before. -/
def FreshBlocks (ops : List ChrdevOp) : Prop := (ops.filterMap ChrdevOp.block).Nodup

instance (ops : List ChrdevOp) : Decidable (FreshBlocks ops) :=
  inferInstanceAs (Decidable (List.Nodup _))

theorem FreshBlocks.of_append {ops ops' : List ChrdevOp} (h : FreshBlocks (ops ++ ops')) :
    FreshBlocks ops := by
  rw [FreshBlocks, List.filterMap_append] at h
  exact (List.nodup_append.mp h).1

theorem registered_append (ops : List ChrdevOp) (op : ChrdevOp) :
    registered (ops ++ [op]) =
      match op with
      | .register device malloc =>
        if registered ops ≠ [] ∧ malloc = none then registered ops else registered ops ++ [device]
      | .readChar _ => registered ops
      | .write .. => registered ops := by
  rw [registered, List.foldl_append]
  rfl

/-- A device joins the table of descriptors behind the others. -/
theorem routed_append {l : List ℕ} (hlt : l.length + 1 < 2 ^ 32) (device : ℕ) (d : BitVec 32) :
    routed (l ++ [device]) d =
      if d = BitVec.ofNat 32 (l.length + 1) then some device else routed l d := by
  have hd : d = BitVec.ofNat 32 (l.length + 1) ↔ d.toNat = l.length + 1 := by
    rw [← BitVec.toNat_inj, BitVec.toNat_ofNat, Nat.mod_eq_of_lt (by omega)]
  have hzero := descriptor_eq_zero_iff d
  rw [routed, routed]
  by_cases h0 : d = 0
  · have h0' := hzero.mp h0
    rw [if_pos h0, if_pos h0, if_neg (by rw [hd]; omega)]
  rw [if_neg h0, if_neg h0]
  rw [hzero] at h0
  by_cases hlast : d.toNat = l.length + 1
  · rw [if_pos (hd.mpr hlast), hlast, Nat.add_sub_cancel, List.getElem?_concat_length]
  · rw [if_neg (mt hd.mp hlast)]
    by_cases hin : d.toNat - 1 < l.length
    · rw [List.getElem?_append_left hin]
    · rw [List.getElem?_eq_none (by rw [List.length_append, List.length_singleton]; omega),
        List.getElem?_eq_none (by omega)]

/-- The new descriptor was not in use. -/
theorem routed_next {l : List ℕ} (hlt : l.length + 1 < 2 ^ 32) :
    routed l (BitVec.ofNat 32 (l.length + 1)) = none := by
  rw [routed]
  split
  · rfl
  · rw [BitVec.toNat_ofNat, Nat.mod_eq_of_lt (by omega), List.getElem?_eq_none (by omega)]

namespace Chrdev

variable {st : Chrdev} {ops : List ChrdevOp} {d : BitVec 32}

/-- Before the first registration the static node is zero; afterwards the list holds the
devices registered, in blocks that `malloc` answered with. -/
inductive Registry (st : Chrdev) (ops : List ChrdevOp) : Prop where
  /-- nothing is registered -/
  | empty (none_registered : registered ops = []) (current : st.currentInode = none)
      (number : st.currentInodeNumber = 1) (base : st.nodes .base = ⟨0, none, none⟩)
  /-- the devices of the list -/
  | list (blocks : List NodeId) (holds : st.Holds (registered ops) blocks)
      (answered : ∀ address, NodeId.block address ∈ blocks →
        address ∈ ops.filterMap ChrdevOp.block)

theorem registry_start (devices : ℕ → CharacterDevice) : (start devices).Registry [] :=
  .empty rfl rfl rfl rfl

theorem after_append (st : Chrdev) (ops : List ChrdevOp) (op : ChrdevOp) :
    st.after (ops ++ [op]) = op.step (st.after ops) := by
  rw [after, List.foldl_append]
  rfl

/-- What a registration answers and leaves. -/
theorem Registry.register {device : ℕ} {malloc : MallocAnswer} (h : st.Registry ops)
    (hfresh : FreshBlocks (ops ++ [ChrdevOp.register device malloc])) :
    (registerDevice st device malloc).2.Registry (ops ++ [ChrdevOp.register device malloc]) ∧
      (registerDevice st device malloc).1 =
        if registered ops ≠ [] ∧ malloc = none then -1
        else BitVec.ofNat 32 ((registered ops).length + 1) := by
  have hold : ops.filterMap ChrdevOp.block ⊆
      (ops ++ [ChrdevOp.register device malloc]).filterMap ChrdevOp.block := by
    rw [List.filterMap_append]
    exact List.subset_append_left _ _
  cases h with
  | empty hnone hcurrent hnumber hbase =>
    obtain ⟨hanswer, hholds⟩ := register_first device hcurrent hnumber malloc
    rw [if_neg fun h => h.1 hnone, hnone]
    refine ⟨.list [] ?_ (fun _ hmem => absurd hmem List.not_mem_nil), hanswer⟩
    rw [registered_append]
    simpa [hnone] using hholds
  | list blocks hholds hanswered =>
    have hne := hholds.ne_nil
    cases malloc with
    | none =>
      rw [hholds.register_none device, if_pos ⟨hne, rfl⟩]
      refine ⟨.list blocks ?_ fun a ha => hold (hanswered a ha), rfl⟩
      rw [registered_append]
      dsimp only
      rw [if_pos ⟨hne, rfl⟩]
      exact ⟨hholds.length, hholds.nodup, hholds.path, hholds.current, hholds.number, hholds.nodes⟩
    | some answer =>
      obtain ⟨address, content⟩ := answer
      have hnew : NodeId.block address ∉ blocks := by
        intro hmem
        rw [FreshBlocks, List.filterMap_append, List.nodup_append] at hfresh
        exact hfresh.2.2 address (hanswered address hmem) address (by simp [ChrdevOp.block]) rfl
      obtain ⟨hanswer, hholds'⟩ := hholds.register_some hnew device content
      rw [if_neg fun h => nomatch h.2]
      refine ⟨.list (blocks ++ [.block address]) ?_ fun address' ha => ?_, hanswer⟩
      · rw [registered_append]
        simpa using hholds'
      · rcases List.mem_append.mp ha with hmem | hlast
        · exact hold (hanswered address' hmem)
        · obtain rfl := NodeId.block.inj (List.mem_singleton.mp hlast)
          simp [ChrdevOp.block]

/-- A call that registers nothing. -/
theorem Registry.keep {op : ChrdevOp} (h : st.Registry ops)
    (hkeep : registered (ops ++ [op]) = registered ops) : st.Registry (ops ++ [op]) := by
  cases h with
  | empty hnone hcurrent hnumber hbase => exact .empty (hkeep.trans hnone) hcurrent hnumber hbase
  | list blocks hholds hanswered =>
    refine .list blocks (hkeep ▸ hholds) fun a ha => ?_
    rw [List.filterMap_append]
    exact List.mem_append_left _ (hanswered a ha)

/-- The invariant of a run. -/
theorem registry_after (devices : ℕ → CharacterDevice) (hfresh : FreshBlocks ops) :
    ((start devices).after ops).Registry ops := by
  induction ops using List.reverseRecOn with
  | nil => exact registry_start devices
  | append_singleton ops op ih =>
    have hbefore := ih hfresh.of_append
    rw [after_append]
    cases op with
    | register device malloc => exact (hbefore.register hfresh).1
    | readChar d => exact hbefore.keep (registered_append ops (.readChar d))
    | write d buffer length => exact hbefore.keep (registered_append ops (.write d buffer length))

/-! ## What the calls answer -/

theorem readDeviceChar_eq (st : Chrdev) (d : BitVec 32) :
    readDeviceChar st d =
      match st.route d with
      | none => .noValue
      | some none => .nullAccess
      | some (some device) =>
        match (st.devices device).readchar with
        | some readchar => .called device readchar []
        | none => .noValue := by
  rw [readDeviceChar, route]
  cases st.findDeviceInode d with
  | none => rfl
  | some a =>
    dsimp only [Option.map_some]
    cases (st.nodes a).deviceDescriptor <;> rfl

theorem writeDevice_eq (st : Chrdev) (d buffer length : BitVec 32) :
    writeDevice st d buffer length =
      match st.route d with
      | none => .returned (-1)
      | some none => .nullAccess
      | some (some device) =>
        match (st.devices device).write with
        | some write => .called device write [buffer, length]
        | none => .returned (-1) := by
  rw [writeDevice, route]
  cases st.findDeviceInode d with
  | none => rfl
  | some a =>
    dsimp only [Option.map_some]
    cases (st.nodes a).deviceDescriptor <;> rfl

theorem Registry.route_eq (h : st.Registry ops) (hlt : (registered ops).length < 2 ^ 31) :
    st.route d =
      if d = 0 ∧ registered ops = [] then some none
      else (routed (registered ops) d).map some := by
  cases h with
  | empty hnone hcurrent hnumber hbase =>
    have hpath : Path st.follow (some .base) (List.map some []) none := by
      simp [Path, follow, hbase]
    rw [route, findDeviceInode_eq hpath (by decide), List.find?_singleton, hbase, hnone, routed]
    by_cases hd : d = 0
    · rw [if_pos (decide_eq_true hd.symm), if_pos ⟨hd, rfl⟩, Option.map_some, hbase]
    · rw [if_neg fun h => hd (of_decide_eq_true h).symm, if_neg fun h => hd h.1, if_neg hd]
      rfl
  | list blocks hholds hanswered =>
    rw [hholds.route_eq hlt, if_neg fun h => hholds.ne_nil h.2]

/-- A registration of the run so far answered with the descriptor. -/
def Issued (st : Chrdev) (ops : List ChrdevOp) (d : BitVec 32) (device : ℕ) : Prop :=
  ∃ pre malloc, pre ++ [.register device malloc] <+: ops ∧
    (registerDevice (st.after pre) device malloc).1 = d ∧ d ≠ -1

/-- The call ends in the device's function, if it has one, and else in none. -/
def Reaches (device : ℕ) (function : Option ℕ) (args : List (BitVec 32)) (o : Outcome) : Prop :=
  match function with
  | some f => o = .called device f args
  | none => ∀ device' f args', o ≠ .called device' f args'

/-- What is asked of a call after others. A registration answers with a positive descriptor
that was not in use, or fails for want of a block and changes no route; a read or a write
reaches the device that the descriptor was issued for, and returns -1 for any other
descriptor. -/
def Right (st : Chrdev) (ops : List ChrdevOp) : ChrdevOp → Prop
  | .register device malloc =>
    let answer := registerDevice (st.after ops) device malloc
    if registered ops ≠ [] ∧ malloc = none then
      answer.1 = -1 ∧ ∀ d, answer.2.route d = (st.after ops).route d
    else 0 < answer.1.toInt ∧ ∀ device', ¬ st.Issued ops answer.1 device'
  | .readChar d =>
    (∀ device, st.Issued ops d device →
      Reaches device ((st.after ops).devices device).readchar []
        (readDeviceChar (st.after ops) d)) ∧
    ((∀ device, ¬ st.Issued ops d device) → readDeviceChar (st.after ops) d = .returned (-1))
  | .write d buffer length =>
    (∀ device, st.Issued ops d device →
      Reaches device ((st.after ops).devices device).write [buffer, length]
        (writeDevice (st.after ops) d buffer length)) ∧
    ((∀ device, ¬ st.Issued ops d device) →
      writeDevice (st.after ops) d buffer length = .returned (-1))

end Chrdev

/-- The calls that do what is asked: a read of a descriptor that was issued, and no write to
the descriptor 0 before the first registration. -/
def ChrdevOp.Fits (l : List ℕ) : ChrdevOp → Prop
  | .register .. => True
  | .readChar d => 0 < d.toNat ∧ d.toNat ≤ l.length
  | .write d _ _ => ¬ (d = 0 ∧ l = [])

namespace Chrdev

variable {devices : ℕ → CharacterDevice} {ops : List ChrdevOp} {d : BitVec 32}

/-- What registers more devices keeps the ones before. -/
theorem registered_length_le (ops post : List ChrdevOp) :
    (registered ops).length ≤ (registered (ops ++ post)).length := by
  induction post using List.reverseRecOn with
  | nil => rw [List.append_nil]
  | append_singleton post op ih =>
    refine ih.trans ?_
    rw [← List.append_assoc, registered_append]
    cases op with
    | register device malloc =>
      dsimp only
      split
      · exact le_refl _
      · exact (List.sublist_append_left _ _).length_le
    | readChar d => exact le_refl _
    | write d buffer length => exact le_refl _

theorem issued_append (st : Chrdev) (op : ChrdevOp) (device : ℕ) :
    st.Issued (ops ++ [op]) d device ↔
      st.Issued ops d device ∨
        ∃ malloc, op = .register device malloc ∧
          (registerDevice (st.after ops) device malloc).1 = d ∧ d ≠ -1 := by
  constructor
  · rintro ⟨pre, malloc, hpre, hanswer⟩
    rcases List.prefix_concat_iff.mp hpre with heq | hshort
    · obtain ⟨rfl, hop⟩ := List.append_inj' heq rfl
      exact Or.inr ⟨malloc, (List.singleton_inj.mp hop).symm, hanswer⟩
    · exact Or.inl ⟨pre, malloc, hshort, hanswer⟩
  · rintro (⟨pre, malloc, hpre, hanswer⟩ | ⟨malloc, rfl, hanswer⟩)
    · exact ⟨pre, malloc, hpre.trans (List.prefix_append _ _), hanswer⟩
    · exact ⟨ops, malloc, List.prefix_refl _, hanswer⟩

theorem ofNat_ne_neg_one {n : ℕ} (hn : n < 2 ^ 31) : BitVec.ofNat 32 n ≠ -1 := by
  intro heq
  have htoNat := congrArg BitVec.toNat heq
  rw [BitVec.toNat_ofNat, Nat.mod_eq_of_lt (by omega), show (-1 : BitVec 32).toNat = 2 ^ 32 - 1
    from rfl] at htoNat
  omega

/-- The descriptors issued are the numbers of the devices registered. -/
theorem issued_iff (devices : ℕ → CharacterDevice) (hfresh : FreshBlocks ops)
    (hlt : (registered ops).length < 2 ^ 31) (device : ℕ) :
    (start devices).Issued ops d device ↔ routed (registered ops) d = some device := by
  induction ops using List.reverseRecOn with
  | nil =>
    refine iff_of_false (fun h => ?_) (by simp [registered, routed])
    obtain ⟨pre, malloc, hpre, -⟩ := h
    exact absurd (List.prefix_nil.mp hpre) (by simp)
  | append_singleton ops op ih =>
    have hle := registered_length_le ops [op]
    have hbefore := ih hfresh.of_append (by omega)
    rw [issued_append, hbefore]
    cases op with
    | register device' malloc =>
      have hregistry := registry_after devices hfresh.of_append
      obtain ⟨-, hanswer⟩ := hregistry.register hfresh
      rw [registered_append] at hlt ⊢
      dsimp only at hlt ⊢
      by_cases hfail : registered ops ≠ [] ∧ malloc = none
      · rw [if_pos hfail] at hanswer
        rw [if_pos hfail]
        refine or_iff_left ?_
        rintro ⟨malloc', hop, rfl, hne⟩
        obtain ⟨rfl, rfl⟩ := ChrdevOp.register.inj hop
        exact hne hanswer
      · rw [if_neg hfail] at hanswer
        rw [if_neg hfail, List.length_append, List.length_singleton] at hlt
        rw [if_neg hfail, routed_append (by omega)]
        by_cases hd : d = BitVec.ofNat 32 ((registered ops).length + 1)
        · subst hd
          rw [if_pos rfl, routed_next (by omega), Option.some.injEq]
          constructor
          · rintro (h | ⟨malloc', hop, -⟩)
            · exact nomatch h
            · exact (ChrdevOp.register.inj hop).1
          · rintro rfl
            exact Or.inr ⟨malloc, rfl, hanswer, ofNat_ne_neg_one hlt⟩
        · rw [if_neg hd]
          refine or_iff_left ?_
          rintro ⟨malloc', hop, rfl, -⟩
          obtain ⟨rfl, rfl⟩ := ChrdevOp.register.inj hop
          exact hd hanswer
    | readChar d' =>
      rw [registered_append]
      exact or_iff_left fun ⟨malloc, hop, _⟩ => nomatch hop
    | write d' buffer length =>
      rw [registered_append]
      exact or_iff_left fun ⟨malloc, hop, _⟩ => nomatch hop

theorem routed_eq_none_iff (l : List ℕ) (d : BitVec 32) :
    routed l d = none ↔ ¬ (0 < d.toNat ∧ d.toNat ≤ l.length) := by
  have hzero := descriptor_eq_zero_iff d
  rw [routed]
  by_cases hd : d = 0
  · have hd0 := hzero.mp hd
    rw [if_pos hd]
    exact iff_of_true rfl (by omega)
  · rw [if_neg hd, List.getElem?_eq_none_iff]
    rw [hzero] at hd
    omega

section Answers

variable {op : ChrdevOp}

/-- A registration is always right. -/
theorem right_register {device : ℕ} {malloc : MallocAnswer}
    (hfresh : FreshBlocks (ops ++ [ChrdevOp.register device malloc]))
    (hlt : (registered (ops ++ [ChrdevOp.register device malloc])).length < 2 ^ 31) :
    (start devices).Right ops (.register device malloc) := by
  have hregistry := registry_after devices hfresh.of_append
  obtain ⟨hafter, hanswer⟩ := hregistry.register hfresh
  have hle := registered_length_le ops [.register device malloc]
  have hkept := registered_append ops (.register device malloc)
  rw [Right]
  dsimp only at hkept ⊢
  by_cases hfail : registered ops ≠ [] ∧ malloc = none
  · rw [if_pos hfail] at hanswer ⊢
    rw [if_pos hfail] at hkept
    refine ⟨hanswer, fun d => ?_⟩
    rw [hafter.route_eq hlt, hregistry.route_eq (by omega), hkept]
  · rw [if_neg hfail] at hkept
    rw [hkept, List.length_append, List.length_singleton] at hlt
    rw [if_neg hfail] at hanswer ⊢
    rw [hanswer]
    refine ⟨?_, fun device' hissued => ?_⟩
    · have htoNat : (BitVec.ofNat 32 ((registered ops).length + 1)).toNat =
          (registered ops).length + 1 := by
        rw [BitVec.toNat_ofNat, Nat.mod_eq_of_lt (by omega)]
      rw [BitVec.toInt_eq_toNat_of_lt (by omega), htoNat]
      omega
    · rw [issued_iff devices hfresh.of_append (by omega), routed_next (by omega)] at hissued
      exact nomatch hissued

/-- A read is right for a descriptor that was issued, and for no other. -/
theorem right_readChar_iff (hfresh : FreshBlocks ops) (hlt : (registered ops).length < 2 ^ 31) :
    (start devices).Right ops (.readChar d) ↔ 0 < d.toNat ∧ d.toNat ≤ (registered ops).length := by
  have hroute := (registry_after devices hfresh).route_eq (d := d) hlt
  have hissued := issued_iff (d := d) devices hfresh hlt
  rw [Right, readDeviceChar_eq, hroute]
  simp only [hissued]
  cases hrouted : routed (registered ops) d with
  | none =>
    refine iff_of_false (fun h => ?_) ((routed_eq_none_iff _ _).mp hrouted)
    have hreturned := h.2 fun device => by simp
    split_ifs at hreturned
    exact nomatch hreturned
  | some device =>
    have hin : 0 < d.toNat ∧ d.toNat ≤ (registered ops).length := by
      by_contra hout
      rw [(routed_eq_none_iff _ _).mpr hout] at hrouted
      exact nomatch hrouted
    have hne : ¬ (d = 0 ∧ registered ops = []) := by
      rintro ⟨-, hnil⟩
      rw [hnil] at hin
      exact absurd hin.1 (by simpa using hin.2)
    refine iff_of_true ⟨fun device' hdevice => ?_, fun h => absurd rfl (h device)⟩ hin
    obtain rfl := Option.some.inj hdevice
    rw [if_neg hne]
    dsimp only [Option.map_some]
    cases (((start devices).after ops).devices device).readchar with
    | none => exact fun _ _ _ h => nomatch h
    | some readchar => rfl

/-- A write is right, but for the descriptor 0 before the first registration. -/
theorem right_write_iff (buffer length : BitVec 32) (hfresh : FreshBlocks ops)
    (hlt : (registered ops).length < 2 ^ 31) :
    (start devices).Right ops (.write d buffer length) ↔ ¬ (d = 0 ∧ registered ops = []) := by
  have hroute := (registry_after devices hfresh).route_eq (d := d) hlt
  have hissued := issued_iff (d := d) devices hfresh hlt
  rw [Right, writeDevice_eq, hroute]
  simp only [hissued]
  by_cases hzero : d = 0 ∧ registered ops = []
  · have hnone : ∀ device, ¬ routed (registered ops) d = some device := by
      simp [routed, hzero.1]
    rw [if_pos hzero]
    exact iff_of_false (fun h => nomatch h.2 hnone) (not_not_intro hzero)
  · rw [if_neg hzero]
    refine iff_of_true ⟨fun device hdevice => ?_, fun hnone => ?_⟩ hzero
    · rw [hdevice]
      dsimp only [Option.map_some]
      cases (((start devices).after ops).devices device).write with
      | none => exact fun _ _ _ h => nomatch h
      | some write => rfl
    · rw [Option.eq_none_iff_forall_ne_some.mpr hnone]
      rfl

theorem right_iff (hfresh : FreshBlocks (ops ++ [op]))
    (hlt : (registered (ops ++ [op])).length < 2 ^ 31) :
    (start devices).Right ops op ↔ op.Fits (registered ops) := by
  have hle := registered_length_le ops [op]
  cases op with
  | register device malloc => exact iff_of_true (right_register hfresh hlt) trivial
  | readChar d => exact right_readChar_iff hfresh.of_append (by omega)
  | write d buffer length => exact right_write_iff buffer length hfresh.of_append (by omega)

end Answers

end Chrdev

/-- **When the registry is right.** In every run of fewer than 2^31 registrations, with blocks from
`malloc` that were not handed out before, every call does what is asked of it exactly when every
read is of a descriptor issued before it and no write goes to the descriptor 0 before the first
registration.

Along the run the registry is a list of nodes with the numbers from 1 on (`Holds`), which a
registration makes longer by one and nothing else changes. The two exceptions are what the lookup
does behind the end of that list, and in front of its beginning. -/
theorem registry_right_iff (devices : ℕ → CharacterDevice) (ops : List ChrdevOp)
    (hfresh : FreshBlocks ops) (hlt : (registered ops).length < 2 ^ 31) :
    (∀ pre op, pre ++ [op] <+: ops → (Chrdev.start devices).Right pre op) ↔
      ∀ pre op, pre ++ [op] <+: ops → op.Fits (registered pre) := by
  refine forall₃_congr fun pre op hpre => ?_
  obtain ⟨post, rfl⟩ := hpre
  have hle := Chrdev.registered_length_le (pre ++ [op]) post
  exact Chrdev.right_iff hfresh.of_append (by omega)

/-- A console and a second device, the first written to and the second read. -/
theorem registry_right_console :
    let ops : List ChrdevOp := [.write 1 0 0, .register 0 none, .register 1 none,
      .register 1 (some (16, ⟨7, some 3, none⟩)), .write 1 64 5, .readChar 2]
    ∀ pre op, pre ++ [op] <+: ops →
      (Chrdev.start fun _ => ⟨0, 0, some 1, some 2⟩).Right pre op := by
  intro ops
  refine (registry_right_iff _ ops (by decide) (by decide)).mpr ?_
  simp only [ops, forall_step_cons]
  refine ⟨?_, trivial, trivial, trivial, ?_, ?_, fun pre op hpre => ?_⟩
  · exact fun h => absurd h.1 (by decide)
  · exact fun h => absurd h.1 (by decide)
  · exact ⟨by decide, by decide⟩
  · exact absurd (List.prefix_nil.mp hpre) (by simp)

/-- A read before any registration has no value. -/
theorem read_unissued_no_value :
    ¬ (Chrdev.start fun _ => ⟨0, 0, none, none⟩).Right [] (.readChar 1) := by
  intro h
  have hin := (Chrdev.right_readChar_iff (by decide) (by decide)).mp h
  exact absurd hin.2 (by decide)

end MissyKernel
