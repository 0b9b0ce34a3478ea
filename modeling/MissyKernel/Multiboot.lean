import MissyKernel.Kmemlow
import MissyKernel.CircularList

/-!
# The boot information (`api.c`, `mboot.c`, `mboot2.c`)

`multiboot_init` looks at the loader's magic number and fills a table with the functions
of one of two drivers; the rest of the boot calls through the table. Memory is handed
in, because only `multiboot_relocate` writes to it. `none` is a call that does not
return: a tag list without an end, or a division by zero.

Pointers that the code computes are taken modulo `2 ^ 32`; a structure at a pointer is
read at the pointer plus the field's offset. `entriesRead` is a ghost field: the map
entries whose fields were read, newest first.

Functions that go through the table of `api.c` are definitions by cases on the driver installed
in it; `.start` is the state before any is. Both drivers are kept with their differences, the
checks that one of them makes and the other does not, and the addresses that one computes from
the count and the other from a size.
-/

namespace MissyKernel

/-- `MBOOT_ERROR_INVALID_MEMSIZE` -/
def mbootErrorInvalidMemsize : ℕ := 0x0001

/-- `MBOOT_ERROR_INVALID_MEMORY_MAP` -/
def mbootErrorInvalidMemoryMap : ℕ := 0x0002

/-- `MBOOT_ERROR_MISALIGNED_HEADER` -/
def mbootErrorMisalignedHeader : ℕ := 0x0004

/-- `MBOOT_ERROR_INVALID_BOOTSTRUCT` -/
def mbootErrorInvalidBootstruct : ℕ := 0x0005

/-- `MBOOT_ERROR_ENTRY_NOT_FOUND` -/
def mbootErrorEntryNotFound : ℕ := 0x0006

/-- `MBOOT_ERROR_UNSUPPORTED` -/
def mbootErrorUnsupported : ℕ := 0x0007

/-- `MULTIBOOT_MAGIC` -/
def multibootMagic : ℕ := 0x2badb002

/-- `MULTIBOOT2_MAGIC` -/
def multiboot2Magic : ℕ := 0x36d76289

/-- `MEMSZ_PRESENT` -/
def memszPresent : ℕ := 0x0001

/-- `MMAP_PRESENT` -/
def mmapPresent : ℕ := 0x0040

/-- `MBOOT2_TYPETAG_END` -/
def mboot2TypetagEnd : ℕ := 0x00

/-- `MBOOT2_TYPETAG_MEMSZ` -/
def mboot2TypetagMemsz : ℕ := 0x04

/-- `MBOOT2_TYPETAG_MMAP` -/
def mboot2TypetagMmap : ℕ := 0x06

/-- What `api_struct.get_memory_size` points at. -/
inductive GetMemorySize : Type where
  /-- `multiboot_unimplemented` -/
  | multibootUnimplemented
  /-- `mboot_get_memory_size` -/
  | mbootGetMemorySize
  /-- `mboot2_get_memory_size` -/
  | mboot2GetMemorySize

/-- What `api_struct.get_next_mmap_entry` points at. -/
inductive GetNextMmapEntry : Type where
  /-- `multiboot_unimplemented` -/
  | multibootUnimplemented
  /-- `mboot_get_next_mmap_entry` -/
  | mbootGetNextMmapEntry
  /-- `mboot2_get_next_mmap` -/
  | mboot2GetNextMmap

/-- What `api_struct.relocate_multiboot` points at. -/
inductive RelocateMultiboot : Type where
  /-- `multiboot_unimplemented` -/
  | multibootUnimplemented
  /-- `mboot2_relocate_tags` -/
  | mboot2RelocateTags

/-- `multiboot_api_t`, the driver table. -/
structure ApiStruct : Type where
  /-- `get_memory_size` -/
  getMemorySize : GetMemorySize
  /-- `get_next_mmap_entry` -/
  getNextMmapEntry : GetNextMmapEntry
  /-- `relocate_multiboot` -/
  relocateMultiboot : RelocateMultiboot

/-- The statics of the three files and the global `kinit_errno`. -/
structure Multiboot : Type where
  /-- `boot_magic` -/
  bootMagic : ℕ
  /-- `mboot_ptr` -/
  mbootPtr : ℕ
  /-- `api_struct` -/
  apiStruct : ApiStruct
  /-- `kinit_errno` -/
  kinitErrno : ℕ
  /-- `current_mmap_entry` of `mboot.c` -/
  mbootMmapEntry : ℕ
  /-- `current_mmap_entry` of `mboot2.c` -/
  mboot2MmapEntry : ℕ
  /-- ghost: the map entries whose fields were read -/
  entriesRead : List ℕ

/-- Load the little-endian double word at `a`. -/
def Mem.read64 (m : Mem) (a : ℕ) : BitVec 64 :=
  BitVec.ofNat 64 (m.read32 a + 2 ^ 32 * m.read32 (a + 4))

namespace Multiboot

/-- `kinit_errno = e` -/
def setErrno (st : Multiboot) (e : ℕ) : Multiboot := { st with kinitErrno := e }

/-- Log that the fields of the map entry at `p` are read. -/
def readEntry (st : Multiboot) (p : ℕ) : Multiboot :=
  { st with entriesRead := p :: st.entriesRead }

end Multiboot

/-- `init_api_struct` -/
def initApiStruct : ApiStruct := ⟨.multibootUnimplemented, .multibootUnimplemented,
  .multibootUnimplemented⟩

/-- The statics before the first call. The table is then null; nothing reads it before
`multiboot_init` has filled it. -/
def Multiboot.start (errno : ℕ) : Multiboot where
  bootMagic := 0
  mbootPtr := 0
  apiStruct := initApiStruct
  kinitErrno := errno
  mbootMmapEntry := 0
  mboot2MmapEntry := 0
  entriesRead := []

/-! ## The first protocol (`mboot.c`) -/

/-- `flags` of the `MULTIBOOT_INFO` at `p` -/
def infoFlags (m : Mem) (p : ℕ) : ℕ := m.read32 p

/-- `memorySzLo` -/
def infoMemorySzLo (m : Mem) (p : ℕ) : ℕ := m.read32 (p + 4)

/-- `memorySzHi` -/
def infoMemorySzHi (m : Mem) (p : ℕ) : ℕ := m.read32 (p + 8)

/-- `mmap_length` -/
def infoMmapLength (m : Mem) (p : ℕ) : ℕ := m.read32 (p + 44)

/-- `mmap_addr` -/
def infoMmapAddr (m : Mem) (p : ℕ) : ℕ := m.read32 (p + 48)

/-- `sz` of the `MEMORY_MAP_INF` at `p` -/
def memoryMapSz (m : Mem) (p : ℕ) : ℕ := m.read32 p

/-- Its `baseAddr`, `length` and `type`. -/
def memoryMapInf (m : Mem) (p : ℕ) : MmapData :=
  ⟨m.read64 (p + 4), m.read64 (p + 12), BitVec.ofNat 32 (m.read32 (p + 20))⟩

/-- `multiboot_required`: a flag and the error where it is missing. -/
def multibootRequired : List (ℕ × ℕ) :=
  [(memszPresent, mbootErrorInvalidMemsize), (mmapPresent, mbootErrorInvalidMemoryMap)]

/-- The loop of `check_multiboot_flags`. -/
def checkMultibootFlags (st : Multiboot) (flags : ℕ) : List (ℕ × ℕ) → ℤ × Multiboot
  | [] => (0, st)
  | (flag, errno) :: required =>
    if flags &&& flag = 0 then (-1, st.setErrno errno)
    else checkMultibootFlags st flags required

/-- `init_multiboot` -/
def initMultiboot (m : Mem) (st : Multiboot) : ℤ × Multiboot :=
  let st := { st with apiStruct :=
    { st.apiStruct with
      getMemorySize := .mbootGetMemorySize
      getNextMmapEntry := .mbootGetNextMmapEntry } }
  checkMultibootFlags st (infoFlags m st.mbootPtr) multibootRequired

/-- `mboot_get_memory_size`: the result and what it leaves in the caller's variable. -/
def mbootGetMemorySize (m : Mem) (st : Multiboot) (memsize : ℕ) : ℤ × ℕ × Multiboot :=
  if infoFlags m st.mbootPtr &&& memszPresent = 0 then
    (-1, memsize, st.setErrno mbootErrorEntryNotFound)
  else (0, (infoMemorySzLo m st.mbootPtr + infoMemorySzHi m st.mbootPtr) % 2 ^ 32, st)

/-- `multiboot_next_mmap`: the entry, or 0 for `NULL`. -/
def multibootNextMmap (m : Mem) (st : Multiboot) : ℕ × Multiboot :=
  let memoryMap := infoMmapAddr m st.mbootPtr
  let entries := infoMmapLength m st.mbootPtr / 24
  if st.mbootMmapEntry < entries then
    ((memoryMap + memoryMapSz m memoryMap + 4 + st.mbootMmapEntry * 24) % 2 ^ 32,
      { st with mbootMmapEntry := (st.mbootMmapEntry + 1) % 2 ^ 32 })
  else (0, st)

/-- `mboot_get_next_mmap_entry`: the result and what it leaves in the buffer. -/
def mbootGetNextMmapEntry (m : Mem) (st : Multiboot) (buf : MmapData) :
    ℤ × MmapData × Multiboot :=
  if infoFlags m st.mbootPtr &&& mmapPresent = 0 then
    (-1, buf, st.setErrno mbootErrorEntryNotFound)
  else
    let (next, st) := multibootNextMmap m st
    if next = 0 then (-1, buf, st) else (0, memoryMapInf m next, st.readEntry next)

/-! ## The second protocol (`mboot2.c`) -/

/-- `type` of the `MULTIBOOT2_TAG` at `p` -/
def tagType (m : Mem) (p : ℕ) : ℕ := m.read32 p

/-- Its `size`. -/
def tagSize (m : Mem) (p : ℕ) : ℕ := m.read32 (p + 4)

/-- `mem_lower` and `mem_upper` of the `MULTIBOOT2_TAG_MEMSZ` at `p`, added up. -/
def tagMemsz (m : Mem) (p : ℕ) : ℕ := (m.read32 (p + 8) + m.read32 (p + 12)) % 2 ^ 32

/-- `entry_sz` of the `MULTIBOOT2_TAG_MMAP` at `p` -/
def tagEntrySz (m : Mem) (p : ℕ) : ℕ := m.read32 (p + 8)

/-- `base_addr`, `length` and `type` of the `MULTIBOOT2_ENTRY_MMAP` at `p` -/
def entryMmap (m : Mem) (p : ℕ) : MmapData :=
  ⟨m.read64 p, m.read64 (p + 8), BitVec.ofNat 32 (m.read32 (p + 16))⟩

/-- The step of the search: past the tag and its padding. -/
def nextTag (m : Mem) (p : ℕ) : ℕ :=
  (p + ((tagSize m p + 7) % 2 ^ 32 &&& (0xffffffff ^^^ 7))) % 2 ^ 32

/-- Where the search ends: at an end tag or at a tag of the type. -/
def stopsAt (m : Mem) (type p : ℕ) : Prop := tagType m p = mboot2TypetagEnd ∨ tagType m p = type

instance (m : Mem) (type : ℕ) : DecidablePred (stopsAt m type) := fun _ =>
  inferInstanceAs (Decidable (_ ∨ _))

/-- `mboot2_find_tag`: the tag, or 0 for `NULL`. There are `2 ^ 32` addresses, so a search
of as many steps that has not ended never will. -/
def mboot2FindTag (m : Mem) (st : Multiboot) (type : ℕ) : Option (ℕ × Multiboot) :=
  if st.mbootPtr = 0 then some (0, st.setErrno mbootErrorInvalidBootstruct)
  else do
    let tag ← walk (nextTag m) (stopsAt m type) (2 ^ 32) ((st.mbootPtr + 8) % 2 ^ 32)
    if tagType m tag = mboot2TypetagEnd then some (0, st.setErrno mbootErrorEntryNotFound)
    else some (tag, st)

/-- `multiboot2_required` -/
def multiboot2Required : List (ℕ × ℕ) :=
  [(mboot2TypetagMemsz, mbootErrorInvalidMemsize),
    (mboot2TypetagMmap, mbootErrorInvalidMemoryMap)]

/-- The loop of `check_multiboot2_tags`. -/
def checkMultiboot2Tags (m : Mem) (st : Multiboot) : List (ℕ × ℕ) → Option (ℤ × Multiboot)
  | [] => some (0, st)
  | (type, errno) :: required => do
    let (tag, st) ← mboot2FindTag m st type
    if tag = 0 then
      if st.kinitErrno ≠ mbootErrorInvalidBootstruct then some (-1, st.setErrno errno)
      else some (-1, st)
    else checkMultiboot2Tags m st required

/-- `init_multiboot2` -/
def initMultiboot2 (m : Mem) (st : Multiboot) : Option (ℤ × Multiboot) :=
  let st := { st with
    apiStruct := ⟨.mboot2GetMemorySize, .mboot2GetNextMmap, .mboot2RelocateTags⟩ }
  checkMultiboot2Tags m st multiboot2Required

/-- `mboot2_get_memory_size` -/
def mboot2GetMemorySize (m : Mem) (st : Multiboot) (memsize : ℕ) :
    Option (ℤ × ℕ × Multiboot) := do
  let (tag, st) ← mboot2FindTag m st mboot2TypetagMemsz
  if tag = 0 then some (-1, memsize, st.setErrno mbootErrorEntryNotFound)
  else some (0, tagMemsz m tag, st)

/-- `mboot2_next_mmap`: the entry, or 0 for `NULL`. -/
def mboot2NextMmap (m : Mem) (st : Multiboot) : Option (ℕ × Multiboot) := do
  let (tag, st) ← mboot2FindTag m st mboot2TypetagMmap
  if tag = 0 then some (0, st.setErrno mbootErrorEntryNotFound)
  else if tagEntrySz m tag = 0 then none
  else
    let entries := (tagSize m tag + 2 ^ 32 - 16) % 2 ^ 32 / tagEntrySz m tag
    if st.mboot2MmapEntry < entries then
      some ((tag + 16 + 24 * st.mboot2MmapEntry) % 2 ^ 32,
        { st with mboot2MmapEntry := (st.mboot2MmapEntry + 1) % 2 ^ 32 })
    else some (0, st)

/-- `mboot2_get_next_mmap` -/
def mboot2GetNextMmap (m : Mem) (st : Multiboot) (buf : MmapData) :
    Option (ℤ × MmapData × Multiboot) := do
  let (next, st) ← mboot2NextMmap m st
  if next = 0 then some (-1, buf, st) else some (0, entryMmap m next, st.readEntry next)

/-- `mboot2_get_structure_length` -/
def mboot2GetStructureLength (m : Mem) (st : Multiboot) : ℕ × Multiboot :=
  if st.mbootPtr = 0 then (0, st.setErrno mbootErrorInvalidBootstruct)
  else (m.read32 st.mbootPtr, st)

/-- `ki_memcpy` -/
def kiMemcpy (m : Mem) (dst src count : ℕ) : Mem := m.copy dst src count

/-- `mboot2_relocate_tags` -/
def mboot2RelocateTags (m : Mem) (st : Multiboot) (kernelEnd : ℕ) : Mem × Multiboot :=
  let (size, st) := mboot2GetStructureLength m st
  let kernelEnd := (kernelEnd + size) % 2 ^ 32
  (kiMemcpy m kernelEnd st.mbootPtr size, { st with mbootPtr := kernelEnd })

/-! ## The driver table (`api.c`) -/

/-- `multiboot_init` -/
def multibootInit (m : Mem) (st : Multiboot) (multibootPtr headerMagic : ℕ) :
    Option (ℤ × Multiboot) :=
  if multibootPtr &&& 7 ≠ 0 then some (-1, st.setErrno mbootErrorMisalignedHeader)
  else
    let st := { st with
      bootMagic := headerMagic, mbootPtr := multibootPtr, apiStruct := initApiStruct }
    if st.bootMagic = multibootMagic then some (initMultiboot m st)
    else if st.bootMagic = multiboot2Magic then initMultiboot2 m st
    else some (-1, st.setErrno mbootErrorUnsupported)

/-- `multiboot_get_memsz` -/
def multibootGetMemsz (m : Mem) (st : Multiboot) : Option (ℕ × Multiboot) :=
  match st.apiStruct.getMemorySize with
  | .multibootUnimplemented => some (0, st)
  | .mbootGetMemorySize => some (mbootGetMemorySize m st 0).2
  | .mboot2GetMemorySize => (mboot2GetMemorySize m st 0).map Prod.snd

/-- `multiboot_get_mmap_next`: the result and what it leaves in the buffer. -/
def multibootGetMmapNext (m : Mem) (st : Multiboot) (buf : MmapData) :
    Option (ℤ × MmapData × Multiboot) := do
  let (result, buf, st) ← match st.apiStruct.getNextMmapEntry with
    | .multibootUnimplemented => some (0, buf, st)
    | .mbootGetNextMmapEntry => some (mbootGetNextMmapEntry m st buf)
    | .mboot2GetNextMmap => mboot2GetNextMmap m st buf
  if result ≠ -1 then some (0, buf, st) else some (-1, buf, st)

/-- `multiboot_relocate` -/
def multibootRelocate (m : Mem) (st : Multiboot) (kernelEnd : ℕ) : Mem × Multiboot :=
  match st.apiStruct.relocateMultiboot with
  | .multibootUnimplemented => (m, st)
  | .mboot2RelocateTags => mboot2RelocateTags m st kernelEnd

end MissyKernel
