import Shmily.Lib.CycleList
import Shmily.Mm.DoublebitMap

/-! # The memory server

`MemoryManager` hands out virtual pages from a two-bit map, gives each of them
a physical page from a bitmap, and joins the two in the page table. Requests of
at most 1024 bytes are served from blocks of seven sizes; each page of such
blocks starts with a header, and its free blocks are linked through their own
first bytes.
-/

namespace Shmily.Mm

open Foundation Lib

/-- Virtual memory in cells of eight bytes; addresses are natural numbers. A cell is known by its address: `prev`
is its first word and `next` its second one, which is how the code lays out a
`cyclelist_elem`. -/
abbrev Memory := Links Nat

/-- `memset(addr, 0, cnt)` on whole cells. -/
def memset (memory : Memory) (addr cnt : Nat) : Memory where
  prev cell := if addr ≤ cell ∧ cell < addr + cnt then 0 else memory.prev cell
  next cell := if addr ≤ cell ∧ cell < addr + cnt then 0 else memory.next cell

/-- Subtraction of `unsigned int`. -/
def subU32 (left right : Nat) : Nat := (left + 2 ^ 32 - right) % 2 ^ 32

/-! ## Physical pages and the page table -/

/-- `paging::page_size`. -/
def pageSize : Nat := 4096

/-- `paging::US_U | paging::RW_W | paging::P`. -/
def pageAttr : Nat := 7

/-- The page frame of the page directory, which `paging::page_dir_base` names. -/
def dirFrame : Nat := 0x100000 / pageSize

/-- The address in an entry of the page directory or of a page table. -/
def entryAddr (entry : Nat) : Nat := entry &&& 0xfffff000

def isPresent (entry : Nat) : Bool := entry &&& 1 ≠ 0

/-- `struct mem_pool` together with the frames that hold page tables: the entries
of the directory are those of the frame `dirFrame`. `exhausted` records that a
search for a page has failed; the code does not look at it. -/
structure Paging where
  phyaddrBmap : Bitmap
  phyaddrStart : Nat
  tables : Nat → Nat → Nat
  exhausted : Bool

namespace Paging

/-- `MemoryManager::get_phy_page`; `0` is the null pointer. -/
def getPhyPage (paging : Paging) : Paging × Nat :=
  match paging.phyaddrBmap.bitmapScan 1 with
  | none => ({ paging with exhausted := true }, 0)
  | some idxFree =>
      ({ paging with phyaddrBmap := paging.phyaddrBmap.setBit idxFree true },
        paging.phyaddrStart + idxFree * pageSize)

/-- The entry that `vaddr2pde` points at. The last directory entry names the
directory itself, so the code sees it at `0xfffff000`. -/
def vaddr2pde (vaddr : Nat) : Nat × Nat := (dirFrame, vaddr / 2 ^ 22)

def entry (paging : Paging) (place : Nat × Nat) : Nat := paging.tables place.1 place.2

def setEntry (paging : Paging) (place : Nat × Nat) (value : Nat) : Paging :=
  { paging with
    tables := Function.update paging.tables place.1
      (Function.update (paging.tables place.1) place.2 value) }

/-- The frame of the page table for an address. -/
def tableFrame (paging : Paging) (vaddr : Nat) : Nat :=
  entryAddr (paging.entry (vaddr2pde vaddr)) / pageSize

/-- The entry that `vaddr2pte` points at. The source computes the pointer but has no `return`
statement; its callers are taken to get it. -/
def vaddr2pte (paging : Paging) (vaddr : Nat) : Nat × Nat :=
  (paging.tableFrame vaddr, vaddr / pageSize % 1024)

/-- `vaddr2phy`. -/
def vaddr2phy (paging : Paging) (vaddr : Nat) : Nat :=
  entryAddr (paging.entry (paging.vaddr2pte vaddr)) + vaddr % pageSize

/-- `MemoryManager::map_vir_phy`. An entry that is present is left alone. -/
def mapVirPhy (paging : Paging) (viraddr phyaddr : Nat) : Paging :=
  if isPresent (paging.entry (vaddr2pde viraddr)) then
    if isPresent (paging.entry (paging.vaddr2pte viraddr)) then paging
    else paging.setEntry (paging.vaddr2pte viraddr) (phyaddr ||| pageAttr)
  else
    let taken := paging.getPhyPage
    let paging := taken.1.setEntry (vaddr2pde viraddr) (taken.2 ||| pageAttr)
    let paging := { paging with
      tables := Function.update paging.tables (paging.tableFrame viraddr) fun _ => 0 }
    paging.setEntry (paging.vaddr2pte viraddr) (phyaddr ||| pageAttr)

/-- The loop of `malloc_page`. -/
def mapPages : Nat → Nat → Paging → Paging
  | 0, _, paging => paging
  | cnt + 1, vaddr, paging =>
      let taken := paging.getPhyPage
      mapPages cnt (vaddr + pageSize) (taken.1.mapVirPhy vaddr taken.2)

/-- `MemoryManager::free_phy_page`. -/
def freePhyPage (paging : Paging) (phyaddr : Nat) : Paging :=
  { paging with
    phyaddrBmap :=
      paging.phyaddrBmap.setBit (subU32 phyaddr paging.phyaddrStart / pageSize) false }

/-- `MemoryManager::remove_map_addr`; the mask is `~paging::P`. -/
def removeMapAddr (paging : Paging) (viraddr : Nat) : Paging :=
  paging.setEntry (paging.vaddr2pte viraddr)
    (paging.entry (paging.vaddr2pte viraddr) &&& 0xfffffffe)

/-- The loop of `free_page`. -/
def unmapPages : Nat → Nat → Paging → Paging
  | 0, _, paging => paging
  | cnt + 1, vaddr, paging =>
      let paging := (paging.freePhyPage (paging.vaddr2phy vaddr)).removeMapAddr vaddr
      unmapPages cnt (vaddr + pageSize) paging

end Paging

/-! ## Pages of small blocks -/

/-- `sizeof(struct small_mem_header)`. -/
def headerSize : Nat := 32

/-- `each_block_size` of the header at the start of a page. -/
def eachBlockSize (memory : Memory) (page : Nat) : Nat := memory.prev (page + 8)

/-- `free_cnts` of the header. -/
def freeCnts (memory : Memory) (page : Nat) : Nat := memory.next (page + 8)

def setFreeCnts (memory : Memory) (page : Nat) (value : Nat) : Memory :=
  memory.setNext (page + 8) value

/-- `page_in_free_queue` of the header. -/
def pageInFreeQueue (page : Nat) : CycleList Nat := ⟨page + 16, page + 24⟩

/-- The loop of `install_mem_header`, which reads the header in every round. -/
def appendBlocks (page : Nat) : Nat → Nat → Nat → Memory → Memory
  | 0, _, _, memory => memory
  | fuel + 1, i, elem, memory =>
      if i < freeCnts memory page then
        let memory := (pageInFreeQueue page).append memory elem
        appendBlocks page fuel (i + 1) (elem + eachBlockSize memory page) memory
      else memory

/-- `install_mem_header`. A page has room for less than `pageSize` blocks. -/
def installMemHeader (memory : Memory) (page blockSize : Nat) : Memory :=
  if page % pageSize ≠ 0 then memory
  else
    let memory := memory.setPrev (page + 8) blockSize
    let memory := setFreeCnts memory page ((pageSize - headerSize) / blockSize)
    let memory := (pageInFreeQueue page).initializeList memory
    appendBlocks page pageSize 0 (page + headerSize) memory

/-- Take the first free block of a page: `page_in_free_queue.pop()` and
`free_cnts--`. -/
def popBlock (memory : Memory) (page : Nat) : Memory × Nat :=
  let popped := (pageInFreeQueue page).pop memory
  (setFreeCnts popped.1 page (subU32 (freeCnts popped.1 page) 1), popped.2)

/-- Give a block back to its page: `page_in_free_queue.append(buf)` and
`free_cnts++`. -/
def giveBlock (memory : Memory) (page buf : Nat) : Memory :=
  let memory := (pageInFreeQueue page).append memory buf
  setFreeCnts memory page ((freeCnts memory page + 1) % 2 ^ 32)

/-! ## The manager -/

/-- `MemoryManager`, with the memory it works on. `memDesc` is the address of the
seven lists; `virExhausted` records that a search for virtual pages has failed,
which the code does not look at. -/
structure MemoryManager where
  vaddrBmap : DoublebitMap
  vaddrStart : Nat
  virExhausted : Bool
  paging : Paging
  memDesc : Nat
  memory : Memory

/-- The list `mem_desc[desc_idx]` of an array at an address. -/
def descAt (memDesc : Nat) (descIdx : Nat) : CycleList Nat :=
  ⟨memDesc + 16 * descIdx, memDesc + 16 * descIdx + 8⟩

namespace MemoryManager

/-- `mem_desc[desc_idx]`. -/
def desc (mm : MemoryManager) (descIdx : Nat) : CycleList Nat := descAt mm.memDesc descIdx

/-- `MemoryManager::get_vir_page`. -/
def getVirPage (mm : MemoryManager) (cnt : Nat) : MemoryManager × Nat :=
  let found := mm.vaddrBmap.getFreeSlots cnt
  match found.2 with
  | none => ({ mm with vaddrBmap := found.1, virExhausted := true }, 0)
  | some idxStart => ({ mm with vaddrBmap := found.1 }, mm.vaddrStart + idxStart * pageSize)

/-- `MemoryManager::malloc_page`. -/
def mallocPage (mm : MemoryManager) (cnt : Nat) : MemoryManager × Nat :=
  let taken := mm.getVirPage cnt
  ({ taken.1 with paging := taken.1.paging.mapPages cnt taken.2 }, taken.2)

/-- `MemoryManager::free_page`, with `free_vir_page`. -/
def freePage (mm : MemoryManager) (viraddr : Nat) : Option MemoryManager :=
  (mm.vaddrBmap.freeSlots (subU32 viraddr mm.vaddrStart / pageSize)).map fun freed =>
    { mm with vaddrBmap := freed.1, paging := mm.paging.unmapPages freed.2 viraddr }

/-- The loop that finds the descriptor of a size. From the 28th doubling on
`cnt_start` is zero, so it does not end for sizes above `2 ^ 31`. -/
def descFrom : Nat → Nat → Nat → Option Nat
  | 0, _, _ => none
  | fuel + 1, cntStart, bytes =>
      if cntStart < bytes then (descFrom fuel (cntStart * 2) bytes).map (· + 1) else some 0

def descIdxOf (bytes : Nat) : Option Nat := descFrom 28 16 bytes

/-- A bound on the length of the lists of pages. -/
def listBound (mm : MemoryManager) : Nat := mm.vaddrBmap.slots + 1

/-- The loop of `malloc` over the pages of a list: the first page it meets that
has a free block. -/
def scanPages (mm : MemoryManager) (list : CycleList Nat) : Nat → Nat → Option (Option Nat)
  | 0, _ => some none
  | left + 1, i =>
      (list.getElem mm.memory mm.listBound i).bind fun elem =>
        if freeCnts mm.memory elem = 0 then scanPages mm list left (i + 1) else some (some elem)

/-- The branch of `malloc` for a page with a free block; a page that becomes full
is put to the tail. -/
def reuseBlock (mm : MemoryManager) (list : CycleList Nat) (page : Nat) :
    MemoryManager × Nat :=
  let popped := popBlock mm.memory page
  let memory :=
    if freeCnts popped.1 page = 0 then list.append (CycleList.remove popped.1 page) page
    else popped.1
  ({ mm with memory := memset memory popped.2 (eachBlockSize memory page) }, popped.2)

/-- The end of `malloc`: a new page of blocks. -/
def newBlock (mm : MemoryManager) (list : CycleList Nat) (descIdx : Nat) :
    MemoryManager × Nat :=
  let taken := mm.mallocPage 1
  let memory := installMemHeader taken.1.memory taken.2 (2 <<< (descIdx + 3))
  let popped := popBlock (list.push memory taken.2) taken.2
  ({ taken.1 with memory := memset popped.1 popped.2 (eachBlockSize popped.1 taken.2) },
    popped.2)

/-- The search of `malloc` for a page with a free block. -/
def findPage (mm : MemoryManager) (descIdx : Nat) : Option (Option Nat) :=
  ((mm.desc descIdx).getLength mm.memory mm.listBound).bind fun length =>
    mm.scanPages (mm.desc descIdx) length 0

/-- `malloc` of at most 1024 bytes. -/
def mallocSmall (mm : MemoryManager) (cntBytes : Nat) : Option (MemoryManager × Nat) :=
  (descIdxOf cntBytes).bind fun descIdx =>
    (mm.findPage descIdx).map fun found =>
      match found with
      | some page => mm.reuseBlock (mm.desc descIdx) page
      | none => mm.newBlock (mm.desc descIdx) descIdx

/-- `DIV_ROUND_UP(cnt_bytes, paging::page_size)`. -/
def pageCnt (cntBytes : Nat) : Nat := (cntBytes + pageSize - 1) % 2 ^ 32 / pageSize

/-- `malloc` of more than 1024 bytes. -/
def mallocLarge (mm : MemoryManager) (cntBytes : Nat) : MemoryManager × Nat :=
  let taken := mm.mallocPage (pageCnt cntBytes)
  ({ taken.1 with
      memory := memset taken.1.memory taken.2 (pageCnt cntBytes * pageSize % 2 ^ 32) }, taken.2)

/-- `MemoryManager::malloc`. -/
def malloc (mm : MemoryManager) (cntBytes : Nat) : Option (MemoryManager × Nat) :=
  if cntBytes = 0 then some (mm, 0)
  else if cntBytes > 1024 then some (mm.mallocLarge cntBytes)
  else mm.mallocSmall cntBytes

/-- `free` of a block of a page. In both tests only the size of the header is
divided by the block size, and they compare with nearly `pageSize`. -/
def freeSmall (mm : MemoryManager) (buf : Nat) : Option MemoryManager :=
  let page := buf / pageSize * pageSize
  let memory := giveBlock mm.memory page buf
  (descIdxOf (eachBlockSize memory page)).bind fun descIdx =>
    let all := pageSize - headerSize / eachBlockSize memory page
    if freeCnts memory page = all then
      { mm with memory := CycleList.remove memory page }.freePage page
    else if 5 * freeCnts memory page % 2 ^ 32 ≥ all then
      some { mm with memory := (mm.desc descIdx).push (CycleList.remove memory page) page }
    else some { mm with memory := memory }

/-- `MemoryManager::free`. -/
def free (mm : MemoryManager) (buf : Nat) : Option MemoryManager :=
  if buf % pageSize = 0 then mm.freePage buf else mm.freeSmall buf

end MemoryManager

/-! ## Boot -/

/-- The start of the memory that other processes may use, virtual and physical. -/
def stationaryMem : Nat := 0x200000

/-- What the memory server finds when it starts: the capacity that the loader has
stored, and whatever the memory holds. The memory below `stationaryMem` is there,
the manager itself lives in it, and the two-bit map is clear. -/
structure Boot where
  memCapacity : Nat
  phyaddrBytes : Nat → Byte
  vaddrBytes : Nat → Byte
  memory : Memory
  frames : Nat → Nat → Nat
  memDesc : Nat
  capacity_ge : stationaryMem ≤ memCapacity
  capacity_lt : memCapacity < 2 ^ 32
  memDesc_le : memDesc + 112 ≤ stationaryMem
  vaddr_free : ∀ slot < (memCapacity - stationaryMem) / pageSize / 8 * 8,
    DoublebitMap.slotIn (vaddrBytes (slot * 2 / 8)) (slot * 2 % 8) = DoublebitMap.slotFree

namespace Boot

/-- `install_page`: one page table that maps the first 528 pages to themselves.
The rest of this table is not written. -/
def installPage (frames : Nat → Nat → Nat) : Nat → Nat → Nat :=
  let dir := fun idx =>
    if idx = 0 then (dirFrame + 1) * pageSize ||| pageAttr
    else if idx = 1023 then dirFrame * pageSize + pageAttr
    else 0
  let first := fun idx =>
    if idx < 528 then idx * pageSize ||| pageAttr else frames (dirFrame + 1) idx
  Function.update (Function.update frames dirFrame dir) (dirFrame + 1) first

/-- `bmap_length` of the constructor. -/
def bmapLength (boot : Boot) : Nat := subU32 boot.memCapacity stationaryMem / pageSize / 8

/-- The constructors of the first lists of `mem_desc`. -/
def initDescs (memDesc : Nat) : Nat → Memory → Memory
  | 0, memory => memory
  | cnt + 1, memory =>
      (descAt memDesc cnt).initializeList (initDescs memDesc cnt memory)

/-- `MemoryManager::MemoryManager`. `DoublebitMap::initialize` passes the length of
the map as the value to fill it with and fills no byte. -/
def memoryManager (boot : Boot) : MemoryManager where
  vaddrBmap := ⟨boot.bmapLength, boot.vaddrBytes⟩
  vaddrStart := stationaryMem
  virExhausted := false
  paging :=
    { phyaddrBmap := (⟨boot.bmapLength, boot.phyaddrBytes⟩ : Bitmap).initBitmap
      phyaddrStart := stationaryMem
      tables := installPage boot.frames
      exhausted := false }
  memDesc := boot.memDesc
  memory := initDescs boot.memDesc 7 boot.memory

end Boot

/-! ## Runs of requests -/

/-- The server and the allocations that its clients hold, with the number of bytes
asked for. -/
structure Heap where
  mm : MemoryManager
  live : Nat → Option Nat

/-- A request, or a client that writes a cell of an allocation. -/
inductive HeapEvent where
  | malloc (cntBytes : Nat)
  | free (addr : Nat)
  | write (block cell : Nat) (first second : Nat)

namespace Heap

/-- The number of bytes that an allocation occupies. -/
def rangeBytes (cntBytes : Nat) : Nat :=
  if cntBytes > 1024 then MemoryManager.pageCnt cntBytes * pageSize
  else 2 <<< ((MemoryManager.descIdxOf cntBytes).getD 0 + 3)

def step (heap : Heap) : HeapEvent → Option Heap
  | .malloc cntBytes =>
      (heap.mm.malloc cntBytes).map fun done =>
        ⟨done.1, Function.update heap.live done.2 (some cntBytes)⟩
  | .free addr => (heap.mm.free addr).map fun mm => ⟨mm, Function.update heap.live addr none⟩
  | .write _ cell first second =>
      some { heap with
        mm := { heap.mm with
          memory := (heap.mm.memory.setPrev cell first).setNext cell second } }

/-- Requests have a positive size below `2 ^ 31`, and clients free and write what
they hold. -/
def Admits (heap : Heap) : HeapEvent → Prop
  | .malloc cntBytes => 1 ≤ cntBytes ∧ cntBytes < 2 ^ 31
  | .free addr => heap.live addr ≠ none
  | .write block cell _ _ =>
      8 ∣ cell ∧ block ≤ cell ∧
        ∃ cntBytes ∈ heap.live block, cell + 8 ≤ block + rangeBytes cntBytes

instance (heap : Heap) (event : HeapEvent) : Decidable (heap.Admits event) :=
  match event with
  | .malloc _ => inferInstanceAs (Decidable (_ ∧ _))
  | .free _ => inferInstanceAs (Decidable (_ ≠ _))
  | .write _ _ _ _ => inferInstanceAs (Decidable (_ ∧ _ ∧ ∃ cntBytes ∈ heap.live _, _))

/-- The server has just started. -/
def initial (boot : Boot) : Heap := ⟨boot.memoryManager, fun _ => none⟩

end Heap

end Shmily.Mm
