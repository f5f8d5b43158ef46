import Mathlib.Logic.Function.Basic
import Rtbus.Base.Memory

/-!
# The pool allocator

`bmalloc.c` hands out blocks of a caller-provided pool. Every block starts with an eight-byte
header in the pool itself: one flag byte (low nibble `isBusy`, high nibble `index`), three bytes of
padding, and the 32-bit address of the next header. Blocks follow each other in address order up
to the high-water mark `_last_heap_object`.

Pointers are addresses below `2 ^ 32` and `NULL` is 0; pointer and `size_t` arithmetic is taken
modulo `2 ^ 32`. The two scans follow `next` pointers, so on a damaged pool they need not end. They
are bounded here by `2 ^ 32` steps: a chain of distinct addresses is shorter, and a chain that
repeats an address never ends. `none` is a scan that does not end.
-/

namespace Rtbus.Pool

/-- A 32-bit unsigned value. -/
def wrap (n : Nat) : Nat := n % 2 ^ 32

/-- 32-bit unsigned subtraction. -/
def sub32 (a b : Nat) : Nat := (a + 2 ^ 32 - b) % 2 ^ 32

/-- `NULL`. -/
abbrev null : Nat := 0

/-- `__MAX_ALIGNMENT__`. -/
def maxAlignment : Nat := 4

/-- `POOL_NUM_MAX`. -/
def poolNumMax : Nat := 2

/-- `sizeof(_m_header)`. -/
abbrev headerSize : Nat := 8

/-- The bound on the length of a chain of addresses. -/
def chainMax : Nat := 2 ^ 32

/-! ## Headers -/

/-- `head_p->flag.isBusy`, as a truth value. -/
def isBusy (m : Memory) (a : Nat) : Bool := (m a).toNat % 16 != 0

/-- `head_p->next`. -/
def next (m : Memory) (a : Nat) : Nat := m.load32 (a + 4)

/-- `head_p->flag.isBusy = 1; head_p->flag.index = index`. -/
def setBusy (m : Memory) (a index : Nat) : Memory := m.store8 a (UInt8.ofNat (1 + 16 * (index % 16)))

/-- `head_p->flag.isBusy = 0`, which keeps the index nibble. -/
def clearBusy (m : Memory) (a : Nat) : Memory := m.store8 a (UInt8.ofNat ((m a).toNat / 16 * 16))

/-- `head_p->next = p`. -/
def setNext (m : Memory) (a p : Nat) : Memory := m.store32 (a + 4) p

/-! ## The allocator's variables -/

/-- The entries of the file-scope arrays that belong to one pool. -/
structure PoolVars where
  lastHeapObject : Nat
  heapOfMemory : Nat
  topOfHeap : Nat
  active : Bool
  deriving DecidableEq

/-- Memory and the allocator's variables. -/
structure Heap where
  mem : Memory
  pools : Nat → PoolVars

/-- The variables with those of one pool replaced. -/
def Heap.setPool (h : Heap) (index : Nat) (v : PoolVars) : Heap :=
  { h with pools := Function.update h.pools index v }

/-- `(x + (__MAX_ALIGNMENT__ - 1)) & ~(__MAX_ALIGNMENT__ - 1)` in 32 bits. -/
def roundUp (x : Nat) : Nat := wrap (x + (maxAlignment - 1)) / maxAlignment * maxAlignment

/-- `init_mem_pool`. -/
def initMemPool (h : Heap) (index heap len : Nat) : Heap :=
  if index ≥ poolNumMax then h
  else
    let h := h.setPool index
      { lastHeapObject := 0, heapOfMemory := null, topOfHeap := null, active := false }
    if heap = null ∨ len ≤ headerSize then h
    else
      let alignedStart := roundUp heap
      let alignSkip := sub32 alignedStart heap
      if len ≤ wrap (alignSkip + headerSize) then h
      else
        let len := len - alignSkip
        { mem := h.mem.fill alignedStart len 0
          pools := Function.update h.pools index
            { lastHeapObject := 0, heapOfMemory := alignedStart,
              topOfHeap := wrap (alignedStart + (len - 1)), active := true } }

/-- `_make_new_mem_hole_xdata`: `ptr` is the end of what the block at `head` still needs. -/
def makeNewMemHole (m : Memory) (head ptr : Nat) : Memory :=
  if sub32 (next m head) ptr > headerSize then
    let p := next m head
    let m := setNext m head ptr
    let m := clearBusy m ptr
    setNext m ptr p
  else m

/-- The scan of `bmalloc` for a hole: the first free block from `ptr` on whose payload has at least
`n` bytes, or nothing below `last`. -/
def findHole (m : Memory) (last n : Nat) : Nat → Nat → Option (Option Nat)
  | 0, _ => none
  | fuel + 1, ptr =>
    if ptr < last then
      if isBusy m ptr = false ∧ sub32 (sub32 (next m ptr) ptr) headerSize ≥ n then some (some ptr)
      else findHole m last n fuel (next m ptr)
    else some none

/-- `bmalloc`: the payload address, or `NULL`. -/
def bmalloc (h : Heap) (index n : Nat) : Option (Heap × Nat) :=
  if index ≥ poolNumMax ∨ (h.pools index).active = false ∨ n = 0 then some (h, null)
  else
    let n := roundUp n
    let v := h.pools index
    -- the high-water mark is set up lazily
    let last := if v.lastHeapObject = 0 then v.heapOfMemory else v.lastHeapObject
    if wrap (n + headerSize) ≤ sub32 v.topOfHeap last then
      let last' := wrap (last + wrap (n + headerSize))
      let m := setBusy h.mem last index
      let m := setNext m last last'
      let result := sub32 last' n
      let m := if result ≠ 0 then m.fill result n 0 else m
      some (({ h with mem := m } : Heap).setPool index { v with lastHeapObject := last' }, result)
    else
      let h := h.setPool index { v with lastHeapObject := last }
      match findHole h.mem last n chainMax v.heapOfMemory with
      | none => none
      | some none => some (h, null)
      | some (some ptr) =>
        let ret := wrap (ptr + headerSize)
        let m := setBusy h.mem ptr index
        let m := makeNewMemHole m ptr (wrap (ret + n))
        some ({ h with mem := m }, ret)

/-- The scan of `bfree` for the block whose payload is at `ptr`: the block before it (itself if it
is the first) and the block. -/
def findBlock (m : Memory) (last ptr : Nat) : Nat → Nat → Nat → Option (Option (Nat × Nat))
  | 0, _, _ => none
  | fuel + 1, prev, curr =>
    if curr < last then
      if ptr = wrap (curr + headerSize) then some (some (prev, curr))
      else findBlock m last ptr fuel curr (next m curr)
    else some none

/-- What `bfree` does with the block it found: merge it with its free neighbours, and lower the
high-water mark if nothing is left above it. -/
def releaseBlock (h : Heap) (index prev curr : Nat) : Heap :=
  let v := h.pools index
  let m := h.mem
  if isBusy m curr then
    let nextH := if next m curr < v.lastHeapObject then next m curr else curr
    let merged : Memory × Nat :=
      if isBusy m prev = false then
        (setNext m prev (if isBusy m nextH then next m curr else next m nextH), prev)
      else
        let m := if isBusy m nextH = false then setNext m curr (next m nextH) else m
        (clearBusy m curr, curr)
    let h := { h with mem := merged.1 }
    if next merged.1 merged.2 = v.lastHeapObject then
      h.setPool index { v with lastHeapObject := merged.2 }
    else h
  else h

/-- `bfree`. -/
def bfree (h : Heap) (index ptr : Nat) : Option Heap :=
  if index ≥ poolNumMax ∨ (h.pools index).active = false ∨ ptr = null then some h
  else
    let v := h.pools index
    match findBlock h.mem v.lastHeapObject ptr chainMax v.heapOfMemory v.heapOfMemory with
    | none => none
    | some none => some h
    | some (some (prev, curr)) => some (releaseBlock h index prev curr)

end Rtbus.Pool
