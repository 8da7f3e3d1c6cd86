import LinuxOS.Blocks.Carving
import LinuxOS.Pages.Cache

namespace LinuxOS.Blocks
open Function (update)
open Links Pages

structure FreeList where
  freeList : Option Nat := none
  maxSize : Nat := 1
  size : Int := 0
  deriving DecidableEq

-- The two allocators differ in these functions only. `bucket` is Index where that
-- is a position in the arrays of buckets; `none` is a failed assertion. `freeSize`
-- is the size that Free finds from `_obj_size`, `settle` what is written into a
-- span that the page cache has given, `retire` into one that goes back. A `large`
-- request goes to the page cache alone. `region` is what newSpan asks of the system.
structure Design where
  roundUp : Nat → Nat
  bucket : Nat → Option Nat
  batch : Nat → Option Nat
  pages : Nat → Option Nat
  freeSize : Nat → Option Nat
  tooLong : FreeList → Bool
  large : Nat → Bool
  largePages : Nat → Nat
  region : Nat → Nat
  newSpan : PageCache → Nat → List Nat → Option (PageCache × Nat)
  release : PageCache → Nat → Option PageCache
  settle : Nat → Span → Option Span
  retire : Span → Span

-- Where a thread is between two critical sections. In `fetching` and `carved` it
-- is about to lock the bucket of `size`, in `lacking`, `releasing` and `dropping`
-- the page lock; `fresh` and `settled` are its private work on a new span.
-- `returning` is about to lock a bucket, `putting` is in the loop that holds it.
inductive Pc where
  | idle
  | fetching (size num : Nat)
  | lacking (size num : Nat)
  | fresh (size num span : Nat)
  | settled (size num span : Nat)
  | carved (size num span : Nat)
  | received (size start stop count : Nat)
  | freeing (ptr span : Nat)
  | returning (index : Nat) (cur : Option Nat)
  | putting (index : Nat) (cur : Option Nat)
  | releasing (index span : Nat) (next : Option Nat)
  | dropping (span : Nat)
  deriving DecidableEq

-- `mem` holds the link word at the start of each free block. `live` is what the
-- users have; `handed` are the spans that the page cache has given and not got back.
structure Heap where
  cache : PageCache := {}
  mem : Nat → Option Nat := fun _ => none
  buckets : Nat → List Nat := fun _ => []
  locks : Nat → Option Nat := fun _ => none
  lists : Nat → Nat → FreeList := fun _ _ => {}
  started : Nat → Bool := fun _ => false
  pcs : Nat → Pc := fun _ => .idle
  live : List Nat := []
  handed : List Nat := []

-- `page` is where SystemAlloc places a region, if the step needs one.
inductive Action where
  | alloc (t size page : Nat)
  | free (t ptr : Nat)
  | next (t page : Nat)

namespace Heap
variable (d : Design) (s : Heap) (t size num span start stop count ptr index page : Nat)

def spanAt (h : Nat) : Span := s.cache.spans h

def edit (h : Nat) (change : Span → Span) : Heap := {s with cache := s.cache.write h change}

def setPc (pc : Pc) : Heap := {s with pcs := update s.pcs t pc}

def setList (list : FreeList) : Heap := {s with lists := update s.lists t (update (s.lists t) index list)}

-- A region lies at a page the system has not given yet, and never at address null.
def Placed (count : Nat) : Prop := 0 < page ∧ s.cache.Fresh page count

instance : Decidable (s.Placed page count) := inferInstanceAs (Decidable (_ ∧ _))

-- Allocate: a block of the thread's own list, or else on to the central cache.
def allocate : Option Heap := do
  let size := d.roundUp size
  let index ← d.bucket size
  let list := s.lists t index
  match list.freeList with
  | some block =>
    some {s.setList t index {list with freeList := s.mem block, size := list.size - 1} with live := block :: s.live}
  | none =>
    let batch ← d.batch size
    let num := min batch list.maxSize
    let maxSize := if num = list.maxSize then list.maxSize + 1 else list.maxSize
    some ((s.setList t index {list with maxSize}).setPc t (.fetching size num))

def allocateLarge : Option Heap :=
  let pages := d.largePages size
  if s.Placed page (d.region pages) then do
    let (cache,span) ← d.newSpan s.cache pages [page]
    let cache := cache.write span fun s => {s with objSize := size, useCount := 1, isUsed := true, freeList := none}
    some {s with
      cache
      handed := span :: s.handed
      live := (cache.spans span).id * pageBytes :: s.live}
  else none

-- The end of FetchRangeObj, under the bucket lock.
def takeRange : Option Heap := do
  let start ← (s.spanAt span).freeList
  let (stop,count) := walk s.mem (num-1) start 1
  some ((({s with mem := update s.mem stop none} : Heap).edit span fun sp =>
    {sp with useCount := sp.useCount + count, freeList := s.mem stop}).setPc t (.received size start stop count))

def fetchRange : Option Heap := do
  let index ← d.bucket size
  if s.locks index = none then
    match (s.buckets index).find? fun h => (s.spanAt h).freeList.isSome with
    | some span => s.takeRange t size num span
    | none => some (s.setPc t (.lacking size num))
  else none

def fetchSpan : Option Heap := do
  let pages ← d.pages size
  if s.Placed page (d.region pages) then do
    let (cache,span) ← d.newSpan s.cache pages [page]
    some (({s with cache, handed := span :: s.handed} : Heap).setPc t (.fresh size num span))
  else none

def settleSpan : Option Heap := do
  let settled ← d.settle size (s.spanAt span)
  some ((s.edit span fun _ => settled).setPc t (.settled size num span))

def carveSpan : Heap :=
  let start := (s.spanAt span).id * pageBytes
  let bytes := (s.spanAt span).nPages * pageBytes
  (({s with mem := carve size (start+bytes) bytes start s.mem} : Heap).edit span fun sp =>
    {sp with freeList := some start}).setPc t (.carved size num span)

def listSpan : Option Heap := do
  let index ← d.bucket size
  if s.locks index = none then
    ({s with buckets := update s.buckets index (span :: s.buckets index)} : Heap).takeRange t size num span
  else none

def receive : Option Heap := do
  let index ← d.bucket size
  let list := s.lists t index
  let s := if 1 < count then
      ({s with mem := update s.mem stop list.freeList} : Heap).setList t index
        {list with freeList := s.mem start, size := list.size + (count - 1)}
    else s
  some (({s with live := start :: s.live} : Heap).setPc t .idle)

def listTooLong (list : FreeList) : Option Heap := do
  let start ← list.freeList
  let stop ← stride s.mem (list.maxSize - 1) start
  some ((({s with mem := update s.mem stop none} : Heap).setList t index
    {list with freeList := s.mem stop, size := list.size - list.maxSize}).setPc t (.returning index (some start)))

def deallocate : Option Heap :=
  let objSize := (s.spanAt span).objSize
  if d.large objSize then some (s.setPc t (.dropping span))
  else if s.started t then do
    let size ← d.freeSize objSize
    let index ← d.bucket size
    let list := s.lists t index
    let list' : FreeList := {list with freeList := some ptr, size := list.size + 1}
    let s : Heap := {s with mem := update s.mem ptr list.freeList}
    if d.tooLong list' then s.listTooLong t index list' else some ((s.setList t index list').setPc t .idle)
  else none

-- One turn of the loop that gives blocks back to their spans, under the bucket lock.
def putBack (cur : Nat) : Option Heap := do
  let next := s.mem cur
  let span ← s.cache.get (cur / pageBytes)
  let s := ({s with mem := update s.mem cur (s.spanAt span).freeList} : Heap).edit span fun sp =>
    {sp with freeList := some cur, useCount := sp.useCount - 1}
  if (s.spanAt span).useCount = 0 then
    some ((({s with
      buckets := fun i => (s.buckets i).erase span
      locks := update s.locks index none} : Heap).edit span d.retire).setPc t (.releasing index span next))
  else some (s.setPc t (.putting index next))

def releaseSpan (after : Pc) : Option Heap := do
  let cache ← d.release s.cache span
  some (({s with cache, handed := s.handed.erase span} : Heap).setPc t after)

def advance : Pc → Option Heap
  | .idle => none
  | .fetching size num => s.fetchRange d t size num
  | .lacking size num => s.fetchSpan d t size num page
  | .fresh size num span => s.settleSpan d t size num span
  | .settled size num span => some (s.carveSpan t size num span)
  | .carved size num span => s.listSpan d t size num span
  | .received size start stop count => s.receive d t size start stop count
  | .freeing ptr span => s.deallocate d t span ptr
  | .returning index cur =>
    if s.locks index = none then
      some (({s with locks := update s.locks index (some t)} : Heap).setPc t (.putting index cur))
    else none
  | .putting index none => some (({s with locks := update s.locks index none} : Heap).setPc t .idle)
  | .putting index (some cur) => s.putBack d t index cur
  | .releasing index span next => s.releaseSpan d t span (.returning index next)
  | .dropping span => s.releaseSpan d t span .idle

-- Users free only what they have, by a thread that is in no other call.
def step : Action → Option Heap
  | .alloc t size page =>
    match s.pcs t with
    | .idle =>
      if d.large size then s.allocateLarge d size page
      else ({s with started := update s.started t true} : Heap).allocate d t size
    | _ => none
  | .free t ptr =>
    match s.pcs t with
    | .idle =>
      if ptr ∈ s.live then
        (s.cache.get (ptr / pageBytes)).map fun span =>
          ({s with live := s.live.erase ptr} : Heap).setPc t (.freeing ptr span)
      else none
    | _ => none
  | .next t page => s.advance d t page (s.pcs t)

end Heap
end LinuxOS.Blocks
