import LinuxOS.Machine
import LinuxOS.Places
import LinuxOS.Blocks.Machine

namespace LinuxOS.Blocks
open Function (update)
open Links Pages Places
variable {d : Design} {s next : Heap} {a h k page size : Nat}

inductive Place where
  | live
  | cached (t index : Nat)
  | moving (t : Nat)
  | own (span : Nat)
  deriving DecidableEq

-- Who holds a span that the page cache has handed out: a thread before the span is
-- carved (or after its last block is gone), a thread with all the blocks still in
-- the span, a bucket, a thread that gives it back whole, a user.
inductive Stage where
  | making (t : Nat)
  | ready (t : Nat)
  | listed (index : Nat)
  | parting (t : Nat)
  | large
  deriving DecidableEq

def Stage.Circulates : Stage → Prop
  | .making _ => False
  | _ => True

def Stage.holder : Stage → Option Nat
  | .making t => some t
  | .ready t => some t
  | .parting t => some t
  | _ => none

def Pc.worksOn : Pc → Option Nat
  | .fresh _ _ h => some h
  | .settled _ _ h => some h
  | .carved _ _ h => some h
  | .releasing _ h _ => some h
  | .dropping h => some h
  | _ => none

-- What the invariant says exists: where every block is, and who holds each span.
structure View where
  kept : Place → List Nat
  stage : Nat → Stage

namespace Design

def blocks (d : Design) (span : Span) : List Nat :=
  let start := span.id * pageBytes
  let bytes := span.nPages * pageBytes
  if d.large span.objSize then [start] else cells span.objSize (start+bytes) bytes start

def Clears (d : Design) : Prop := ∀ span, d.retire span = {span with freeList := none}

-- A size class: what Free computes from it leads back to the same bucket.
structure Class (d : Design) (size index : Nat) : Prop where
  small : d.large size = false
  positive : 1 ≤ size
  again : d.freeSize size = some size
  bucket : d.bucket size = some index

end Design

def Pc.bucket (d : Design) : Pc → Option Nat
  | .received size _ _ _ => d.bucket size
  | .returning index _ => some index
  | .putting index _ => some index
  | .releasing index _ _ => some index
  | _ => none

-- The chain that a thread is moving, as its local variables lead to it.
def Pc.Holds (mem : Nat → Option Nat) : Pc → List Nat → Prop
  | .received _ start stop count,cells => Chain mem (some start) cells ∧ cells.getLast? = some stop ∧ cells.length = count
  | .freeing ptr _,cells => cells = [ptr]
  | .returning _ cur,cells => Chain mem cur cells
  | .putting _ cur,cells => Chain mem cur cells
  | .releasing _ _ cur,cells => Chain mem cur cells
  | _,cells => cells = []

-- What the page cache of an allocator must do for the layer above. `Good` is its
-- invariant, `Ready` what a release asks of the state, `Quiet` what is true of a
-- span that no user has blocks of, `Admits` which requests are made.
structure Laws (d : Design) (Good : PageCache → Set Nat → Prop) (Ready : PageCache → Set Nat → Nat → Prop)
    (Quiet : Span → Prop) (Admits : Nat → Prop) : Prop where
  start : Good {} ∅
  alone : ∀ {p held h k page}, Good p held → h ∈ held → k ∈ held → page ∈ (p.spans h).extent →
    page ∈ (p.spans k).extent → h = k
  mapped : ∀ {p held h page}, Good p held → h ∈ held → page ∈ (p.spans h).extent → p.get page = some h
  edit : ∀ {p held h} {change : Span → Span}, Good p held → h ∈ held → (change (p.spans h)).id = (p.spans h).id →
    (change (p.spans h)).nPages = (p.spans h).nPages →
    ((change (p.spans h)).isUsed = (p.spans h).isUsed ∨ (change (p.spans h)).isUsed = true) →
    Good (p.write h change) held
  newSpan : ∀ {p held n page q h}, Good p held → 1 ≤ n → 0 < page → p.Fresh page (d.region n) →
    d.newSpan p n [page] = some (q,h) → h ∉ held ∧ Good q (insert h held) ∧ (q.spans h).nPages = n ∧
      Quiet (q.spans h) ∧ ∀ k ∈ held, q.spans k = p.spans k
  release : ∀ {p held h q}, Good p held → h ∈ held → Quiet (p.spans h) → Ready p held h →
    d.release p h = some q → Good q (held \ {h}) ∧ ∀ k ∈ held, k ≠ h → q.spans k = p.spans k
  settle : ∀ {size span settled}, Quiet span → d.settle size span = some settled → settled.id = span.id ∧
    settled.nPages = span.nPages ∧ settled.objSize = size ∧ settled.useCount = 0 ∧
      (settled.isUsed = span.isUsed ∨ settled.isUsed = true)
  retire : (∀ span, d.retire span = span) ∨ d.Clears
  quiet : ∀ {span}, span.useCount = 0 ∨ d.large span.objSize = true → Quiet span
  small : ∀ {size index}, Admits size → d.large size = false → d.bucket (d.roundUp size) = some index →
    d.Class (d.roundUp size) index
  pages : ∀ {size index pages}, d.Class size index → d.pages size = some pages → 1 ≤ pages
  large : ∀ {size}, Admits size → d.large size = true → 1 ≤ d.largePages size
  tooLong : ∀ {list}, d.tooLong list = true → (list.maxSize : Int) ≤ list.size

namespace Heap
variable {v : View} {t : Nat} {c : Place}

def Fits (d : Design) (s : Heap) : Place → Nat → Prop
  | .live,_ => True
  | .cached _ index,h => d.Class (s.spanAt h).objSize index
  | .moving t,h => ∀ index, (s.pcs t).bucket d = some index → d.Class (s.spanAt h).objSize index
  | .own span,h => span = h

-- The data of the program lead to exactly the blocks that the view has in a place.
def Linked (s : Heap) (v : View) : Place → Prop
  | .live => v.kept .live = s.live
  | .cached t index => Chain s.mem (s.lists t index).freeList (v.kept (.cached t index)) ∧
      (s.lists t index).size = (v.kept (.cached t index)).length ∧ 1 ≤ (s.lists t index).maxSize
  | .moving t => (s.pcs t).Holds s.mem (v.kept (.moving t))
  | .own h => h ∈ s.handed → (v.stage h).Circulates → Chain s.mem (s.spanAt h).freeList (v.kept (.own h))

def Knows (d : Design) (Quiet : Span → Prop) (s : Heap) (v : View) (t : Nat) : Prop :=
  match s.pcs t with
  | .fetching size _ => ∃ index, d.Class size index
  | .lacking size _ => ∃ index, d.Class size index
  | .fresh size _ h => (∃ index, d.Class size index) ∧ h ∈ s.handed ∧ v.stage h = .making t ∧ Quiet (s.spanAt h)
  | .settled size _ h => (∃ index, d.Class size index) ∧ h ∈ s.handed ∧ v.stage h = .making t ∧
      (s.spanAt h).objSize = size ∧ (s.spanAt h).useCount = 0
  | .carved size _ h => h ∈ s.handed ∧ v.stage h = .ready t ∧ (s.spanAt h).objSize = size
  | .received size _ _ _ => ∃ index, d.Class size index
  | .freeing ptr h => h ∈ s.handed ∧ (v.stage h).Circulates ∧ ptr ∈ d.blocks (s.spanAt h)
  | .releasing _ h _ => h ∈ s.handed ∧ (v.stage h = .parting t ∨ v.stage h = .making t ∧ d.Clears) ∧
      Quiet (s.spanAt h)
  | .dropping h => h ∈ s.handed ∧ v.stage h = .making t ∧ d.large (s.spanAt h).objSize = true ∧ Quiet (s.spanAt h)
  | _ => True

-- The invariant. `every` and `source` together with `apart` say that each block of
-- a span in circulation is in exactly one place; `count` is the meaning of _use_count.
structure Sound (d : Design) (Good : PageCache → Set Nat → Prop) (Quiet : Span → Prop) (s : Heap) (v : View) :
    Prop where
  good : Good s.cache {h | h ∈ s.handed}
  distinct : s.handed.Nodup
  positive : ∀ h ∈ s.handed, 1 ≤ (s.spanAt h).nPages
  sorted : ∀ h ∈ s.handed, (v.stage h).Circulates → (v.stage h = .large ∧ d.large (s.spanAt h).objSize = true) ∨
    v.stage h ≠ .large ∧ ∃ index, d.Class (s.spanAt h).objSize index ∧ ∀ i, v.stage h = .listed i → i = index
  listed : ∀ i h, h ∈ s.buckets i ↔ h ∈ s.handed ∧ v.stage h = .listed i
  single : ∀ i, (s.buckets i).Nodup
  apart : Apart v.kept
  every : ∀ h ∈ s.handed, (v.stage h).Circulates → ∀ a ∈ d.blocks (s.spanAt h), ∃ c, a ∈ v.kept c
  source : ∀ c, ∀ a ∈ v.kept c, ∃ h ∈ s.handed, (v.stage h).Circulates ∧ a ∈ d.blocks (s.spanAt h) ∧ Fits d s c h
  count : ∀ h ∈ s.handed, (v.stage h).Circulates →
    (s.spanAt h).useCount + (v.kept (.own h)).length = (d.blocks (s.spanAt h)).length
  full : ∀ h ∈ s.handed, (∃ t, v.stage h = .ready t ∨ v.stage h = .parting t) →
    ∀ a ∈ d.blocks (s.spanAt h), a ∈ v.kept (.own h)
  linked : ∀ c, Linked s v c
  owner : ∀ h ∈ s.handed, ∀ t, (v.stage h).holder = some t → (s.pcs t).worksOn = some h
  knows : ∀ t, Knows d Quiet s v t

end Heap
end LinuxOS.Blocks
