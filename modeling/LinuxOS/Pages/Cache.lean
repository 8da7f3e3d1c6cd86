import Mathlib.Algebra.Group.Nat.Defs
import Mathlib.Data.List.Nodup
import Mathlib.Order.BooleanAlgebra.Set
import Mathlib.Logic.Function.Basic

namespace LinuxOS.Pages
open Function (update)

-- A span is a run of pages. Both allocators have this record under slightly
-- different field names (`_id` and `_page_id`, `_n_pages` and `_npage`).
-- The links `_prev` and `_next` are the lists below.
structure Span where
  id : Nat := 0
  nPages : Nat := 0
  useCount : Int := 0
  freeList : Option Nat := none
  isUsed : Bool := false
  objSize : Nat := 0
  deriving DecidableEq

def Span.extent (span : Span) : Set Nat := {page | span.id ≤ page ∧ page < span.id + span.nPages}

@[simp] theorem mem_extent {span : Span} {page : Nat} :
    page ∈ span.extent ↔ span.id ≤ page ∧ page < span.id + span.nPages := Iff.rfl

-- The page cache. A span object is a handle, its number in the order in which
-- the object pool carved it; `freeObjects` is the pool's list of deleted ones.
-- The page map is `radixTree`; `system` records what the system has given.
structure PageCache where
  spans : Nat → Span := fun _ => {}
  spanLists : Nat → List Nat := fun _ => []
  radixTree : Nat → Option Nat := fun _ => none
  freeObjects : List Nat := []
  objects : Nat := 0
  system : List (Nat × Nat) := []

def pageLimit : Nat := 2^51
def nPageList : Nat := 129
def pageBytes : Nat := 2^13

-- `span->_id - 1`, a 64-bit subtraction.
def pageBefore (id : Nat) : Nat := if id = 0 then 2^64 - 1 else id - 1

namespace PageCache
variable {p q : PageCache} {h n page start pages : Nat} {value : Option Nat}

def get (p : PageCache) (page : Nat) : Option Nat := if page < pageLimit then p.radixTree page else none

def set (p : PageCache) (page : Nat) (value : Option Nat) : Option PageCache :=
  if page < pageLimit then some {p with radixTree := update p.radixTree page value} else none

-- The loop `for (page = start; page < start + pages; ++page) set(page, value)`.
def mapSpanRange (p : PageCache) (start : Nat) (value : Option Nat) : Nat → Option PageCache
  | 0 => some p
  | pages+1 => (p.set start value).bind fun q => q.mapSpanRange (start+1) value pages

def paint (p : PageCache) (start pages : Nat) (value : Option Nat) : PageCache :=
  {p with radixTree := fun page => if start ≤ page ∧ page < start+pages then value else p.radixTree page}

def write (p : PageCache) (h : Nat) (change : Span → Span) : PageCache :=
  {p with spans := update p.spans h (change (p.spans h))}

-- `erase(span)` takes a span out of the list that it is linked in.
def unlink (p : PageCache) (h : Nat) : PageCache := {p with spanLists := fun n => (p.spanLists n).erase h}

def pushFront (p : PageCache) (n h : Nat) : Option PageCache :=
  if n < nPageList then some {p with spanLists := update p.spanLists n (h :: p.spanLists n)} else none

def popFront (p : PageCache) (n : Nat) : Option (PageCache × Nat) :=
  match p.spanLists n with
  | [] => none
  | h :: rest => some ({p with spanLists := update p.spanLists n rest},h)

def popBack (p : PageCache) (n : Nat) : Option (PageCache × Nat) :=
  (p.spanLists n).getLast?.map fun h => ({p with spanLists := update p.spanLists n (p.spanLists n).dropLast},h)

def newObject (p : PageCache) : PageCache × Nat :=
  match p.freeObjects with
  | h :: rest => ({p with freeObjects := rest, spans := update p.spans h {}},h)
  | [] => ({p with objects := p.objects+1, spans := update p.spans p.objects {}},p.objects)

def deleteObject (p : PageCache) (h : Nat) : PageCache := {p with freeObjects := h :: p.freeObjects}

def systemAlloc (p : PageCache) (page count : Nat) : PageCache := {p with system := (page,count) :: p.system}

-- What the system promises of a region: it lies in the address space (2^64
-- bytes, 2^51 pages) and meets no region that it gave before and still holds.
def Fresh (p : PageCache) (page count : Nat) : Prop := page + count ≤ pageLimit ∧
  ∀ region ∈ p.system, page + count ≤ region.1 ∨ region.1 + region.2 ≤ page

instance : Decidable (p.Fresh page n) := inferInstanceAs (Decidable (_ ∧ _))

def Filed (p : PageCache) (h : Nat) : Prop := ∃ n, h ∈ p.spanLists n

def Mapped (p : PageCache) (page : Nat) : Prop := ∃ region ∈ p.system, region.1 ≤ page ∧ page < region.1 + region.2

theorem setOf_erase {handed : List Nat} (distinct : handed.Nodup) :
    {k | k ∈ handed.erase h} = {k | k ∈ handed} \ {h} := by
  ext k
  rw [Set.mem_ofPred_eq,distinct.mem_erase_iff,Set.mem_sdiff,Set.mem_singleton_iff,and_comm]; rfl

theorem paint_nothing : p.paint start 0 value = p := by
  have nowhere : (fun page => if start ≤ page ∧ page < start+0 then value else p.radixTree page) = p.radixTree := by
    funext page
    exact if_neg (by omega)
  rw [paint,nowhere]

theorem mapSpanRange_eq (inside : start + pages ≤ pageLimit) :
    p.mapSpanRange start value pages = some (p.paint start pages value) := by
  induction pages generalizing start p with
  | zero => rw [paint_nothing]; rfl
  | succ pages ih =>
    simp only [mapSpanRange,set,if_pos (show start < pageLimit by omega),Option.bind_some]
    rw [ih (by omega)]
    congr 1
    simp only [paint,PageCache.mk.injEq,true_and,and_true]
    funext page
    by_cases first : page = start
    · subst page; simp
    · have split : (start+1 ≤ page ∧ page < start+1+pages) ↔ (start ≤ page ∧ page < start+(pages+1)) := by omega
      simp only [split,Function.update_of_ne first]

theorem set_of_lt (inside : page < pageLimit) :
    p.set page value = some {p with radixTree := update p.radixTree page value} := if_pos inside

theorem get_of_lt (inside : page < pageLimit) : p.get page = p.radixTree page := if_pos inside

theorem get_of_le (beyond : pageLimit ≤ page) : p.get page = none := if_neg (by omega)

@[simp] theorem paint_spans : (p.paint start pages value).spans = p.spans := rfl
@[simp] theorem paint_spanLists : (p.paint start pages value).spanLists = p.spanLists := rfl
@[simp] theorem unlink_spans : (p.unlink h).spans = p.spans := rfl
@[simp] theorem deleteObject_spans : (p.deleteObject h).spans = p.spans := rfl
@[simp] theorem write_spanLists (change : Span → Span) : (p.write h change).spanLists = p.spanLists := rfl
@[simp] theorem write_radixTree (change : Span → Span) : (p.write h change).radixTree = p.radixTree := rfl
@[simp] theorem write_system (change : Span → Span) : (p.write h change).system = p.system := rfl

@[simp] theorem write_same (change : Span → Span) : (p.write h change).spans h = change (p.spans h) := by
  simp [write]

theorem write_other {other : Nat} (change : Span → Span) (different : other ≠ h) :
    (p.write h change).spans other = p.spans other := by simp [write,different]

theorem newObject_spans : p.newObject.1.spans = update p.spans p.newObject.2 {} := by
  unfold newObject; split <;> rfl

@[simp] theorem newObject_spanLists : p.newObject.1.spanLists = p.spanLists := by unfold newObject; split <;> rfl
@[simp] theorem newObject_radixTree : p.newObject.1.radixTree = p.radixTree := by unfold newObject; split <;> rfl
@[simp] theorem newObject_system : p.newObject.1.system = p.system := by unfold newObject; split <;> rfl

@[simp] theorem newObject_same : p.newObject.1.spans p.newObject.2 = {} := by simp [newObject_spans]

theorem newObject_other {other : Nat} (different : other ≠ p.newObject.2) :
    p.newObject.1.spans other = p.spans other := by simp [newObject_spans,different]

theorem pushFront_of_lt (below : n < nPageList) :
    p.pushFront n h = some {p with spanLists := update p.spanLists n (h :: p.spanLists n)} := if_pos below

theorem set_tree (written : p.set page value = some q) : ∃ tree, q = {p with radixTree := tree} := by
  obtain ⟨_,made⟩ := Option.ite_none_right_eq_some.mp written
  cases made
  exact ⟨_,rfl⟩

theorem mapSpanRange_tree (mapped : p.mapSpanRange start value pages = some q) :
    ∃ tree, q = {p with radixTree := tree} := by
  induction pages generalizing start p with
  | zero => cases mapped; exact ⟨_,rfl⟩
  | succ pages ih =>
    obtain ⟨r,written,rest⟩ := Option.bind_eq_some_iff.mp mapped
    obtain ⟨first,rfl⟩ := set_tree written
    exact ih (p := {p with radixTree := first}) rest

theorem set_eq (written : p.set page value = some q) :
    page < pageLimit ∧ q.spans = p.spans ∧ q.radixTree = update p.radixTree page value := by
  obtain ⟨inside,made⟩ := Option.ite_none_right_eq_some.mp written
  cases made
  exact ⟨inside,rfl,rfl⟩

theorem pushFront_spans (pushed : p.pushFront n h = some q) : q.spans = p.spans := by
  obtain ⟨_,made⟩ := Option.ite_none_right_eq_some.mp pushed
  cases made
  rfl

theorem set_system (written : p.set page value = some q) : q.system = p.system := by
  obtain ⟨tree,rfl⟩ := set_tree written
  rfl

theorem mapSpanRange_system (mapped : p.mapSpanRange start value pages = some q) : q.system = p.system := by
  obtain ⟨tree,rfl⟩ := mapSpanRange_tree mapped
  rfl

theorem pushFront_system (pushed : p.pushFront n h = some q) : q.system = p.system := by
  obtain ⟨_,made⟩ := Option.ite_none_right_eq_some.mp pushed
  cases made; rfl

theorem popFront_system (popped : p.popFront n = some (q,h)) : q.system = p.system := by
  unfold popFront at popped
  split at popped
  · cases popped
  · cases popped; rfl

theorem popBack_system (popped : p.popBack n = some (q,h)) : q.system = p.system := by
  obtain ⟨last,_,made⟩ := Option.map_eq_some_iff.mp popped
  cases made; rfl

theorem paint_radixTree : (p.paint start pages value).radixTree page =
    if start ≤ page ∧ page < start+pages then value else p.radixTree page := rfl

end PageCache
end LinuxOS.Pages
