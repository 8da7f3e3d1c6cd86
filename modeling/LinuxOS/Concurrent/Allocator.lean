import LinuxOS.Blocks.Hoarding
import LinuxOS.Concurrent.Release
import LinuxOS.Concurrent.SizeClass

namespace LinuxOS.Concurrent
open Machine
open Pages Pages.PageCache Blocks
variable {size index : Nat} {p q : PageCache} {held : Set Nat} {h n t page : Nat} {s next : Heap} {v : View}

-- The buckets are arrays of NFREE_LISTS places.
def bucket (size : Nat) : Option Nat :=
  (SizeClass.index size).bind fun index => if index < nFreeLists then some index else none

-- ConcurrentMalloc and ConcurrentDelete. `settle` is what FetchRangeObj writes after
-- it has released the page lock; `_is_used` is not set before that.
def allocator : Design where
  roundUp := SizeClass.roundUp
  bucket := bucket
  batch := SizeClass.numMoveSize
  pages := SizeClass.numMovePage
  freeSize := fun size => if size < maxBytes then some (SizeClass.roundUp size) else none
  tooLong := fun list => list.maxSize ≤ list.size
  large := fun size => maxBytes < size
  largePages := fun size => SizeClass.roundUp size >>> pageShift
  region := region
  newSpan := newSpan
  release := releaseSpanToPageCache
  settle := fun size span =>
    if size ≤ span.nPages * pageBytes ∧ 0 < span.nPages * pageBytes then
      some {span with objSize := size, useCount := 0, isUsed := true}
    else none
  retire := fun span => {span with freeList := none}

def Serving (p : PageCache) (held : Set Nat) : Prop := ∃ area, Kept p held ∅ area

-- Above this a size is rounded up to zero pages.
def Requested (size : Nat) : Prop := size + pageBytes ≤ 2^64

instance : DecidablePred Requested := fun size => inferInstanceAs (Decidable (size + pageBytes ≤ 2^64))

theorem roundUp_small (top : size ≤ 262144) : size ≤ SizeClass.roundUp size ∧ SizeClass.roundUp size ≤ 262144 ∧
    SizeClass.roundUp (SizeClass.roundUp size) = SizeClass.roundUp size := by
  obtain ⟨q,parts⟩ := SizeClass.roundUp_shape top
  have below : SizeClass.roundUp size ≤ 262144 := by omega
  obtain ⟨r,again⟩ := SizeClass.roundUp_shape below
  omega

theorem roundUp_large (request : Requested size) (large : 262144 < size) : ∃ q, SizeClass.roundUp size = q * 2^13 ∧
    size ≤ SizeClass.roundUp size := by
  rw [Requested,pageBytes] at request
  obtain ⟨q,rounded,above,_⟩ := SizeClass._roundUp_parts size (k := 13) (by omega)
  have equal : SizeClass.roundUp size = SizeClass._roundUp size (2^13) := by
    rw [SizeClass.roundUp,if_neg (by omega),if_neg (by omega),if_neg (by omega),if_neg (by omega),if_neg (by omega)]
    rfl
  exact ⟨q,equal.trans rounded,by rw [equal,rounded]; exact above⟩

theorem bucket_some (found : bucket size = some index) : 1 ≤ size ∧ size ≤ 262144 := by
  obtain ⟨i,found,inside⟩ := Option.bind_eq_some_iff.mp found
  constructor
  · by_contra zero
    obtain rfl : size = 0 := by omega
    cases found
    cases inside
  · rw [SizeClass.index] at found
    by_contra large
    rw [if_neg (show ¬size ≤ 128 by omega),if_neg (show ¬size ≤ 1024 by omega),if_neg (show ¬size ≤ 8 * 1024 by omega),
      if_neg (show ¬size ≤ 64 * 1024 by omega),if_neg (show ¬size ≤ 256 * 1024 by omega)] at found
    split at found <;> cases found

theorem class_of_request (request : Requested size) (inside : bucket (SizeClass.roundUp size) = some index) :
    allocator.Class (SizeClass.roundUp size) index := by
  obtain ⟨positive,rounded⟩ := bucket_some inside
  have top : size ≤ 262144 := by
    by_contra large
    obtain ⟨q,_,above⟩ := roundUp_large request (by omega)
    omega
  have again := (roundUp_small top).2.2
  have below : SizeClass.roundUp size < maxBytes := by
    rw [maxBytes]; omega
  refine ⟨decide_eq_false (by omega),positive,?_,inside⟩
  show (if SizeClass.roundUp size < maxBytes then some (SizeClass.roundUp (SizeClass.roundUp size)) else none) = _
  rw [if_pos below,again]

-- What the allocator relies on for the sizes that ConcurrentMalloc sends to the thread
-- cache; `back` is the way of DeAllocate from the size in the span to the bucket.
structure Fits (a b : Nat) : Prop where
  inside : ∃ i, SizeClass.index (SizeClass.roundUp a) = some i ∧ i < nFreeLists
  large : a ≤ SizeClass.roundUp a
  again : SizeClass.roundUp (SizeClass.roundUp a) = SizeClass.roundUp a
  bucket : SizeClass.index (SizeClass.roundUp a) = SizeClass.index (SizeClass.roundUp b) ↔
    SizeClass.roundUp a = SizeClass.roundUp b
  back : ∃ size i, allocator.freeSize (SizeClass.roundUp a) = some size ∧ SizeClass.index size = some i ∧
    SizeClass.index (SizeClass.roundUp a) = some i

theorem index_eq_iff {a b : Nat} (positive : 1 ≤ a) (top : a ≤ 262144) (positive' : 1 ≤ b) (top' : b ≤ maxBytes) :
    SizeClass.index (SizeClass.roundUp a) = SizeClass.index (SizeClass.roundUp b) ↔
      SizeClass.roundUp a = SizeClass.roundUp b := by
  refine ⟨fun same => ?_,congrArg SizeClass.index⟩
  by_cases small : b ≤ 262144
  · obtain ⟨q,i,found,parts⟩ := SizeClass.index_roundUp positive top
    obtain ⟨r,j,found',parts'⟩ := SizeClass.index_roundUp positive' small
    rw [found,found',Option.some.injEq] at same
    omega
  · obtain ⟨i,found,_⟩ := SizeClass.index_inside positive top
    have request : Requested b := by
      rw [Requested,pageBytes]
      rw [maxBytes] at top'
      omega
    obtain ⟨_,_,above⟩ := roundUp_large request (by omega)
    rw [found,SizeClass.index_large (by omega)] at same
    cases same

theorem small_class_iff (a b : Nat) (positive : 1 ≤ a) (top : a ≤ maxBytes) (positive' : 1 ≤ b) (top' : b ≤ maxBytes) :
    Fits a b ↔ a ≤ 262144 := by
  constructor
  · intro fits
    by_contra large
    have request : Requested a := by
      rw [Requested,pageBytes]
      rw [maxBytes] at top
      omega
    obtain ⟨_,_,above⟩ := roundUp_large request (by omega)
    obtain ⟨i,found,_⟩ := fits.inside
    rw [SizeClass.index_large (by omega)] at found
    cases found
  · intro small
    obtain ⟨above,below,again⟩ := roundUp_small small
    obtain ⟨i,found,inside⟩ := SizeClass.index_inside positive small
    have short : SizeClass.roundUp a < maxBytes := by
      rw [maxBytes]; omega
    refine ⟨⟨i,found,inside⟩,above,again,index_eq_iff positive small positive' top',_,i,if_pos short,?_,found⟩
    rw [again]; exact found

theorem small_class_iff_borders : (Fits 262144 1 ↔ 262144 ≤ 262144) ∧ (Fits 262145 524288 ↔ 262145 ≤ 262144) :=
  ⟨small_class_iff 262144 1 (by decide) (by decide) (by decide) (by decide),
    small_class_iff 262145 524288 (by decide) (by decide) (by decide) (by decide)⟩

-- RoundUp has a regime above 256 KB, Index ends there with `assert(false)`.
theorem no_class_above_256K : ¬∀ a b, 1 ≤ a → a ≤ maxBytes → 1 ≤ b → b ≤ maxBytes → Fits a b := by
  intro claimed
  obtain ⟨i,found,_⟩ := (claimed 262145 1 (by decide) (by decide) (by decide) (by decide)).inside
  have outside : SizeClass.index (SizeClass.roundUp 262145) = none := by decide
  rw [outside] at found; cases found

theorem pages_of_large (request : Requested size) (large : maxBytes < size) : 1 ≤ SizeClass.roundUp size >>> pageShift := by
  rw [maxBytes] at large
  obtain ⟨q,rounded,above⟩ := roundUp_large request (by omega)
  rw [Nat.shiftRight_eq_div_pow,pageShift]
  omega

theorem Serving.newSpan (serving : Serving p held) (some' : 1 ≤ n) (real : 0 < page) (fresh : p.Fresh page (region n))
    (served : Concurrent.newSpan p n [page] = some (q,h)) : h ∉ held ∧ Serving q (insert h held) ∧ (q.spans h).nPages = n ∧
      True ∧ ∀ k ∈ held, q.spans k = p.spans k := by
  obtain ⟨area,kept⟩ := serving
  obtain ⟨r,k,served',given⟩ := newSpan_given kept some' fun _ => ⟨real,fresh⟩
  cases served'.symm.trans served
  exact ⟨given.absent,given.kept,given.size,trivial,given.frame⟩

theorem Serving.release (serving : Serving p held) (user : h ∈ held) (ready : Ready p held h)
    (released : releaseSpanToPageCache p h = some q) :
    Serving q (held \ {h}) ∧ ∀ k ∈ held, k ≠ h → q.spans k = p.spans k := by
  obtain ⟨area,kept⟩ := serving
  obtain ⟨r,released',kept',same⟩ := release_kept kept user ready
  cases released'.symm.trans released
  exact ⟨kept',same⟩

theorem allocator_laws : Laws allocator Serving Ready (fun _ => True) Requested where
  start := ⟨∅,kept_start⟩
  alone := fun ⟨_,kept⟩ user user' => kept.alone _ (.inl user) (.inl user')
  mapped := fun ⟨_,kept⟩ => kept.toLayout.entry_held
  edit := fun ⟨area,kept⟩ user id nPages _ => ⟨area,kept.edit user _ id nPages⟩
  newSpan := Serving.newSpan
  release := fun serving user _ ready => serving.release user ready
  settle := fun _ settled => by
    obtain ⟨_,equal⟩ := Option.ite_none_right_eq_some.mp settled
    cases equal
    exact ⟨rfl,rfl,rfl,rfl,.inr rfl⟩
  retire := .inr fun _ => rfl
  quiet := fun _ => trivial
  small := fun request _ => class_of_request request
  pages := fun sort counted => by
    obtain ⟨pages,counted',positive⟩ := SizeClass.numMovePage_spec sort.positive
    cases counted'.symm.trans counted
    exact positive
  large := fun request large => pages_of_large request (of_decide_eq_true large)
  tooLong := fun long => of_decide_eq_true long

def Intact (s : Heap) (h : Nat) : Prop :=
  s.cache.Allocated h ∧ ¬s.cache.Filed h ∧ ∀ page ∈ s.cache.extent h, s.cache.get page = some h

def Spared (s next : Heap) (h : Nat) : Prop := ∀ k ∈ s.handed, k ≠ h →
  k ∈ next.handed ∧ next.cache.spans k = s.cache.spans k ∧ Intact next k

-- No size wraps, and a span is released while no span that NewSpan has returned
-- and whose `_is_used` is not set is in reach of the merge.
def Calm (s : Heap) (action : Action) : Prop := Heap.Guard Ready Requested s action

theorem Intact.of_serving (serving : Serving s.cache {k | k ∈ s.handed}) (user : h ∈ s.handed) : Intact s h := by
  obtain ⟨area,kept⟩ := serving
  exact ⟨kept.object h (.inl user),fun filed => (kept.parted h filed).1 user,
    fun page under => kept.toLayout.entry_held user under⟩

theorem release_spares (sound : Heap.Sound allocator Serving (fun _ => True) s v) (gives : (s.pcs t).gives = some h)
    (calm : Calm s (.next t page)) (stepped : s.step allocator (.next t page) = some next) : Spared s next h := by
  obtain ⟨handed,cache,released,cache',handed'⟩ := sound.released gives stepped
  obtain ⟨_,same⟩ := allocator_laws.release sound.good handed trivial (calm h gives) released
  obtain ⟨w,later⟩ := sound.step allocator_laws calm stepped
  intro k user other
  have still : k ∈ next.handed := by
    rw [handed',List.mem_erase_of_ne other]; exact user
  exact ⟨still,by rw [cache']; exact same k user other,Intact.of_serving later.good still⟩

theorem handed_out_spans_spared (actions : List Action) (s : Heap)
    (calm : Throughout (Heap.step allocator) Calm {} actions) (ran : run (Heap.step allocator) {} actions = some s) :
    (∀ h ∈ s.handed, Intact s h) ∧ ∀ t h page next, (s.pcs t).gives = some h → Calm s (.next t page) →
      s.step allocator (.next t page) = some next → Spared s next h := by
  obtain ⟨v,sound⟩ := Heap.run_sound allocator_laws calm ran
  exact ⟨fun h user => Intact.of_serving sound.good user,
    fun t h page next gives calm stepped => release_spares sound gives calm stepped⟩

-- A stronger guard that can be computed: every other span with a user is marked.
def Marked (s : Heap) : Action → Prop
  | .alloc _ size _ => Requested size
  | .free _ _ => True
  | .next t _ => (s.pcs t).gives = none ∨ ∀ k ∈ s.handed, (s.pcs t).gives = some k ∨ (s.spanAt k).isUsed = true

instance : ∀ (s : Heap) (action : Action), Decidable (Marked s action)
  | _,.alloc _ size _ => inferInstanceAs (Decidable (Requested size))
  | _,.free _ _ => .isTrue trivial
  | s,.next t _ => inferInstanceAs (Decidable ((s.pcs t).gives = none ∨
      ∀ k ∈ s.handed, (s.pcs t).gives = some k ∨ (s.spanAt k).isUsed = true))

theorem calm_of_marked (s : Heap) (action : Action) (marked : Marked s action) : Calm s action := by
  cases action with
  | alloc t size page => exact marked
  | free t ptr => trivial
  | next t page =>
    intro h gives
    rcases marked with nothing | each
    · rw [gives] at nothing; cases nothing
    · refine ready_marked fun k user other => (each k user).resolve_left fun same => other ?_
      exact Option.some.inj (same.symm.trans gives)

-- Thread 1 has the 63 pages behind thread 0's 65 from NewSpan, and thread 0 is
-- about to release its own.
def window : List Action :=
  [.alloc 0 524289 16,.alloc 1 73728 0,.next 1 0,.next 1 400,.free 0 131072,.next 0 0]

theorem handed_out_spans_spared_marked : ∃ s, run (Heap.step allocator) {}
    (window ++ [.next 1 0,.next 0 0,.next 1 0,.next 1 0,.next 1 0]) = some s ∧ (∀ h ∈ s.handed, Intact s h) ∧
      ∀ t h page next, (s.pcs t).gives = some h → Calm s (.next t page) → s.step allocator (.next t page) = some next →
        Spared s next h := by
  have marked : Throughout (Heap.step allocator) Marked {}
    (window ++ [.next 1 0,.next 0 0,.next 1 0,.next 1 0,.next 1 0]) := by decide +kernel
  have complete : (run (Heap.step allocator) {}
    (window ++ [.next 1 0,.next 0 0,.next 1 0,.next 1 0,.next 1 0])).isSome = true := by decide +kernel
  obtain ⟨s,ran⟩ := Option.isSome_iff_exists.mp complete
  exact ⟨s,ran,handed_out_spans_spared _ s (marked.mono calm_of_marked) ran⟩

-- In the window the release merges thread 1's span and deletes it.
theorem handed_out_span_merged : ¬∀ actions s, run (Heap.step allocator) {} actions = some s → ∀ t h page next,
    (s.pcs t).gives = some h → s.step allocator (.next t page) = some next → Spared s next h := by
  intro claimed
  have merged : (run (Heap.step allocator) {} window).bind (fun s => (s.step allocator (.next 0 0)).map fun next =>
    decide ((s.pcs 0).gives = some 1 ∧ 0 ∈ s.handed ∧ 0 ∈ next.cache.freeObjects)) = some true := by decide +kernel
  obtain ⟨s,ran,merged⟩ := Option.bind_eq_some_iff.mp merged
  obtain ⟨next,stepped,merged⟩ := Option.map_eq_some_iff.mp merged
  obtain ⟨gives,user,deleted⟩ := of_decide_eq_true merged
  obtain ⟨_,_,⟨_,present⟩,_⟩ := claimed window s ran 0 1 0 next gives stepped 0 user (by decide)
  exact present deleted

theorem no_span_hoarded_calm (actions : List Action) (s : Heap)
    (calm : Throughout (Heap.step allocator) Calm {} actions) (ran : run (Heap.step allocator) {} actions = some s) :
    s.Frugal allocator := Heap.run_frugal allocator_laws calm ran

-- Every block has one place, although ConcurrentDelete takes the list
-- out of a span before it gives the span back, and large requests have spans alone.
theorem blocks_resident (actions : List Action) (s : Heap) (calm : Throughout (Heap.step allocator) Calm {} actions)
    (ran : run (Heap.step allocator) {} actions = some s) : s.Resident allocator ∧
      ∀ action next a, Calm s action → s.step allocator action = some next → next.live = a :: s.live → a ∉ s.live :=
  Heap.run_resident allocator_laws calm ran

def largeBesideSmall : List Action := window ++ [.next 1 0,.next 0 0,.next 1 0,.next 1 0,.next 1 0]

theorem largeBesideSmall_calm : Throughout (Heap.step allocator) Calm {} largeBesideSmall := by
  have marked : Throughout (Heap.step allocator) Marked {} largeBesideSmall := by decide +kernel
  exact marked.mono calm_of_marked

theorem no_span_hoarded_calm_beside : ∃ s, run (Heap.step allocator) {} largeBesideSmall = some s ∧
    s.Frugal allocator := by
  have complete : (run (Heap.step allocator) {} largeBesideSmall).isSome = true := by decide +kernel
  obtain ⟨s,ran⟩ := Option.isSome_iff_exists.mp complete
  exact ⟨s,ran,no_span_hoarded_calm _ s largeBesideSmall_calm ran⟩

theorem blocks_resident_beside : ∃ s, run (Heap.step allocator) {} largeBesideSmall = some s ∧ s.Resident allocator ∧
    ∀ action next a, Calm s action → s.step allocator action = some next → next.live = a :: s.live → a ∉ s.live := by
  have complete : (run (Heap.step allocator) {} largeBesideSmall).isSome = true := by decide +kernel
  obtain ⟨s,ran⟩ := Option.isSome_iff_exists.mp complete
  exact ⟨s,ran,blocks_resident _ s largeBesideSmall_calm ran⟩

end LinuxOS.Concurrent
