import LinuxOS.Blocks.Hoarding
import LinuxOS.Pool.PageCache
import LinuxOS.Pool.SizeClass

namespace LinuxOS.Pool
open Machine
open Pages Pages.PageCache Blocks
variable {size index : Nat} {p q : PageCache} {held : Set Nat} {h n page : Nat}

-- The buckets are arrays of NFREE_LIST places.
def bucket (size : Nat) : Option Nat :=
  if 0 ≤ SizeClass.index size ∧ SizeClass.index size < nFreeList then some (SizeClass.index size).toNat else none

-- Alloc and Free of Concurrent.h: Free rounds `_obj_size`, and Deallocate does again.
def allocator : Design where
  roundUp := SizeClass.roundUp
  bucket := bucket
  batch := SizeClass.numsFromCentralCache
  pages := SizeClass.numsFronPageCache
  freeSize := fun size => some (SizeClass.roundUp (SizeClass.roundUp size))
  tooLong := fun list => list.maxSize < list.size
  large := fun _ => false
  largePages := fun _ => 0
  region := fun _ => nPageList-1
  newSpan := getNewSpan
  release := releaseSpanToPageCache
  settle := fun size span => some {span with objSize := size}
  retire := fun span => span

structure Serving (p : PageCache) (held : Set Nat) : Prop where
  kept : Kept p held ∅ {low | p.Mapped low}
  small : ∀ h ∈ held, (p.spans h).nPages < nPageList

def Unused (span : Span) : Prop := span.useCount = 0

def Requested (size : Nat) : Prop := 1 ≤ size ∧ size ≤ 204800

instance : DecidablePred Requested := fun size => inferInstanceAs (Decidable (1 ≤ size ∧ size ≤ 204800))

theorem serving_start : Serving {} ∅ := by
  refine ⟨?_,by simp⟩
  rw [floor_start]; exact kept_start

theorem Serving.edit {change : Span → Span} (serving : Serving p held) (user : h ∈ held)
    (id : (change (p.spans h)).id = (p.spans h).id) (nPages : (change (p.spans h)).nPages = (p.spans h).nPages)
    (used : (change (p.spans h)).isUsed = (p.spans h).isUsed ∨ (change (p.spans h)).isUsed = true) :
    Serving (p.write h change) held := by
  have kept := serving.kept
  have aside : ¬p.Filed h := fun filed => (kept.parted h filed).1 user
  refine ⟨⟨kept.toLayout.write change id nPages (fun filed => absurd filed aside),?_,?_⟩,?_⟩
  · intro k user'
    by_cases same : k = h
    · subst k
      rw [write_same]
      rcases used with same | marked
      · rw [same]; exact kept.used h user
      · exact marked
    · rw [write_other change same]; exact kept.used k user'
  · rintro k (filed | none')
    · have other : k ≠ h := by
        rintro rfl
        exact aside filed
      rw [write_other change other]
      exact kept.idle k (.inl filed)
    · cases none'
  · intro k user'
    by_cases same : k = h
    · subst k
      rw [write_same,nPages]; exact serving.small h user
    · rw [write_other change same]; exact serving.small k user'

theorem Serving.newSpan (serving : Serving p held) (some' : 1 ≤ n) (fresh : p.Fresh page (nPageList-1))
    (served : getNewSpan p n [page] = some (q,h)) : h ∉ held ∧ Serving q (insert h held) ∧ (q.spans h).nPages = n ∧
      Unused (q.spans h) ∧ ∀ k ∈ held, q.spans k = p.spans k := by
  have below : n < nPageList := by
    rw [getNewSpan] at served
    by_contra large
    rw [if_neg large] at served
    cases served
  obtain ⟨r,k,served',given⟩ := getNewSpan_given serving.kept some' below fun _ => fresh
  cases served'.symm.trans served
  refine ⟨given.absent,⟨given.kept,?_⟩,given.size,given.idle,given.frame⟩
  rintro k (rfl | old)
  · rw [given.size]; exact below
  · rw [given.frame k old]; exact serving.small k old

theorem Serving.release (serving : Serving p held) (user : h ∈ held) (unused : Unused (p.spans h))
    (released : releaseSpanToPageCache p h = some q) :
    Serving q (held \ {h}) ∧ ∀ k ∈ held, k ≠ h → q.spans k = p.spans k := by
  obtain ⟨r,released',kept,same,system⟩ := release_kept serving.kept user (serving.small h user) unused
  cases released'.symm.trans released
  refine ⟨⟨by rw [floor_same system]; exact kept,?_⟩,same⟩
  rintro k ⟨old,other⟩
  rw [same k old other]; exact serving.small k old

theorem class_of_request (request : Requested size) (inside : bucket (SizeClass.roundUp size) = some index) :
    allocator.Class (SizeClass.roundUp size) index := by
  have top : size ≤ maxBytes := by
    rw [Requested] at request
    rw [maxBytes]; omega
  have above := SizeClass.le_roundUp top
  refine ⟨rfl,Nat.le_trans request.1 above,?_,inside⟩
  show some (SizeClass.roundUp (SizeClass.roundUp (SizeClass.roundUp size))) = _
  rw [SizeClass.roundUp_roundUp top,SizeClass.roundUp_roundUp top]

theorem roundUp_request (request : Requested size) : 1 ≤ SizeClass.roundUp size ∧ SizeClass.roundUp size ≤ 204800 := by
  obtain ⟨positive,top⟩ := request
  obtain ⟨q,parts⟩ := SizeClass.shape (show size ≤ maxBytes by rw [maxBytes]; omega)
  omega

theorem bucket_of_request (request : Requested size) :
    bucket (SizeClass.roundUp size) = some (SizeClass.index (SizeClass.roundUp size)).toNat := by
  obtain ⟨positive,top⟩ := roundUp_request request
  have below : SizeClass.roundUp size ≤ maxBytes := by rw [maxBytes]; omega
  exact if_pos ⟨SizeClass.index_nonneg positive below,(SizeClass.index_lt_iff positive below).mpr top⟩

theorem pages_positive (positive : 1 ≤ size) (counted : SizeClass.numsFronPageCache size = some n) : 1 ≤ n := by
  obtain ⟨nums,batch,counted⟩ := Option.bind_eq_some_iff.mp counted
  have below : size < maxBytes := by
    rw [SizeClass.numsFromCentralCache] at batch
    by_contra large
    rw [if_neg fun both => large both.1] at batch
    cases batch
  obtain ⟨nums',batch',two,_⟩ := SizeClass.numsFromCentralCache_spec positive below
  cases batch'.symm.trans batch
  cases counted
  have bytes : 1 ≤ size * nums := Nat.mul_pos positive (by omega)
  rw [Nat.shiftRight_eq_div_pow,pageShift]
  omega

theorem allocator_laws : Laws allocator Serving (fun _ _ _ => True) Unused Requested where
  start := serving_start
  alone := fun serving user user' => serving.kept.alone _ (.inl user) (.inl user')
  mapped := fun serving => serving.kept.toLayout.entry_held
  edit := Serving.edit
  newSpan := fun serving some' _ => serving.newSpan some'
  release := fun serving user unused _ => serving.release user unused
  settle := fun unused settled => by
    cases settled
    exact ⟨rfl,rfl,rfl,unused,.inl rfl⟩
  retire := .inl fun _ => rfl
  quiet := fun unused => unused.resolve_right Bool.false_ne_true
  small := fun request _ => class_of_request request
  pages := fun sort => pages_positive sort.positive
  large := fun _ large => absurd large Bool.false_ne_true
  tooLong := fun long => Int.le_of_lt (of_decide_eq_true long)

theorem allocator_plain : Plain allocator where
  keeps := fun clears => by cases clears {freeList := some 0}
  small := fun _ => rfl

-- The requests that the arrays of buckets have a place for.
def Request : Action → Prop
  | .alloc _ size _ => Requested size
  | _ => True

instance : DecidablePred Request
  | .alloc _ size _ => inferInstanceAs (Decidable (Requested size))
  | .free _ _ => .isTrue trivial
  | .next _ _ => .isTrue trivial

theorem guard_of_request {s : Heap} {action : Action} (request : Request action) :
    Heap.Guard (fun _ _ _ => True) Requested s action := by
  cases action with
  | alloc t size page => exact request
  | free t ptr => trivial
  | next t page => exact fun _ _ => trivial

theorem blocks_exclusive (actions : List Action) (s : Heap) (requests : ∀ action ∈ actions, Request action)
    (ran : run (Heap.step allocator) {} actions = some s) : s.Exclusive allocator ∧
      ∀ action next a, Request action → s.step allocator action = some next → next.live = a :: s.live →
        a ∉ s.live := by
  obtain ⟨exclusive,new⟩ := Heap.run_exclusive allocator_laws allocator_plain
    (throughout_each fun action found _ => guard_of_request (requests action found)) ran
  exact ⟨exclusive,fun action next a request => new action next a (guard_of_request request)⟩

-- Thread 0 carves a span of two blocks, and thread 1 takes the second of them.
-- Thread 0 frees both and a block of thread 1's next span: the first span goes
-- back while thread 1 allocates.
def twoThreads : List Action :=
  .alloc 0 204800 16 :: List.replicate 6 (.next 0 16) ++ [.alloc 1 204800 0,.next 1 0,.next 1 0,.alloc 1 204800 0] ++
    List.replicate 6 (.next 1 400) ++ [.free 0 540672,.next 0 0,.free 0 131072,.next 0 0,.free 0 335872,.next 0 0,
      .next 0 0,.next 0 0,.next 0 0,.alloc 1 204800 0,.next 0 0,.next 0 0,.next 0 0]

theorem blocks_exclusive_two_threads : ∃ s, run (Heap.step allocator) {} twoThreads = some s ∧
    s.Exclusive allocator ∧ ∀ action next a, Request action → s.step allocator action = some next →
      next.live = a :: s.live → a ∉ s.live := by
  have complete : (run (Heap.step allocator) {} twoThreads).isSome = true := by decide +kernel
  obtain ⟨s,ran⟩ := Option.isSome_iff_exists.mp complete
  exact ⟨s,ran,blocks_exclusive twoThreads s (by decide) ran⟩

theorem no_span_hoarded (actions : List Action) (s : Heap) (requests : ∀ action ∈ actions, Request action)
    (ran : run (Heap.step allocator) {} actions = some s) : s.Frugal allocator :=
  Heap.run_frugal allocator_laws (throughout_each fun action found _ => guard_of_request (requests action found)) ran

theorem no_span_hoarded_two_threads : ∃ s, run (Heap.step allocator) {} twoThreads = some s ∧
    s.Frugal allocator := by
  have complete : (run (Heap.step allocator) {} twoThreads).isSome = true := by decide +kernel
  obtain ⟨s,ran⟩ := Option.isSome_iff_exists.mp complete
  exact ⟨s,ran,no_span_hoarded twoThreads s (by decide) ran⟩

end LinuxOS.Pool
