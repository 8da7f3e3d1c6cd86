import LinuxOS.Pool.OutOfMemory
import LinuxOS.Pages.Calls
import LinuxOS.Concurrent.Allocator

namespace LinuxOS.Concurrent
open Function (update)
open Exceptions Pages Pages.PageCache Pages.Call

def claim (size : Nat) (s : Span) : Span := {s with objSize := size, useCount := 1, isUsed := true, freeList := none}

namespace Throwing

-- NewSpan calls itself after it has asked the system, with one unit of fuel less. The objects of the
-- spans and of the page map come from malloc, so that only the pages are asked of SystemAlloc.
def newSpan : Nat → Nat → Call Unit Nat
  | 0,_ => expect none
  | fuel+1,npage => do
    let p ← look
    if nPageList - 1 < npage then do
      let page ← systemAlloc
      change fun p => newLarge p npage page
    else
      match p.popFront npage with
      | some (q,span) => change fun _ => reuse q span npage
      | none =>
        match firstLarger p npage with
        | some i => change fun p => split p i npage
        | none => do
          let span ← change fun p => some p.newObject
          let page ← systemAlloc
          alter fun p => ((p.systemAlloc page nPageList).write span fun s =>
            {s with id := page, nPages := nPageList - 1}).pushFront (nPageList - 1) span
          newSpan fuel npage

-- FetchRangeObj, with the span that the blocks are taken from; linking and taking them asks the system
-- for nothing.
def fetchRangeObj (size : Nat) : Call Unit Nat := do
  let index ← expect (bucket size)
  lockBucket index
  let found ← firstFilled index
  match found with
  | some span => do
    unlockBucket index
    pure span
  | none => do
    unlockBucket index
    lockPage
    let npage ← expect (SizeClass.numMovePage size)
    let span ← newSpan 2 npage
    unlockPage
    alter fun p =>
      if size ≤ (p.spans span).nPages * pageBytes ∧ 0 < (p.spans span).nPages * pageBytes then
        some (p.write span fun s =>
          {s with objSize := size, useCount := 0, isUsed := true, freeList := some (s.id * pageBytes)})
      else none
    lockBucket index
    pushCentral index span
    unlockBucket index
    pure span

def mallocLarge (size : Nat) : Call Unit Nat := do
  let kPage := SizeClass.roundUp size >>> pageShift
  lockPage
  let span ← newSpan 2 kPage
  alter fun p => some (p.write span (claim size))
  let p ← look
  unlockPage
  pure (((p.spans span).id <<< pageShift) % 2^64)

variable {s t : Process Unit} {p q : PageCache} {size fuel n h page : Nat}

theorem alter_outside (f : PageCache → Option PageCache) : Leaves outside (alter f : Call Unit Unit) := change_outside _

theorem newSpan_outside (fuel npage : Nat) : Leaves outside (newSpan fuel npage) := by
  induction fuel with
  | zero => exact fun _ => rfl
  | succ fuel ih =>
    refine Leaves.bind (fun _ => rfl) fun p => Leaves.ite (systemAlloc_outside.bind fun _ => change_outside _) ?_
    cases p.popFront npage with
    | some popped => exact change_outside _
    | none =>
      cases firstLarger p npage with
      | some i => exact change_outside _
      | none => exact (change_outside _).bind fun _ => systemAlloc_outside.bind fun _ => (alter_outside _).bind fun _ => ih

theorem stocked (small : ¬nPageList - 1 < n) (pushed : p.pushFront (nPageList - 1) h = some q) : asks q n = false := by
  have listed : q.spanLists (nPageList-1) ≠ [] := by
    obtain ⟨_,made⟩ := Option.ite_none_right_eq_some.mp pushed
    cases made
    change update p.spanLists (nPageList-1) (h :: p.spanLists (nPageList-1)) (nPageList-1) ≠ []
    rw [Function.update_self]
    exact List.cons_ne_nil _ _
  refine not_asks small ?_
  rcases Nat.eq_or_lt_of_le (Nat.not_lt.mp small) with rfl | less
  · exact .inl fun empty => listed (popFront_none.mp empty)
  · exact .inr fun none_larger => listed (firstLarger_none none_larger less (by decide))

theorem newSpan_refused (thrown : newSpan fuel n s = .error .badAlloc t) :
    (asks s.cache n = true ∧ s.answers = []) ∧ t.cache.spanLists = s.cache.spanLists ∧ t.cache.radixTree = s.cache.radixTree := by
  induction fuel generalizing s with
  | zero =>
    rw [newSpan] at thrown
    exact absurd thrown (attempt_never _ _ _)
  | succ fuel ih =>
    obtain ⟨p,middle,read,rest⟩ := (attempt_never _).past thrown
    obtain ⟨rfl,same⟩ := look_ok read
    rw [same] at rest
    by_cases large : nPageList - 1 < n
    · rw [if_pos large] at rest
      rcases bind_error.mp rest with refused | ⟨page,_,_,late⟩
      · obtain ⟨nothing,rfl⟩ := systemAlloc_refused.mp refused
        exact ⟨⟨asks_large large,nothing⟩,rfl,rfl⟩
      · exact absurd late (attempt_never _ _ _)
    rw [if_neg large] at rest
    cases popped : s.cache.popFront n with
    | some popped' =>
      rw [popped] at rest
      exact absurd rest (attempt_never _ _ _)
    | none =>
      rw [popped] at rest
      cases larger : firstLarger s.cache n with
      | some i =>
        rw [larger] at rest
        exact absurd rest (attempt_never _ _ _)
      | none =>
        rw [larger] at rest
        obtain ⟨span,first,made,rest⟩ := Never.past (x := change _) (attempt_never _) rest
        obtain ⟨cache,object,rfl⟩ := change_ok made
        have object : cache = s.cache.newObject.1 := congrArg Prod.fst (Option.some.inj object).symm
        rcases bind_error.mp rest with refused | ⟨page,second,asked,rest⟩
        · obtain ⟨nothing,rfl⟩ := systemAlloc_refused.mp refused
          rw [object]
          exact ⟨⟨asks_empty popped larger,nothing⟩,newObject_spanLists,newObject_radixTree⟩
        obtain ⟨_,third,filed,rest⟩ := (alter_never _).past rest
        -- the second turn finds what the first has filed
        obtain ⟨q,pushed,rfl⟩ := alter_ok filed
        have full := stocked large pushed
        rw [(ih rest).1.1] at full
        cases full

theorem newSpan_starved (asked : asks s.cache n = true) (nothing : s.answers = []) :
    ∃ t, newSpan (fuel+1) n s = .error .badAlloc t := by
  change ∃ t, (if nPageList - 1 < n then _ else _ : Call Unit Nat) s = .error .badAlloc t
  by_cases large : nPageList - 1 < n
  · rw [if_pos large]
    exact ⟨s,bind_error.mpr (.inl (systemAlloc_refused.mpr ⟨nothing,rfl⟩))⟩
  · obtain ⟨popped,larger⟩ := asks_small large asked
    rw [if_neg large,popped,larger]
    exact ⟨_,bind_error.mpr (.inr ⟨_,_,change_some rfl,bind_error.mpr (.inl (systemAlloc_refused.mpr ⟨nothing,rfl⟩))⟩)⟩

theorem newSpan_serves {answers more : List Nat} (served : Concurrent.newSpan s.cache n answers = some (q,h))
    (supply : s.answers = answers ++ more) (enough : answers.length < fuel) :
    ∃ t, newSpan fuel n s = .ok h t ∧ t.cache = q ∧ outside t = outside s := by
  induction fuel generalizing s answers with
  | zero => cases enough
  | succ fuel ih =>
    change ∃ t, (if nPageList - 1 < n then _ else _ : Call Unit Nat) s = .ok h t ∧ _
    by_cases large : nPageList - 1 < n
    · rw [if_pos large]
      rw [Concurrent.newSpan.eq_def,if_pos large] at served
      cases answers with
      | nil => cases served
      | cons page rest =>
        have asked : systemAlloc s = .ok page {s with answers := rest ++ more} := systemAlloc_ok.mpr ⟨supply,rfl⟩
        exact ⟨_,bind_ok.mpr ⟨page,_,asked,change_some served⟩,rfl,rfl⟩
    rw [if_neg large]
    cases popped : s.cache.popFront n with
    | some popped' =>
      rw [newSpan_reuse answers large popped] at served
      exact ⟨_,change_some served,rfl,rfl⟩
    | none =>
      cases larger : firstLarger s.cache n with
      | some i =>
        rw [newSpan_split answers large popped larger] at served
        exact ⟨_,change_some served,rfl,rfl⟩
      | none =>
        cases answers with
        | nil =>
          rw [Concurrent.newSpan.eq_def,if_neg large,popped,larger] at served
          cases served
        | cons page rest =>
          rw [newSpan_refill rest large popped larger] at served
          obtain ⟨r,refilled,served⟩ := Option.bind_eq_some_iff.mp served
          have asked : systemAlloc {s with cache := s.cache.newObject.1} =
              .ok page {s with cache := s.cache.newObject.1, answers := rest ++ more} := systemAlloc_ok.mpr ⟨supply,rfl⟩
          obtain ⟨t,ran,cache,same⟩ := ih (s := {s with cache := r, answers := rest ++ more}) served rfl
            (Nat.lt_of_succ_lt_succ enough)
          exact ⟨t,bind_ok.mpr ⟨_,_,change_some rfl,bind_ok.mpr ⟨page,_,asked,bind_ok.mpr
            ⟨(),_,alter_some refilled,ran⟩⟩⟩,cache,same⟩

theorem newSpan_ok (ran : newSpan fuel n s = .ok h t) : ∃ answers more, s.answers = answers ++ more ∧
    Concurrent.newSpan s.cache n answers = some (t.cache,h) := by
  induction fuel generalizing s with
  | zero =>
    rw [newSpan] at ran
    cases (expect_ok ran).1
  | succ fuel ih =>
    obtain ⟨p,middle,read,rest⟩ := bind_ok.mp ran
    obtain ⟨rfl,same⟩ := look_ok read
    rw [same] at rest
    by_cases large : nPageList - 1 < n
    · rw [if_pos large] at rest
      obtain ⟨page,first,asked,made⟩ := bind_ok.mp rest
      obtain ⟨supply,same⟩ := systemAlloc_ok.mp asked
      rw [same] at made
      obtain ⟨cache,served,rfl⟩ := change_ok made
      exact ⟨[page],first.answers,supply,(newSpan_large [] large).trans served⟩
    rw [if_neg large] at rest
    cases popped : s.cache.popFront n with
    | some popped' =>
      rw [popped] at rest
      obtain ⟨cache,served,rfl⟩ := change_ok rest
      exact ⟨[],s.answers,rfl,(newSpan_reuse [] large popped).trans served⟩
    | none =>
      rw [popped] at rest
      cases larger : firstLarger s.cache n with
      | some i =>
        rw [larger] at rest
        obtain ⟨cache,served,rfl⟩ := change_ok rest
        exact ⟨[],s.answers,rfl,(newSpan_split [] large popped larger).trans served⟩
      | none =>
        rw [larger] at rest
        obtain ⟨span,first,made,rest⟩ := bind_ok.mp rest
        obtain ⟨cache,object,rfl⟩ := change_ok made
        obtain ⟨rfl,rfl⟩ := Prod.mk.inj (Option.some.inj object)
        obtain ⟨page,second,asked,rest⟩ := bind_ok.mp rest
        obtain ⟨supply,same⟩ := systemAlloc_ok.mp asked
        obtain ⟨_,third,filed,rest⟩ := bind_ok.mp rest
        obtain ⟨q,pushed,rfl⟩ := alter_ok filed
        rw [same] at pushed rest
        obtain ⟨answers,more,left,served⟩ := ih rest
        refine ⟨page :: answers,more,by rw [supply]; exact congrArg _ left,?_⟩
        rw [newSpan_refill answers large popped larger,Option.bind_eq_some_iff]
        exact ⟨q,pushed,served⟩

structure Stuck (s t : Process Unit) : Prop where
  page : t.pageLock = true
  buckets : t.bucketLocks = []
  lists : t.cache.spanLists = s.cache.spanLists
  central : t.central = s.central
  map : t.cache.radixTree = s.cache.radixTree

theorem Stuck.not_usable (stuck : Stuck s t) : ¬Usable s t := by
  intro usable
  have free := usable.unlocked.1
  rw [stuck.page] at free
  cases free

theorem newSpan_stuck (free : s.bucketLocks = []) (thrown : newSpan fuel n {s with pageLock := true} = .error .badAlloc t) :
    Stuck s t := by
  have same := (newSpan_outside fuel n).error thrown
  obtain ⟨-,lists,map⟩ := newSpan_refused thrown
  simp only [outside,Prod.mk.injEq] at same
  exact ⟨same.1,same.2.1.trans free,lists,same.2.2,map⟩

-- The exception leaves ConcurrentMalloc between the two lines that lock and unlock.
theorem mallocLarge_refused (unlocked : Unlocked s) (thrown : mallocLarge size s = .error .badAlloc t) : Stuck s t := by
  obtain ⟨_,first,locked,rest⟩ := (attempt_never _).past thrown
  cases lockPage_ok locked
  rcases bind_error.mp rest with refused | ⟨span,second,_,rest⟩
  · exact newSpan_stuck unlocked.2 refused
  · exact absurd rest ((alter_never _).bind (fun _ => Never.bind (attempt_never _) fun _ =>
      unlockPage_never.bind fun _ => never_pure _ _) _ _)

theorem fetchRangeObj_refused (unlocked : Unlocked s) (thrown : fetchRangeObj size s = .error .badAlloc t) :
    Stuck s t := by
  obtain ⟨index,_,found,rest⟩ := (attempt_never _).past thrown
  obtain ⟨_,rfl⟩ := expect_ok found
  obtain ⟨_,first,locked,rest⟩ := (attempt_never _).past rest
  cases lockBucket_ok locked
  obtain ⟨span,second,searched,rest⟩ := (attempt_never _).past rest
  cases firstFilled_ok searched
  cases span with
  | some span => exact absurd rest (Never.bind (attempt_never _) (fun _ => never_pure _ _) _ _)
  | none =>
    obtain ⟨_,third,released,rest⟩ := (attempt_never _).past rest
    have before := unlockBucket_ok released
    rw [List.erase_cons_head] at before
    cases before
    obtain ⟨_,fourth,locked,rest⟩ := (attempt_never _).past rest
    cases lockPage_ok locked
    obtain ⟨npage,_,counted,rest⟩ := (attempt_never _).past rest
    obtain ⟨_,rfl⟩ := expect_ok counted
    rcases bind_error.mp rest with refused | ⟨span,fifth,_,rest⟩
    · exact newSpan_stuck unlocked.2 refused
    · exact absurd rest (unlockPage_never.bind (fun _ => (alter_never _).bind fun _ => Never.bind (attempt_never _) fun _ =>
        Never.bind (attempt_never _) fun _ => Never.bind (attempt_never _) fun _ => never_pure _ _) _ _)

end Throwing
end LinuxOS.Concurrent

namespace LinuxOS
open Pages Pages.Call

-- Pool builds its page cache before it takes the page lock. In ConcurrentMemoryPool only
-- NewSpan asks the system, which is under that lock.
theorem usable_after_out_of_memory_iff (size : Nat) :
    (∀ s t : Process Pool.Own, Unlocked s → Pool.Throwing.fetchRangeObj size s = .error .badAlloc t →
      (Usable s t ↔ Pool.Throwing.Starved s)) ∧
    ∀ s t : Process Unit, Unlocked s →
      Concurrent.Throwing.fetchRangeObj size s = .error .badAlloc t ∨
        Concurrent.Throwing.mallocLarge size s = .error .badAlloc t → ¬Usable s t := by
  refine ⟨fun s t => Pool.Throwing.fetchRangeObj_refused,?_⟩
  rintro s t unlocked (thrown | thrown)
  · exact (Concurrent.Throwing.fetchRangeObj_refused unlocked thrown).not_usable
  · exact (Concurrent.Throwing.mallocLarge_refused unlocked thrown).not_usable

theorem usable_after_out_of_memory_iff_first :
    (∃ t, Pool.Throwing.fetchRangeObj 8 {rest := {}} = .error .badAlloc t ∧
      (Usable {rest := {}} t ↔ Pool.Throwing.Starved {rest := {}})) ∧
    (∃ t, Concurrent.Throwing.fetchRangeObj 8 {rest := ()} = .error .badAlloc t ∧ ¬Usable {rest := ()} t) ∧
      ∃ t, Concurrent.Throwing.mallocLarge 600000 {rest := ()} = .error .badAlloc t ∧ ¬Usable {rest := ()} t := by
  obtain ⟨s,first,_⟩ := throwsWith_iff.mp (show throwsWith false (Pool.Throwing.fetchRangeObj 8 {rest := {}}) = true by
    decide +kernel)
  obtain ⟨t,second,_⟩ := throwsWith_iff.mp (show throwsWith true (Concurrent.Throwing.fetchRangeObj 8 {rest := ()}) = true by
    decide +kernel)
  obtain ⟨u,third,_⟩ := throwsWith_iff.mp (show throwsWith true (Concurrent.Throwing.mallocLarge 600000 {rest := ()}) = true by
    decide +kernel)
  exact ⟨⟨s,first,(usable_after_out_of_memory_iff 8).1 _ s ⟨rfl,rfl⟩ first⟩,
    ⟨t,second,(usable_after_out_of_memory_iff 8).2 _ t ⟨rfl,rfl⟩ (.inl second)⟩,
    ⟨u,third,(usable_after_out_of_memory_iff 600000).2 _ u ⟨rfl,rfl⟩ (.inr third)⟩⟩

-- Two regions build the page cache of Pool; the third, for the objects of the spans, is refused.
theorem page_lock_left_held :
    ¬((∀ (s t : Process Pool.Own) (size : Nat), Unlocked s → Pool.Throwing.fetchRangeObj size s = .error .badAlloc t →
        Usable s t) ∧
      ∀ (s t : Process Unit) (size : Nat), Unlocked s →
        Concurrent.Throwing.fetchRangeObj size s = .error .badAlloc t ∨
          Concurrent.Throwing.mallocLarge size s = .error .badAlloc t → Usable s t) := by
  intro claimed
  obtain ⟨t,thrown,locked⟩ := throwsWith_iff.mp (show throwsWith true
    (Pool.Throwing.fetchRangeObj 8 {answers := [100,300], rest := {}}) = true by decide +kernel)
  have free := (claimed.1 _ t 8 ⟨rfl,rfl⟩ thrown).unlocked.1
  rw [locked] at free
  cases free

end LinuxOS
