import LinuxOS.Pages.Calls
import LinuxOS.Pool.Allocator
import LinuxOS.Pool.RadixTree

namespace LinuxOS.Pool
open Function (update)
open Exceptions Pages Pages.Call
open TCMallocPageMap3 (i1 i2)

-- An object pool without its free list: `_remain_size`, and whether `_memory` is a chunk.
structure Chunk where
  remain : Nat := 0
  real : Bool := false

-- `built` tells whether PageCache::Singleton has its instance; `caches` is the pool that it comes from,
-- `objects` the one of the spans. The radix tree has the nodes and leaves that it was given.
structure Own where
  built : Bool := false
  caches : Chunk := {}
  objects : Chunk := {}
  nodes : Nat → Bool := fun _ => false
  leaves : Nat → Nat → Bool := fun _ _ => false

-- On 64-bit Linux: 129 lists of 48 bytes, the root and the lock.
def sizeofPageCache : Nat := 6240
def sizeofSpan : Nat := 56

namespace Throwing

def own (f : Own → Own) : Call Own Unit := attempt fun s => some ({s with rest := f s.rest},())

-- A new chunk: the pool has noted its size before SystemAlloc is asked for it.
def newChunk (store : Chunk → Own → Own) (chunk : Chunk) : Call Own Unit := do
  own (store {chunk with remain := 2^13})
  let _ ← systemAlloc
  own (store {remain := 2^13, real := true})

def newFrom (chunk : Own → Chunk) (store : Chunk → Own → Own) (size : Nat) : Call Own Unit := do
  let s ← get
  (if (chunk s.rest).remain < size then newChunk store (chunk s.rest) else pure ())
  let s ← get
  expect (guard ((chunk s.rest).real = true))
  own (store {chunk s.rest with remain := (chunk s.rest).remain - size})

-- The constructor takes the root of the radix tree from the system.
def singleton : Call Own Unit := do
  let s ← get
  if s.rest.built then pure ()
  else do
    newFrom Own.caches (fun chunk own => {own with caches := chunk}) sizeofPageCache
    let _ ← systemAlloc
    own fun own => {own with built := true}

def ensure (page : Nat) : Call Own Unit := do
  let s ← get
  (if s.rest.nodes (i1 51 page) then pure () else do
    let _ ← systemAlloc
    own fun own => {own with nodes := update own.nodes (i1 51 page) true})
  (if s.rest.leaves (i1 51 page) (i2 51 page) then pure () else do
    let _ ← systemAlloc
    own fun own => {own with leaves := update own.leaves (i1 51 page) (update (own.leaves (i1 51 page)) (i2 51 page) true)})

def set (page : Nat) (value : Option Nat) : Call Own Unit := do
  expect (guard (page < pageLimit))
  ensure page
  alter fun p => p.set page value

def mapSpanRange (start : Nat) (value : Option Nat) : Nat → Call Own Unit
  | 0 => pure ()
  | pages+1 => do
    set start value
    mapSpanRange (start+1) value pages

def mapFreeSpan (span : Nat) : Call Own Unit := do
  let p ← look
  mapSpanRange (p.spans span).id none (p.spans span).nPages
  let p ← look
  set (p.spans span).id (some span)
  let p ← look
  set ((p.spans span).id + (p.spans span).nPages - 1) (some span)

def newObject : Call Own Nat := do
  let p ← look
  (if p.freeObjects = [] then newFrom Own.objects (fun chunk own => {own with objects := chunk}) sizeofSpan else pure ())
  change fun p => some p.newObject

def reuse (span : Nat) : Call Own Nat := do
  alter fun p => some (p.write span fun s => {s with isUsed := true})
  let p ← look
  mapSpanRange (p.spans span).id (some span) (p.spans span).nPages
  pure span

def split (npage pageNum : Nat) : Call Own Nat := do
  let kpage ← newObject
  alter fun p => some (p.write kpage fun s => {s with nPages := pageNum, id := (p.spans npage).id, isUsed := true})
  alter fun p => some (p.write npage fun s => {s with id := s.id + pageNum, nPages := s.nPages - pageNum, isUsed := false})
  alter fun p => p.pushFront (p.spans npage).nPages npage
  let p ← look
  mapSpanRange (p.spans kpage).id (some kpage) (p.spans kpage).nPages
  mapFreeSpan npage
  pure kpage

def refill : Call Own Unit := do
  let span ← newObject
  alter fun p => some (p.write span fun s => {s with nPages := nPageList - 1, isUsed := false})
  let page ← systemAlloc
  alter fun p => some ((p.systemAlloc page (nPageList - 1)).write span fun s => {s with id := page})
  alter fun p => p.pushFront (nPageList - 1) span

-- GetNewSpan calls itself after it has asked the system, with one unit of fuel less.
def getNewSpan : Nat → Nat → Call Own Nat
  | 0,_ => expect none
  | fuel+1,pageNum => do
    expect (guard (pageNum < nPageList))
    let p ← look
    match p.popBack pageNum with
    | some (q,span) => do
      alter fun _ => some q
      reuse span
    | none =>
      match popLarger p pageNum with
      | some (q,npage) => do
        alter fun _ => some q
        split npage pageNum
      | none => do
        refill
        getNewSpan fuel pageNum

-- FetchFromPageCache; the loop that links the blocks of the new span asks the system for nothing.
def fetchFromPageCache (size : Nat) : Call Own Nat := do
  let applyPageNum ← expect (SizeClass.numsFronPageCache size)
  singleton
  lockPage
  singleton
  let newSpan ← getNewSpan 2 applyPageNum
  singleton
  unlockPage
  alter fun p => some (p.write newSpan fun s => {s with freeList := some (s.id * pageBytes), objSize := size})
  pure newSpan

-- FetchRangeObj up to the span that the blocks are taken from. The destructor of the `unique_lock`
-- unlocks the bucket if the call owns it.
def fetchRangeObj (size : Nat) : Call Own Nat := do
  let index ← expect (bucket size)
  cleaned (fun s => {s with bucketLocks := s.bucketLocks.erase index}) do
    lockBucket index
    let found ← firstFilled index
    match found with
    | some span => pure span
    | none => do
      unlockBucket index
      let span ← fetchFromPageCache size
      lockBucket index
      pushCentral index span
      pure span

def builds (own : Own) : Nat := if own.caches.remain < sizeofPageCache then 2 else 1

def Starved (s : Process Own) : Prop := s.rest.built = false ∧ s.answers.length < builds s.rest

variable {s t : Process Own} {size fuel n : Nat}

def seen (s : Process Own) := (s.cache,outside s)

theorem own_seen (f : Own → Own) : Leaves seen (own f) := fun _ => rfl

theorem expect_seen {A : Type} (value : Option A) : Leaves seen (expect value : Call Own A) := by
  intro s
  cases value <;> rfl

theorem systemAlloc_seen : Leaves seen (systemAlloc : Call Own Nat) := by
  intro s
  rw [systemAlloc]
  split <;> rfl

theorem newChunk_seen (store : Chunk → Own → Own) (chunk : Chunk) : Leaves seen (newChunk store chunk) :=
  (own_seen _).bind fun _ => systemAlloc_seen.bind fun _ => own_seen _

theorem newFrom_seen (chunk : Own → Chunk) (store : Chunk → Own → Own) (size : Nat) :
    Leaves seen (newFrom chunk store size) :=
  (leaves_get seen).bind fun _ => (Leaves.ite (newChunk_seen _ _) (leaves_pure _ _)).bind fun _ =>
    (leaves_get seen).bind fun _ => (expect_seen _).bind fun _ => own_seen _

theorem singleton_seen : Leaves seen singleton :=
  (leaves_get seen).bind fun _ => Leaves.ite (leaves_pure _ _) <| (newFrom_seen _ _ _).bind fun _ =>
    systemAlloc_seen.bind fun _ => own_seen _

theorem newChunk_refused {store : Chunk → Own → Own} {chunk : Chunk} (thrown : newChunk store chunk s = .error .badAlloc t) :
    s.answers = [] := by
  obtain ⟨_,middle,noted,late⟩ := (attempt_never _).past thrown
  · cases attempt_ok.mp noted
    rcases bind_error.mp late with refused | ⟨_,_,_,stored⟩
    · exact (systemAlloc_refused.mp refused).1
    · exact absurd stored (attempt_never _ _ _)

theorem newChunk_ok {store : Chunk → Own → Own} {chunk : Chunk} (ran : newChunk store chunk s = .ok () t) :
    ∃ page, s.answers = page :: t.answers := by
  obtain ⟨_,middle,noted,rest⟩ := bind_ok.mp ran
  cases attempt_ok.mp noted
  obtain ⟨page,given,asked,stored⟩ := bind_ok.mp rest
  cases attempt_ok.mp stored
  exact ⟨page,(systemAlloc_ok.mp asked).1⟩

section newFrom
variable {chunk : Own → Chunk} {store : Chunk → Own → Own}

theorem newFrom_refused (thrown : newFrom chunk store size s = .error .badAlloc t) :
    (chunk s.rest).remain < size ∧ s.answers = [] := by
  rcases bind_error.mp thrown with early | ⟨_,_,got,rest⟩
  · cases early
  · cases got
    rcases bind_error.mp rest with refused | ⟨_,_,_,late⟩
    · split at refused
      · exact ⟨‹_›,newChunk_refused refused⟩
      · cases refused
    · exact absurd late (Never.bind (fun _ _ thrown => by cases thrown)
        (fun _ => (attempt_never _).bind fun _ => attempt_never _) _ _)

theorem newFrom_ok (ran : newFrom chunk store size s = .ok () t) :
    (chunk s.rest).remain < size ∧ (∃ page, s.answers = page :: t.answers) ∨
      ¬(chunk s.rest).remain < size ∧ t.answers = s.answers := by
  obtain ⟨_,_,got,rest⟩ := bind_ok.mp ran
  cases got
  obtain ⟨_,middle,supplied,rest⟩ := bind_ok.mp rest
  obtain ⟨_,_,got,rest⟩ := bind_ok.mp rest
  cases got
  obtain ⟨_,_,checked,stored⟩ := bind_ok.mp rest
  obtain ⟨_,rfl⟩ := expect_ok checked
  cases attempt_ok.mp stored
  split at supplied
  · have one := newChunk_ok supplied
    exact .inl ⟨‹_›,one⟩
  · cases supplied
    exact .inr ⟨‹_›,rfl⟩

end newFrom

theorem singleton_refused (thrown : singleton s = .error .badAlloc t) : Starved s := by
  rcases bind_error.mp thrown with early | ⟨_,_,got,rest⟩
  · cases early
  · cases got
    split at rest
    · cases rest
    · rename_i unbuilt
      refine ⟨Bool.not_eq_true _ ▸ unbuilt,?_⟩
      rw [builds]
      rcases bind_error.mp rest with refused | ⟨_,middle,taken,rest⟩
      · obtain ⟨short,none_left⟩ := newFrom_refused refused
        rw [if_pos short,none_left]
        exact Nat.zero_lt_two
      · rcases bind_error.mp rest with refused | ⟨_,_,_,built⟩
        · have none_left := (systemAlloc_refused.mp refused).1
          rcases newFrom_ok taken with ⟨short,page,one⟩ | ⟨enough,same⟩
          · rw [if_pos short,one,none_left]
            exact Nat.one_lt_two
          · rw [if_neg enough,← same,none_left]
            exact Nat.zero_lt_one
        · exact absurd built (attempt_never _ _ _)

theorem singleton_ok (ran : singleton s = .ok () t) : ¬Starved s ∧ t.rest.built = true := by
  obtain ⟨_,_,got,rest⟩ := bind_ok.mp ran
  cases got
  split at rest
  · rename_i built
    cases rest
    refine ⟨fun starved => ?_,built⟩
    rw [starved.1] at built
    cases built
  · obtain ⟨_,middle,taken,rest⟩ := bind_ok.mp rest
    obtain ⟨page,given,asked,stored⟩ := bind_ok.mp rest
    cases attempt_ok.mp stored
    refine ⟨fun starved => ?_,rfl⟩
    have fewer := starved.2
    have left := (systemAlloc_ok.mp asked).1
    rw [builds] at fewer
    rcases newFrom_ok taken with ⟨short,page,one⟩ | ⟨enough,same⟩
    · rw [if_pos short,one,left,List.length_cons,List.length_cons] at fewer
      omega
    · rw [if_neg enough,← same,left,List.length_cons] at fewer
      omega

theorem seen_outside {A : Type} {x : Call Own A} (leaves : Leaves seen x) : Leaves outside x :=
  fun s => congrArg Prod.snd (leaves s)

theorem alter_outside (f : PageCache → Option PageCache) : Leaves outside (alter f : Call Own Unit) := change_outside _

theorem look_outside : Leaves outside (look : Call Own PageCache) := fun _ => rfl

theorem own_outside (f : Own → Own) : Leaves outside (own f) := seen_outside (own_seen f)

theorem ensure_outside (page : Nat) : Leaves outside (ensure page) :=
  (leaves_get _).bind fun _ =>
    (Leaves.ite (leaves_pure _ _) (systemAlloc_outside.bind fun _ => own_outside _)).bind fun _ =>
      Leaves.ite (leaves_pure _ _) (systemAlloc_outside.bind fun _ => own_outside _)

theorem set_outside (page : Nat) (value : Option Nat) : Leaves outside (set page value) :=
  (seen_outside (expect_seen _)).bind fun _ => (ensure_outside page).bind fun _ => alter_outside _

theorem mapSpanRange_outside (start : Nat) (value : Option Nat) (pages : Nat) :
    Leaves outside (mapSpanRange start value pages) := by
  induction pages generalizing start with
  | zero => exact leaves_pure _ _
  | succ pages ih => exact (set_outside start value).bind fun _ => ih (start+1)

theorem mapFreeSpan_outside (span : Nat) : Leaves outside (mapFreeSpan span) :=
  look_outside.bind fun _ => (mapSpanRange_outside _ _ _).bind fun _ => look_outside.bind fun _ =>
    (set_outside _ _).bind fun _ => look_outside.bind fun _ => set_outside _ _

theorem newObject_outside : Leaves outside newObject :=
  look_outside.bind fun _ => (Leaves.ite (seen_outside (newFrom_seen _ _ _)) (leaves_pure _ _)).bind fun _ =>
    change_outside _

theorem reuse_outside (span : Nat) : Leaves outside (reuse span) :=
  (alter_outside _).bind fun _ => look_outside.bind fun _ => (mapSpanRange_outside _ _ _).bind fun _ => leaves_pure _ _

theorem split_outside (npage pageNum : Nat) : Leaves outside (split npage pageNum) :=
  newObject_outside.bind fun _ => (alter_outside _).bind fun _ => (alter_outside _).bind fun _ =>
    (alter_outside _).bind fun _ => look_outside.bind fun _ => (mapSpanRange_outside _ _ _).bind fun _ =>
      (mapFreeSpan_outside npage).bind fun _ => leaves_pure _ _

theorem refill_outside : Leaves outside refill :=
  newObject_outside.bind fun _ => (alter_outside _).bind fun _ => systemAlloc_outside.bind fun _ =>
    (alter_outside _).bind fun _ => alter_outside _

theorem getNewSpan_outside (fuel pageNum : Nat) : Leaves outside (getNewSpan fuel pageNum) := by
  induction fuel with
  | zero => exact seen_outside (expect_seen _)
  | succ fuel ih =>
    refine (seen_outside (expect_seen _)).bind fun _ => look_outside.bind fun p => ?_
    cases p.popBack pageNum with
    | some popped => exact (alter_outside _).bind fun _ => reuse_outside _
    | none =>
      cases popLarger p pageNum with
      | some popped => exact (alter_outside _).bind fun _ => split_outside _ _
      | none => exact refill_outside.bind fun _ => ih

theorem seen_cache {A : Type} {x : Call Own A} (leaves : Leaves seen x) : Leaves Process.cache x :=
  fun s => congrArg Prod.fst (leaves s)

theorem ensure_cache (page : Nat) : Leaves Process.cache (ensure page) :=
  (leaves_get _).bind fun _ =>
    (Leaves.ite (leaves_pure _ _) (systemAlloc_cache.bind fun _ => seen_cache (own_seen _))).bind fun _ =>
      Leaves.ite (leaves_pure _ _) (systemAlloc_cache.bind fun _ => seen_cache (own_seen _))

theorem set_follows (page : Nat) (value : Option Nat) :
    Follows Process.cache (set page value) (silent fun p => p.set page value) :=
  expect_cache.then_follows fun _ => (ensure_cache page).then_follows fun _ => alter_follows _

theorem mapSpanRange_follows (start : Nat) (value : Option Nat) (pages : Nat) :
    Follows Process.cache (mapSpanRange start value pages) (silent fun p => p.mapSpanRange start value pages) := by
  induction pages generalizing start with
  | zero => exact follows_pure _ _
  | succ pages ih =>
    refine (silent_then (set_follows start value) (ih (start+1))).congr fun p => ?_
    rw [silent,PageCache.mapSpanRange,Option.map_bind]
    rfl

theorem mapFreeSpan_follows (span : Nat) :
    Follows Process.cache (mapFreeSpan span) (silent fun p => Pool.mapFreeSpan p span) := by
  refine (look_follows fun p => silent_then (mapSpanRange_follows _ _ _) <| look_follows fun p =>
    silent_then (set_follows _ _) <| look_follows fun p => set_follows _ _).congr fun p => ?_
  simp only [silent,Pool.mapFreeSpan,Option.bind_eq_bind,Option.map_bind,Function.comp_def]

theorem newObject_follows : Follows Process.cache newObject fun p => some p.newObject :=
  look_follows (h := fun _ p => some p.newObject) fun _ =>
    (Leaves.ite (seen_cache (newFrom_seen _ _ _)) (leaves_pure _ _)).then_follows fun _ => change_follows _

theorem reuse_follows (span : Nat) : Follows Process.cache (reuse span) fun p => Pool.reuse p span := by
  refine (silent_then (alter_follows _) <| look_follows fun p =>
    silent_then (mapSpanRange_follows _ _ _) (follows_pure _ span)).congr fun p => ?_
  rfl

theorem split_follows (npage pageNum : Nat) :
    Follows Process.cache (split npage pageNum) fun p => Pool.split p npage pageNum := by
  refine (newObject_follows.bind fun kpage => silent_then (alter_follows _) <| silent_then (alter_follows _) <|
    silent_then (alter_follows _) <| look_follows fun p => silent_then (mapSpanRange_follows _ _ _) <|
      silent_then (mapFreeSpan_follows npage) (follows_pure _ kpage)).congr fun p => ?_
  rfl

theorem refill_ok (ran : refill s = .ok () t) : ∃ page, Pool.refill s.cache page = some t.cache := by
  obtain ⟨span,first,made,rest⟩ := bind_ok.mp ran
  obtain ⟨_,second,sized,rest⟩ := bind_ok.mp rest
  obtain ⟨page,third,asked,rest⟩ := bind_ok.mp rest
  have object : s.cache.newObject = (first.cache,span) := Option.some.inj (newObject_follows _ _ _ made)
  have sized : _ = second.cache := congrArg Prod.fst (Option.some.inj (alter_follows _ _ _ _ sized))
  have filed := silent_then (alter_follows _) (alter_follows _) third () t rest
  rw [systemAlloc_cache.ok asked,← sized] at filed
  simp only [Option.bind_some,silent] at filed
  obtain ⟨q,filed,same⟩ := Option.map_eq_some_iff.mp filed
  cases same
  exact ⟨page,by rw [Pool.refill,object]; exact filed⟩

theorem getNewSpan_ok {span : Nat} (ran : getNewSpan fuel n s = .ok span t) :
    ∃ answers, answers.length < fuel ∧ Pool.getNewSpan s.cache n answers = some (t.cache,span) := by
  induction fuel generalizing s with
  | zero => cases (expect_ok ran).1
  | succ fuel ih =>
    obtain ⟨_,middle,checked,rest⟩ := bind_ok.mp ran
    obtain ⟨checked,same⟩ := expect_ok checked
    rw [same] at rest
    have below : n < nPageList := by
      by_contra large
      rw [guard,if_neg large] at checked
      cases checked
    obtain ⟨p,middle,read,rest⟩ := bind_ok.mp rest
    obtain ⟨rfl,same⟩ := look_ok read
    rw [same] at rest
    cases popped : s.cache.popBack n with
    | some popped' =>
      rw [popped] at rest
      have done := silent_then (alter_follows _) (reuse_follows _) s span t rest
      refine ⟨[],Nat.succ_pos fuel,?_⟩
      rw [Pool.getNewSpan,if_pos below,popped]
      exact done
    | none =>
      rw [popped] at rest
      cases larger : popLarger s.cache n with
      | some popped' =>
        rw [larger] at rest
        have done := silent_then (alter_follows _) (split_follows _ _) s span t rest
        refine ⟨[],Nat.succ_pos fuel,?_⟩
        rw [Pool.getNewSpan,if_pos below,popped]
        simp only [larger]
        exact done
      | none =>
        rw [larger] at rest
        obtain ⟨_,middle,filled,again⟩ := bind_ok.mp rest
        obtain ⟨page,filled⟩ := refill_ok filled
        obtain ⟨answers,fewer,given⟩ := ih again
        refine ⟨page :: answers,Nat.succ_lt_succ fewer,?_⟩
        rw [Pool.getNewSpan,if_pos below,popped]
        simp only [larger,filled,Option.bind_some]
        exact given

-- The exception leaves FetchFromPageCache before the page lock is taken, or with it.
theorem fetchFromPageCache_refused (thrown : fetchFromPageCache size s = .error .badAlloc t) :
    Starved s ∧ seen t = seen s ∨ ¬Starved s ∧ t.pageLock = true := by
  obtain ⟨pages,_,counted,rest⟩ := (attempt_never _).past thrown
  obtain ⟨_,rfl⟩ := expect_ok counted
  rcases bind_error.mp rest with unbuilt | ⟨_,first,built,rest⟩
  · exact .inl ⟨singleton_refused unbuilt,singleton_seen.error unbuilt⟩
  obtain ⟨fed,built⟩ := singleton_ok built
  refine .inr ⟨fed,?_⟩
  obtain ⟨_,second,locked,rest⟩ := (attempt_never _).past rest
  cases lockPage_ok locked
  -- from here on the lock is left as it is, until nothing throws any more
  rcases bind_error.mp rest with refused | ⟨_,third,again,rest⟩
  · exact congrArg Prod.fst ((seen_outside singleton_seen).error refused)
  have held := congrArg Prod.fst ((seen_outside singleton_seen).ok again)
  rcases bind_error.mp rest with refused | ⟨span,fourth,given,rest⟩
  · exact (congrArg Prod.fst ((getNewSpan_outside 2 pages).error refused)).trans held
  have held := (congrArg Prod.fst ((getNewSpan_outside 2 pages).ok given)).trans held
  rcases bind_error.mp rest with refused | ⟨_,fifth,again,rest⟩
  · exact (congrArg Prod.fst ((seen_outside singleton_seen).error refused)).trans held
  · exact absurd rest (unlockPage_never.bind (fun _ => (alter_never _).bind fun _ => never_pure _ _) _ _)

-- In Pool the allocator stays usable exactly where the page cache has still to be built and the system
-- does not give what that takes. Every later exception leaves the page lock with the thread.
theorem fetchRangeObj_refused (unlocked : Unlocked s) (thrown : fetchRangeObj size s = .error .badAlloc t) :
    Usable s t ↔ Starved s := by
  obtain ⟨index,_,found,rest⟩ := (attempt_never _).past thrown
  obtain ⟨_,rfl⟩ := expect_ok found
  obtain ⟨last,inner,rfl⟩ := cleaned_error.mp rest
  obtain ⟨_,first,locked,rest⟩ := (attempt_never _).past inner
  cases lockBucket_ok locked
  obtain ⟨span,second,searched,rest⟩ := (attempt_never _).past rest
  cases firstFilled_ok searched
  cases span with
  | some span => cases rest
  | none =>
    obtain ⟨_,third,released,rest⟩ := (attempt_never _).past rest
    have before := unlockBucket_ok released
    rw [List.erase_cons_head] at before
    cases before
    rcases bind_error.mp rest with refused | ⟨_,fourth,fetched,rest⟩
    · rcases fetchFromPageCache_refused refused with ⟨starved,same⟩ | ⟨fed,locked⟩
      · refine ⟨fun _ => starved,fun _ => ?_⟩
        simp only [seen,outside,Prod.mk.injEq] at same
        obtain ⟨cache,page,buckets,central⟩ := same
        refine ⟨⟨page.trans unlocked.1,?_⟩,by rw [cache],central,by rw [cache]⟩
        rw [buckets,unlocked.2]
        rfl
      · refine ⟨fun usable => ?_,fun starved => absurd starved fed⟩
        have free := usable.unlocked.1
        rw [locked] at free
        cases free
    · exact absurd rest (Never.bind (attempt_never _) (fun _ => (attempt_never _).bind fun _ => never_pure _ _) _ _)

end Throwing
end LinuxOS.Pool
