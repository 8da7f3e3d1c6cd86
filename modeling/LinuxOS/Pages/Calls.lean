import LinuxOS.Exceptions
import LinuxOS.Pages.Cache

namespace LinuxOS.Pages
open Function (update)
open Exceptions

-- How a call can end early: bad_alloc, or an assertion, a lock that the thread has already or an
-- access to memory that is not there.
inductive Failure where
  | badAlloc
  | undefined
  deriving DecidableEq

-- The page cache and the lists of the central cache as one thread sees them in a call, with the locks
-- that it holds; `answers` are the pages at which SystemAlloc places its regions. It throws when
-- they run out. `rest` is what only one of the two allocators has.
structure Process (R : Type) where
  cache : PageCache := {}
  central : Nat → List Nat := fun _ => []
  pageLock : Bool := false
  bucketLocks : List Nat := []
  answers : List Nat := []
  rest : R

abbrev Call (R : Type) := EStateM Failure (Process R)

namespace Call
variable {R A : Type} {s t : Process R} {a : A}

def attempt (f : Process R → Option (Process R × A)) : Call R A := fun s =>
  match f s with
  | none => .error .undefined s
  | some (t,a) => .ok a t

def lockPage : Call R Unit := attempt fun s => if s.pageLock then none else some ({s with pageLock := true},())

def unlockPage : Call R Unit := attempt fun s => if s.pageLock then some ({s with pageLock := false},()) else none

def lockBucket (index : Nat) : Call R Unit := attempt fun s =>
  if index ∈ s.bucketLocks then none else some ({s with bucketLocks := index :: s.bucketLocks},())

def unlockBucket (index : Nat) : Call R Unit := attempt fun s =>
  if index ∈ s.bucketLocks then some ({s with bucketLocks := s.bucketLocks.erase index},()) else none

def systemAlloc : Call R Nat := fun s =>
  match s.answers with
  | [] => .error .badAlloc s
  | page :: rest => .ok page {s with answers := rest}

def look : Call R PageCache := attempt fun s => some (s,s.cache)

def change (f : PageCache → Option (PageCache × A)) : Call R A := attempt fun s =>
  (f s.cache).map fun (cache,a) => ({s with cache},a)

def alter (f : PageCache → Option PageCache) : Call R Unit := change fun p => (f p).map fun q => (q,())

def expect (value : Option A) : Call R A := attempt fun s => value.map fun a => (s,a)

def firstFilled (index : Nat) : Call R (Option Nat) := attempt fun s =>
  some (s,(s.central index).find? fun h => (s.cache.spans h).freeList.isSome)

def pushCentral (index span : Nat) : Call R Unit := attempt fun s =>
  some ({s with central := update s.central index (span :: s.central index)},())

def Unlocked (s : Process R) : Prop := s.pageLock = false ∧ s.bucketLocks = []

-- After a failed call every thread can go on: the locks are free, the span lists of both levels and
-- the page map as they were.
structure Usable (s t : Process R) : Prop where
  unlocked : Unlocked t
  lists : t.cache.spanLists = s.cache.spanLists
  central : t.central = s.central
  map : t.cache.radixTree = s.cache.radixTree

def throwsWith (locked : Bool) : EStateM.Result Failure (Process R) A → Bool
  | .error .badAlloc t => t.pageLock == locked
  | _ => false

def outside (s : Process R) : Bool × List Nat × (Nat → List Nat) := (s.pageLock,s.bucketLocks,s.central)

theorem throwsWith_iff {locked : Bool} {r : EStateM.Result Failure (Process R) A} :
    throwsWith locked r = true ↔ ∃ t, r = .error .badAlloc t ∧ t.pageLock = locked := by
  match r with
  | .ok a t => simp [throwsWith]
  | .error .badAlloc t => simp [throwsWith]
  | .error .undefined t => simp [throwsWith]

theorem attempt_ok {f : Process R → Option (Process R × A)} : attempt f s = .ok a t ↔ f s = some (t,a) := by
  rw [attempt]
  split <;> rename_i found
  · simp [found]
  · simp [found,and_comm]

theorem attempt_never (f : Process R → Option (Process R × A)) : Never .badAlloc (attempt f) := by
  intro s t thrown
  rw [attempt] at thrown
  split at thrown <;> cases thrown

theorem alter_never (f : PageCache → Option PageCache) : Never .badAlloc (alter f : Call R Unit) := attempt_never _

theorem unlockPage_never : Never .badAlloc (unlockPage : Call R Unit) := attempt_never _

theorem lockPage_ok (ran : lockPage s = .ok () t) : t = {s with pageLock := true} := by
  obtain ⟨_,made⟩ := Option.ite_none_left_eq_some.mp (attempt_ok.mp ran)
  cases made
  rfl

theorem lockBucket_ok {index : Nat} (ran : lockBucket index s = .ok () t) :
    t = {s with bucketLocks := index :: s.bucketLocks} := by
  obtain ⟨_,made⟩ := Option.ite_none_left_eq_some.mp (attempt_ok.mp ran)
  cases made
  rfl

theorem unlockBucket_ok {index : Nat} (ran : unlockBucket index s = .ok () t) :
    t = {s with bucketLocks := s.bucketLocks.erase index} := by
  obtain ⟨_,made⟩ := Option.ite_none_right_eq_some.mp (attempt_ok.mp ran)
  cases made
  rfl

theorem expect_ok {value : Option A} (ran : expect value s = .ok a t) : value = some a ∧ t = s := by
  obtain ⟨b,found,made⟩ := Option.map_eq_some_iff.mp (attempt_ok.mp ran)
  cases made
  exact ⟨found,rfl⟩

theorem look_ok {p : PageCache} (ran : look s = .ok p t) : p = s.cache ∧ t = s := by
  cases attempt_ok.mp ran
  exact ⟨rfl,rfl⟩

theorem firstFilled_ok {index : Nat} {found : Option Nat} (ran : firstFilled index s = .ok found t) : t = s := by
  cases attempt_ok.mp ran
  rfl

theorem change_ok {f : PageCache → Option (PageCache × A)} (ran : change f s = .ok a t) :
    ∃ cache, f s.cache = some (cache,a) ∧ t = {s with cache} := by
  obtain ⟨⟨cache,b⟩,found,made⟩ := Option.map_eq_some_iff.mp (attempt_ok.mp ran)
  cases made
  exact ⟨cache,found,rfl⟩

theorem change_some {f : PageCache → Option (PageCache × A)} {q : PageCache} (done : f s.cache = some (q,a)) :
    change f s = .ok a {s with cache := q} := attempt_ok.mpr (by rw [done]; rfl)

theorem alter_some {f : PageCache → Option PageCache} {q : PageCache} (done : f s.cache = some q) :
    alter f s = .ok () {s with cache := q} := change_some (by rw [done]; rfl)

theorem alter_ok {f : PageCache → Option PageCache} (ran : alter f s = .ok () t) :
    ∃ cache, f s.cache = some cache ∧ t = {s with cache} := by
  obtain ⟨cache,found,same⟩ := change_ok ran
  obtain ⟨q,found,made⟩ := Option.map_eq_some_iff.mp found
  cases made
  exact ⟨cache,found,same⟩

theorem change_follows (f : PageCache → Option (PageCache × A)) : Follows Process.cache (change f : Call R A) f := by
  intro s a t ran
  obtain ⟨cache,found,rfl⟩ := change_ok ran
  exact found

def silent (f : PageCache → Option PageCache) : PageCache → Option (PageCache × Unit) := fun p => (f p).map fun q => (q,())

theorem alter_follows (f : PageCache → Option PageCache) : Follows Process.cache (alter f : Call R Unit) (silent f) :=
  change_follows _

theorem look_follows {B : Type} {g : PageCache → Call R B} {h : PageCache → PageCache → Option (PageCache × B)}
    (each : ∀ p, Follows Process.cache (g p) (h p)) : Follows Process.cache (look >>= g) fun p => h p p := by
  intro s b t ran
  obtain ⟨p,_,read,rest⟩ := bind_ok.mp ran
  cases attempt_ok.mp read
  exact each s.cache s b t rest

theorem silent_then {B : Type} {x : Call R Unit} {y : Call R B} {f : PageCache → Option PageCache}
    {h : PageCache → Option (PageCache × B)} (first : Follows Process.cache x (silent f))
    (second : Follows Process.cache y h) : Follows Process.cache (x >>= fun _ => y) fun p => (f p).bind h := by
  intro s b t ran
  obtain ⟨_,middle,early,late⟩ := bind_ok.mp ran
  obtain ⟨q,done,made⟩ := Option.map_eq_some_iff.mp (first s () middle early)
  cases made
  simp only [done,Option.bind_some]
  exact second middle b t late

theorem expect_cache {value : Option A} : Leaves Process.cache (expect value : Call R A) := by
  intro s
  cases value <;> rfl

theorem change_outside (f : PageCache → Option (PageCache × A)) : Leaves outside (change f : Call R A) := by
  intro s
  rw [change,attempt]
  cases f s.cache <;> rfl

theorem systemAlloc_outside : Leaves outside (systemAlloc : Call R Nat) := by
  intro s
  rw [systemAlloc]
  split <;> rfl

theorem systemAlloc_cache : Leaves Process.cache (systemAlloc : Call R Nat) := by
  intro s
  rw [systemAlloc]
  split <;> rfl

theorem systemAlloc_ok {page : Nat} : systemAlloc s = .ok page t ↔
    s.answers = page :: t.answers ∧ t = {s with answers := t.answers} := by
  rw [systemAlloc]
  split <;> rename_i answers
  · simp [answers]
  · rw [answers]
    constructor
    · intro ran
      cases ran
      exact ⟨rfl,rfl⟩
    · rintro ⟨same,rest⟩
      cases same
      rw [rest]

theorem systemAlloc_refused : systemAlloc s = .error .badAlloc t ↔ s.answers = [] ∧ t = s := by
  rw [systemAlloc]
  split <;> rename_i answers
  · simp [answers,eq_comm]
  · simp [answers]

end Call
end LinuxOS.Pages
