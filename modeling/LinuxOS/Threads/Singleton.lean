import LinuxOS.Threads.ThreadPool

namespace LinuxOS.Threads
open Function (update)
variable {T : Type} {n : Nat}

-- Where a thread is in ThreadPoolSinglton (GetSingleInstance): behind the first test, the
-- lock, the second test, the assignment, Init and Start, and with the pool returned.
inductive Caller where
  | outside
  | locking
  | locked
  | creating
  | constructed (pool : Nat)
  | initialised (pool : Nat)
  | unlocking
  | returned (pool : Nat)
  deriving DecidableEq, Repr

def Caller.Holds : Caller → Prop
  | .locked | .creating | .constructed _ | .initialised _ | .unlocking => True
  | _ => False

-- `_thread_instance` (`_tp_ptr`) with the pools that `new` has made, numbered in that
-- order, and those whose workers exist. `offered` are the tasks of all calls of Enqueue.
structure Singleton (T : Type) (n : Nat) where
  threadInstance : Option Nat := none
  created : Nat := 0
  pools : Nat → ThreadPool T n := fun _ => {isRunning := false}
  started : Nat → Bool := fun _ => false
  singltonMutex : Option Nat := none
  callers : Nat → Caller := fun _ => .outside
  offered : List T := []

inductive CallerAction (T : Type) (n : Nat) where
  | threadPoolSinglton (t : Nat)
  | next (t : Nat)
  | enqueue (t : Nat) (task : T) (woken : Option (Fin n))
  | worker (pool : Nat) (w : Fin n)
  | spurious (pool : Nat) (w : Fin n)

namespace Singleton
variable (implementation : Implementation) (s : Singleton T n) (t pool : Nat)

def move (place : Caller) : Singleton T n := {s with callers := update s.callers t place}

def setPool (value : ThreadPool T n) : Singleton T n := {s with pools := update s.pools pool value}

-- Start creates the workers; that of Test_11_29_pool_log sets the flag again.
def start : Singleton T n :=
  {s.setPool pool (match implementation with
      | .osThread => s.pools pool
      | .poolLog => {s.pools pool with isRunning := true}) with started := update s.started pool true}

def advance : Caller → Option (Singleton T n)
  | .outside => none
  | .locking => if s.singltonMutex = none then some ({s with singltonMutex := some t}.move t .locked) else none
  | .locked => some (s.move t (if s.threadInstance = none then .creating else .unlocking))
  | .creating =>
    some ({s with threadInstance := some s.created, created := s.created + 1}.move t (.constructed s.created))
  | .constructed pool => some ((s.setPool pool {s.pools pool with isRunning := true}).move t (.initialised pool))
  | .initialised pool => some ((s.start implementation pool).move t .unlocking)
  | .unlocking => s.threadInstance.map fun pool => {s with singltonMutex := none}.move t (.returned pool)
  | .returned _ => none

def step : CallerAction T n → Option (Singleton T n)
  | .threadPoolSinglton t =>
    match s.callers t with
    | .outside => some (s.move t (match s.threadInstance with
        | none => .locking
        | some pool => .returned pool))
    | _ => none
  | .next t => s.advance implementation t (s.callers t)
  | .enqueue t task woken =>
    match s.callers t with
    | .returned pool => ((s.pools pool).enqueue implementation task woken).map fun after =>
        {s.setPool pool after with offered := s.offered ++ [task]}.move t .outside
    | _ => none
  | .worker pool w =>
    if s.started pool = true then ((s.pools pool).step implementation (.worker w)).map (s.setPool pool) else none
  | .spurious pool w =>
    if s.started pool = true then ((s.pools pool).step implementation (.spurious w)).map (s.setPool pool) else none

-- The unlocked test does not see a pool on which Init has not set the flag yet.
def Published (s : Singleton T n) : CallerAction T n → Prop
  | .threadPoolSinglton _ => ∀ pool, s.threadInstance = some pool → (s.pools pool).isRunning = true
  | _ => True

instance (s : Singleton T n) : DecidablePred s.Published
  | .threadPoolSinglton _ =>
    match found : s.threadInstance with
    | none => .isTrue fun pool held => by rw [found] at held; cases held
    | some pool => decidable_of_iff ((s.pools pool).isRunning = true)
        ⟨fun running pool' held => by rw [found] at held; cases held; exact running,fun all => all pool found⟩
  | .next _ => .isTrue trivial
  | .enqueue .. => .isTrue trivial
  | .worker .. => .isTrue trivial
  | .spurious .. => .isTrue trivial

variable {implementation s t pool} {next : Singleton T n} {action : CallerAction T n}

-- The lock lets one thread at a time come to the assignment.
structure Single (s : Singleton T n) : Prop where
  lock : ∀ t, (s.callers t).Holds → s.singltonMutex = some t
  one : s.threadInstance = none ∧ s.created = 0 ∨ s.threadInstance = some 0 ∧ s.created = 1
  creating : ∀ t, s.callers t = .creating → s.threadInstance = none

theorem start_single : Single ({} : Singleton T n) :=
  ⟨fun _ held => held.elim,.inl ⟨rfl,rfl⟩,fun t at' => by cases at'⟩

theorem Single.alone (single : Single s) (held : (s.callers t).Holds) {u : Nat} (held' : (s.callers u).Holds) : u = t := by
  have same := (single.lock u held').symm.trans (single.lock t held)
  exact Option.some.inj same

theorem move_cases {motive : Caller → Prop} {u : Nat} {place : Caller} (after : motive ((s.move t place).callers u)) :
    u = t ∧ motive place ∨ u ≠ t ∧ motive (s.callers u) := by
  change motive (update s.callers t place u) at after
  by_cases same : u = t
  · subst u
    rw [Function.update_self] at after
    exact .inl ⟨rfl,after⟩
  · rw [Function.update_of_ne same] at after
    exact .inr ⟨same,after⟩

theorem Single.move (single : Single s) {place : Caller} (held : place.Holds → (s.callers t).Holds)
    (creating : place = .creating → s.threadInstance = none) : Single (s.move t place) := by
  refine ⟨fun u held' => ?_,single.one,fun u at' => ?_⟩
  · rcases move_cases held' with ⟨rfl,mine⟩ | ⟨_,before⟩
    · exact single.lock u (held mine)
    · exact single.lock u before
  · rcases move_cases (motive := (· = .creating)) at' with ⟨rfl,mine⟩ | ⟨_,before⟩
    · exact creating mine
    · exact single.creating u before

theorem Single.setPool (single : Single s) (value : ThreadPool T n) : Single (s.setPool pool value) :=
  ⟨single.lock,single.one,single.creating⟩

theorem Single.advance (single : Single s) (stepped : s.advance implementation t (s.callers t) = some next) :
    Single next := by
  cases at' : s.callers t with
  | outside => rw [at'] at stepped; cases stepped
  | locking =>
    rw [at'] at stepped
    obtain ⟨free,equal⟩ := Option.ite_none_right_eq_some.mp stepped
    cases equal
    have nobody : ∀ u, ¬(s.callers u).Holds := fun u held => by
      rw [single.lock u held] at free; cases free
    refine ⟨fun u held => ?_,single.one,fun u at'' => ?_⟩
    · rcases move_cases held with ⟨rfl,_⟩ | ⟨_,before⟩
      · rfl
      · exact absurd before (nobody u)
    · rcases move_cases (motive := (· = .creating)) at'' with ⟨_,mine⟩ | ⟨_,before⟩
      · cases mine
      · exact single.creating u before
  | locked =>
    rw [at'] at stepped
    cases stepped
    refine single.move (fun _ => by rw [at']; trivial) fun creating => ?_
    by_contra made
    rw [if_neg made] at creating; cases creating
  | creating =>
    rw [at'] at stepped
    cases stepped
    have held : (s.callers t).Holds := by rw [at']; trivial
    have empty := single.creating t at'
    refine ⟨fun u held' => ?_,.inr ?_,fun u at'' => ?_⟩
    · have moved : Single (s.move t (.constructed s.created)) := single.move (fun _ => held) Caller.noConfusion
      exact moved.lock u held'
    · rcases single.one with ⟨_,zero⟩ | ⟨made,_⟩
      · exact ⟨congrArg some zero,congrArg (· + 1) zero⟩
      · rw [empty] at made; cases made
    · rcases move_cases (motive := (· = .creating)) at'' with ⟨_,mine⟩ | ⟨other,before⟩
      · cases mine
      · exact absurd (single.alone held (u := u) (by rw [before]; trivial)) other
  | constructed pool =>
    rw [at'] at stepped
    cases stepped
    exact (single.setPool _).move (fun _ => by change (s.callers t).Holds; rw [at']; trivial) Caller.noConfusion
  | initialised pool =>
    rw [at'] at stepped
    cases stepped
    have begun : Single (s.start implementation pool) := ⟨single.lock,single.one,single.creating⟩
    exact begun.move (fun _ => by change (s.callers t).Holds; rw [at']; trivial) Caller.noConfusion
  | unlocking =>
    rw [at'] at stepped
    obtain ⟨pool,_,equal⟩ := Option.map_eq_some_iff.mp stepped
    cases equal
    have held : (s.callers t).Holds := by rw [at']; trivial
    refine ⟨fun u held' => ?_,single.one,fun u at'' => ?_⟩
    · rcases move_cases held' with ⟨_,mine⟩ | ⟨other,before⟩
      · exact mine.elim
      · exact absurd (single.alone held before) other
    · have moved : Single (s.move t (.returned pool)) := single.move False.elim Caller.noConfusion
      exact moved.creating u at''
  | returned pool => rw [at'] at stepped; cases stepped

theorem Single.step (single : Single s) (stepped : s.step implementation action = some next) : Single next := by
  cases action with
  | threadPoolSinglton t =>
    simp only [Singleton.step] at stepped
    split at stepped
    · cases stepped
      cases found : s.threadInstance with
      | none => exact single.move False.elim Caller.noConfusion
      | some pool => exact single.move False.elim Caller.noConfusion
    · cases stepped
  | next t => exact single.advance stepped
  | enqueue t task woken =>
    simp only [Singleton.step] at stepped
    split at stepped
    · rename_i pool at'
      obtain ⟨after,_,equal⟩ := Option.map_eq_some_iff.mp stepped
      cases equal
      have taken : Single {s.setPool pool after with offered := s.offered ++ [task]} :=
        ⟨single.lock,single.one,single.creating⟩
      exact taken.move False.elim Caller.noConfusion
    · cases stepped
  | worker pool w =>
    obtain ⟨_,stepped⟩ := Option.ite_none_right_eq_some.mp stepped
    obtain ⟨after,_,equal⟩ := Option.map_eq_some_iff.mp stepped
    cases equal
    exact single.setPool after
  | spurious pool w =>
    obtain ⟨_,stepped⟩ := Option.ite_none_right_eq_some.mp stepped
    obtain ⟨after,_,equal⟩ := Option.map_eq_some_iff.mp stepped
    cases equal
    exact single.setPool after

theorem Single.created (single : Single s) : s.created ≤ 1 := by
  rcases single.one with ⟨_,zero⟩ | ⟨_,one⟩
  · rw [zero]; exact Nat.zero_le 1
  · exact Nat.le_of_eq one

def Ready (s : Singleton T n) (pool : Nat) : Prop :=
  s.threadInstance = some pool ∧ (s.pools pool).isRunning = true

def Fine (s : Singleton T n) : Caller → Prop
  | .constructed pool => s.threadInstance = some pool
  | .initialised pool => s.Ready pool
  | .unlocking => ∃ pool, s.Ready pool
  | .returned pool => s.Ready pool
  | _ => True

-- With `Published`: a pool that is not running yet is still with the thread that made it.
structure Usable (s : Singleton T n) : Prop where
  running : ∀ pool, s.threadInstance = some pool →
    (s.pools pool).isRunning = true ∨ ∃ t, s.callers t = .constructed pool
  places : ∀ t, s.Fine (s.callers t)
  accepted : s.offered = (s.pools 0).accepted

theorem start_usable : Usable ({} : Singleton T n) :=
  ⟨fun pool held => (by cases held),fun _ => trivial,rfl⟩

theorem Fine.mono {place : Caller} (fine : s.Fine place)
    (same : ∀ pool, s.threadInstance = some pool → next.threadInstance = some pool)
    (ready : ∀ pool, s.Ready pool → next.Ready pool) : next.Fine place := by
  cases place with
  | constructed pool => exact same pool fine
  | initialised pool => exact ready pool fine
  | unlocking =>
    obtain ⟨pool,fine⟩ := fine
    exact ⟨pool,ready pool fine⟩
  | returned pool => exact ready pool fine
  | _ => trivial

theorem Usable.move (usable : Usable s) {place : Caller} (fine : s.Fine place)
    (other : ∀ pool, s.callers t ≠ .constructed pool) : Usable (s.move t place) := by
  refine ⟨fun pool held => ?_,fun u => ?_,usable.accepted⟩
  · rcases usable.running pool held with running | ⟨u,making⟩
    · exact .inl running
    · refine .inr ⟨u,?_⟩
      have different : u ≠ t := fun same => other pool (by rw [← same]; exact making)
      exact (Function.update_of_ne different _ _).trans making
  · change s.Fine (update s.callers t place u)
    by_cases same : u = t
    · subst u; rw [Function.update_self]; exact fine
    · rw [Function.update_of_ne same]; exact usable.places u

theorem Usable.lock (usable : Usable s) (singltonMutex : Option Nat) : Usable {s with singltonMutex} :=
  ⟨usable.running,fun t => usable.places t,usable.accepted⟩

theorem Usable.setPool (usable : Usable s) {value : ThreadPool T n} {offered : List T} (started : Nat → Bool)
    (running : (s.pools pool).isRunning = true → value.isRunning = true)
    (accepted : offered = (update s.pools pool value 0).accepted) :
    Usable {s.setPool pool value with offered, started} := by
  have kept : ∀ k, (s.pools k).isRunning = true → (update s.pools pool value k).isRunning = true := by
    intro k before
    by_cases same : k = pool
    · subst k; rw [Function.update_self]; exact running before
    · rw [Function.update_of_ne same]; exact before
  refine ⟨fun k held => ?_,fun u => ?_,accepted⟩
  · exact (usable.running k held).imp_left (kept k)
  · exact (usable.places u).mono (fun k held => held) fun k ready => ⟨ready.1,kept k ready.2⟩

theorem Usable.accepted_same (usable : Usable s) {value : ThreadPool T n}
    (same : value.accepted = (s.pools pool).accepted) : s.offered = (update s.pools pool value 0).accepted := by
  rw [usable.accepted]
  by_cases first : 0 = pool
  · subst first; rw [Function.update_self,same]
  · rw [Function.update_of_ne first]

theorem Usable.init (usable : Usable s) (at' : s.callers t = .constructed pool) :
    Usable ((s.setPool pool {s.pools pool with isRunning := true}).move t (.initialised pool)) := by
  have running : ({s.pools pool with isRunning := true} : ThreadPool T n).isRunning = true := rfl
  have after := usable.setPool s.started (fun _ => running) (usable.accepted_same rfl)
  have made : s.threadInstance = some pool := by
    have fine := usable.places t
    rwa [at'] at fine
  have set : (s.setPool pool {s.pools pool with isRunning := true}).Ready pool := by
    refine ⟨made,?_⟩
    change (update s.pools pool _ pool).isRunning = true
    rw [Function.update_self]
  refine ⟨fun k held => ?_,fun u => ?_,after.accepted⟩
  · rw [show k = pool from Option.some.inj (held.symm.trans made)]
    exact .inl set.2
  · change (s.setPool pool _).Fine (update s.callers t (.initialised pool) u)
    by_cases same : u = t
    · subst u; rw [Function.update_self]; exact set
    · rw [Function.update_of_ne same]; exact after.places u

theorem Usable.advance (single : Single s) (usable : Usable s)
    (stepped : s.advance implementation t (s.callers t) = some next) : Usable next := by
  have fine := usable.places t
  cases at' : s.callers t with
  | outside => rw [at'] at stepped; cases stepped
  | locking =>
    rw [at'] at stepped
    obtain ⟨_,equal⟩ := Option.ite_none_right_eq_some.mp stepped
    cases equal
    refine (usable.lock (some t)).move trivial fun pool made => ?_
    cases at'.symm.trans made
  | locked =>
    rw [at'] at stepped
    cases stepped
    refine usable.move ?_ fun pool made => by cases at'.symm.trans made
    cases found : s.threadInstance with
    | none => trivial
    | some pool =>
      -- whoever made the pool has the lock until Start is done
      rcases usable.running pool found with running | ⟨u,making⟩
      · exact ⟨pool,found,running⟩
      · have same := single.alone (t := t) (u := u) (by rw [at']; trivial) (by rw [making]; trivial)
        rw [same,at'] at making; cases making
  | creating =>
    rw [at'] at stepped
    cases stepped
    have empty := single.creating t at'
    refine ⟨fun pool held => .inr ⟨t,?_⟩,fun u => ?_,usable.accepted⟩
    · cases held
      exact Function.update_self ..
    · change Fine _ (update s.callers t (.constructed s.created) u)
      by_cases same : u = t
      · subst u; rw [Function.update_self]; rfl
      · rw [Function.update_of_ne same]
        refine (usable.places u).mono (fun k held => ?_) fun k ready => ?_
        · rw [empty] at held; cases held
        · have held := ready.1
          rw [empty] at held; cases held
  | constructed pool =>
    rw [at'] at stepped
    cases stepped
    exact usable.init at'
  | initialised pool =>
    rw [at'] at stepped fine
    cases stepped
    have begun : Usable (s.start implementation pool) := by
      cases implementation with
      | osThread => exact usable.setPool _ id (usable.accepted_same rfl)
      | poolLog => exact usable.setPool _ (fun _ => rfl) (usable.accepted_same rfl)
    refine begun.move ⟨pool,fine.1,?_⟩ fun k made => by cases at'.symm.trans made
    change (update s.pools pool _ pool).isRunning = true
    rw [Function.update_self]
    cases implementation with
    | osThread => exact fine.2
    | poolLog => rfl
  | unlocking =>
    rw [at'] at stepped fine
    obtain ⟨pool,found,equal⟩ := Option.map_eq_some_iff.mp stepped
    cases equal
    obtain ⟨k,made,running⟩ := fine
    obtain rfl : k = pool := Option.some.inj (made.symm.trans found)
    exact (usable.lock none).move ⟨made,running⟩ fun k made => by cases at'.symm.trans made
  | returned pool => rw [at'] at stepped; cases stepped

theorem Usable.enqueue (single : Single s) (usable : Usable s) {task : T} {woken : Option (Fin n)}
    (stepped : s.step implementation (.enqueue t task woken) = some next) : Usable next := by
  simp only [Singleton.step] at stepped
  split at stepped
  · rename_i pool at'
    obtain ⟨after,taken,equal⟩ := Option.map_eq_some_iff.mp stepped
    cases equal
    have ready := usable.places t
    rw [at'] at ready
    obtain ⟨running,longer⟩ := ThreadPool.enqueue_running ready.2 taken
    have first : pool = 0 := by
      rcases single.one with ⟨empty,_⟩ | ⟨made,_⟩
      · cases empty.symm.trans ready.1
      · exact Option.some.inj (ready.1.symm.trans made)
    subst first
    have accepted : s.offered ++ [task] = (update s.pools 0 after 0).accepted := by
      rw [Function.update_self,longer,usable.accepted]
    exact (usable.setPool s.started (fun _ => running) accepted).move trivial
      fun k made => by cases at'.symm.trans made
  · cases stepped

theorem Usable.step (single : Single s) (usable : Usable s) (published : s.Published action)
    (stepped : s.step implementation action = some next) : Usable next := by
  cases action with
  | threadPoolSinglton t =>
    simp only [Singleton.step] at stepped
    split at stepped
    · rename_i at'
      cases stepped
      have other : ∀ pool, s.callers t ≠ .constructed pool := fun pool made => by cases at'.symm.trans made
      cases found : s.threadInstance with
      | none => exact usable.move trivial other
      | some pool => exact usable.move ⟨found,published pool found⟩ other
    · cases stepped
  | next t => exact usable.advance single stepped
  | enqueue t task woken => exact usable.enqueue single stepped
  | worker pool w =>
    obtain ⟨_,stepped⟩ := Option.ite_none_right_eq_some.mp stepped
    obtain ⟨after,taken,equal⟩ := Option.map_eq_some_iff.mp stepped
    cases equal
    obtain ⟨running,accepted⟩ := ThreadPool.worker_frame taken
    exact usable.setPool s.started (fun before => running.trans before) (usable.accepted_same accepted)
  | spurious pool w =>
    obtain ⟨_,stepped⟩ := Option.ite_none_right_eq_some.mp stepped
    obtain ⟨after,taken,equal⟩ := Option.map_eq_some_iff.mp stepped
    cases equal
    obtain ⟨running,accepted⟩ := ThreadPool.spurious_frame taken
    exact usable.setPool s.started (fun before => running.trans before) (usable.accepted_same accepted)

theorem offered_tasks_accepted (implementation : Implementation) (n : Nat) (actions : List (CallerAction T n))
    (s : Singleton T n) (ran : Machine.run (step implementation) {} actions = some s) : s.created ≤ 1 ∧
      (Machine.Throughout (step implementation) Published {} actions → s.offered = (s.pools 0).accepted) := by
  have single : Single s :=
    Machine.run_invariant (fun _ _ _ single stepped => single.step stepped) start_single ran
  refine ⟨single.created,fun published => ?_⟩
  have usable : Single s ∧ Usable s :=
    Machine.run_keeps (motive := fun s => Single s ∧ Usable s)
      (fun _ _ _ held published stepped => ⟨held.1.step stepped,held.2.step held.1 published stepped⟩)
      ⟨start_single,start_usable⟩ published ran
  exact usable.2.accepted

def lockRace : List (CallerAction Nat 1) := [.threadPoolSinglton 0,.threadPoolSinglton 1] ++ List.replicate 6 (.next 0) ++
  [.enqueue 0 7 none,.next 1,.next 1,.next 1,.enqueue 1 8 none]

theorem offered_tasks_accepted_race : ∃ s, Machine.run (step .osThread) {} lockRace = some s ∧ s.created ≤ 1 ∧
    s.offered = (s.pools 0).accepted := by
  have complete : (Machine.run (step .osThread) {} lockRace).isSome = true := by decide
  have published : Machine.Throughout (step .osThread) Published {} lockRace := by decide
  obtain ⟨s,ran⟩ := Option.isSome_iff_exists.mp complete
  obtain ⟨one,accepted⟩ := offered_tasks_accepted .osThread 1 lockRace s ran
  exact ⟨s,ran,one,accepted published⟩

-- Thread 1 comes when thread 0 has assigned the pointer and not called Init.
def earlyReader : List (CallerAction Nat 1) :=
  [.threadPoolSinglton 0,.next 0,.next 0,.next 0,.threadPoolSinglton 1,.enqueue 1 7 none]

theorem task_dropped_before_init : ¬∀ implementation (actions : List (CallerAction Nat 1)) s,
    Machine.run (step implementation) {} actions = some s → s.created ≤ 1 ∧ s.offered = (s.pools 0).accepted := by
  intro claimed
  have dropped : (Machine.run (step .osThread) {} earlyReader).map (fun s => (s.offered,(s.pools 0).accepted)) =
    some ([7],[]) := by decide
  obtain ⟨s,ran,pair⟩ := Option.map_eq_some_iff.mp dropped
  obtain ⟨_,all⟩ := claimed .osThread earlyReader s ran
  rw [Prod.mk.injEq] at pair
  rw [pair.1,pair.2] at all
  cases all

end Singleton
end LinuxOS.Threads
