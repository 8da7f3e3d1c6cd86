import LinuxOS.Condition
import LinuxOS.Machine

namespace LinuxOS.Threads
open Function (update)
open Census
variable {T : Type} {n : Nat}

-- The two thread pools have the same HandlerTask and differ in when they wake.
inductive Implementation where
  | osThread
  | poolLog
  deriving DecidableEq, Repr

-- Enqueue: `Signal();` and `if (_sleep_threads_num > 0) WakeUp();`
def Implementation.signals : Implementation → Int → Bool
  | .osThread,_ => true
  | .poolLog,sleepThreadsNum => 0 < sleepThreadsNum

-- Stop: `if (_sleep_threads_num > 0) BroadCast();` and `WakeUpAll();`
def Implementation.broadcasts : Implementation → Int → Bool
  | .osThread,sleepThreadsNum => 0 < sleepThreadsNum
  | .poolLog,_ => true

theorem Implementation.wakes (implementation : Implementation) {sleepers : Int} (some' : 0 < sleepers) :
    implementation.signals sleepers = true ∧ implementation.broadcasts sleepers = true := by
  cases implementation with
  | osThread => exact ⟨rfl,decide_eq_true some'⟩
  | poolLog => exact ⟨decide_eq_true some',rfl⟩

-- Where a worker is between two critical sections: about to Lock (its thread may not
-- have begun yet), in pthread_cond_wait, on the way out of it to the mutex, in a task,
-- or returned from HandlerTask.
inductive Worker (T : Type) where
  | ready
  | waiting
  | woken
  | running (task : T)
  | exited

def Worker.isWaiting : Worker T → Bool
  | .waiting => true
  | _ => false

def Worker.Asleep : Worker T → Prop
  | .waiting | .woken => True
  | _ => False

def Worker.Active : Worker T → Prop
  | .ready | .woken | .running _ => True
  | _ => False

instance : DecidablePred (Worker.Asleep (T := T))
  | .ready => .isFalse id
  | .waiting => .isTrue trivial
  | .woken => .isTrue trivial
  | .running _ => .isFalse id
  | .exited => .isFalse id

-- The pool after Init and Start. `accepted` are the tasks that Enqueue has pushed,
-- `popped` those that were taken, and by which worker.
structure ThreadPool (T : Type) (n : Nat) where
  isRunning : Bool := true
  tasks : List T := []
  sleepThreadsNum : Int := 0
  workers : Fin n → Worker T := fun _ => .ready
  accepted : List T := []
  popped : List (Fin n × T) := []

-- One critical section each. `woken` is the waiter that pthread_cond_signal picks; any
-- other waiter that it may wake as well is a `spurious` wake-up.
inductive PoolAction (T : Type) (n : Nat) where
  | enqueue (task : T) (woken : Option (Fin n))
  | stop
  | worker (t : Fin n)
  | spurious (t : Fin n)

namespace ThreadPool
variable (implementation : Implementation) (s : ThreadPool T n) (t : Fin n)

def move (place : Worker T) : ThreadPool T n := {s with workers := update s.workers t place}

-- pthread_cond_signal wakes somebody if anybody waits.
def signal : Option (Fin n) → Option (ThreadPool T n)
  | some t => if (s.workers t).isWaiting = true then some (s.move t .woken) else none
  | none => if ∀ t, (s.workers t).isWaiting = false then some s else none

def broadcast : ThreadPool T n :=
  {s with workers := fun t => if (s.workers t).isWaiting = true then .woken else s.workers t}

def enqueue (task : T) (woken : Option (Fin n)) : Option (ThreadPool T n) :=
  if s.isRunning then
    let pushed := {s with tasks := s.tasks ++ [task], accepted := s.accepted ++ [task]}
    if implementation.signals s.sleepThreadsNum then pushed.signal woken else some pushed
  else some s

def stop : ThreadPool T n :=
  let stopped := {s with isRunning := false}
  if implementation.broadcasts s.sleepThreadsNum then stopped.broadcast else stopped

-- HandlerTask from the test of the inner loop to the next point without the mutex.
def handlerTask : ThreadPool T n :=
  match s.tasks with
  | task :: rest => {s.move t (.running task) with tasks := rest, popped := s.popped ++ [(t,task)]}
  | [] =>
    if s.isRunning then {s.move t .waiting with sleepThreadsNum := s.sleepThreadsNum + 1}
    else s.move t .exited

def step : PoolAction T n → Option (ThreadPool T n)
  | .enqueue task woken => s.enqueue implementation task woken
  | .stop => some (s.stop implementation)
  | .worker t =>
    match s.workers t with
    | .ready => some (s.handlerTask t)
    | .woken => some ({s with sleepThreadsNum := s.sleepThreadsNum - 1}.handlerTask t)
    | .running _ => some (s.move t .ready)
    | .waiting => none
    | .exited => none
  | .spurious t => if (s.workers t).isWaiting = true then some (s.move t .woken) else none

-- `_sleep_threads_num` counts the workers between its two updates, notified or not.
structure Tally (s : ThreadPool T n) : Prop where
  conserved : s.accepted = s.popped.map Prod.snd ++ s.tasks
  counter : s.sleepThreadsNum = census s.workers Worker.Asleep
  stopped : s.isRunning = false → ∀ t, (s.workers t).isWaiting = false
  finished : ∀ t, s.workers t = .exited → s.isRunning = false ∧ s.tasks = []

structure Sound (s : ThreadPool T n) : Prop extends Tally s where
  awake : s.tasks ≠ [] → ∃ t, (s.workers t).Active

variable {implementation s t} {next : ThreadPool T n} {action : PoolAction T n}

theorem start_sound : Sound ({} : ThreadPool T n) := by
  have nobody : census ({} : ThreadPool T n).workers Worker.Asleep = 0 := census_eq_zero.mpr fun _ => id
  refine ⟨⟨rfl,?_,fun stopped => Bool.noConfusion stopped,fun t left => ?_⟩,fun held => absurd rfl held⟩
  · rw [nobody]; rfl
  · cases left

theorem isWaiting_iff (place : Worker T) : place.isWaiting = true ↔ place = .waiting := by
  cases place <;> simp [Worker.isWaiting]

theorem active_of_not_waiting {place : Worker T} (awake : place.isWaiting = false) (inside : place ≠ .exited) :
    place.Active := by
  cases place with
  | ready => trivial
  | waiting => cases awake
  | woken => trivial
  | running task => trivial
  | exited => exact absurd rfl inside

theorem Tally.nobody_waits (tally : Tally s) (zero : ¬0 < s.sleepThreadsNum) (t : Fin n) :
    (s.workers t).isWaiting = false := by
  have none' : census s.workers Worker.Asleep = 0 := by
    have counter := tally.counter
    omega
  rw [Bool.eq_false_iff,Ne,isWaiting_iff]
  intro waiting
  refine census_eq_zero.mp none' t ?_
  rw [waiting]; trivial

theorem Tally.wake (tally : Tally s) (waits : (s.workers t).isWaiting = true) : Sound (s.move t .woken) := by
  have waiting := (isWaiting_iff _).mp waits
  have still : census (update s.workers t .woken) Worker.Asleep = census s.workers Worker.Asleep :=
    census_stay (by rw [waiting]; exact Iff.rfl)
  refine ⟨⟨tally.conserved,?_,fun stopped => ?_,fun u left => ?_⟩,fun _ => ⟨t,?_⟩⟩
  · exact tally.counter.trans (by rw [← still]; rfl)
  · have quiet := tally.stopped stopped t
    rw [waits] at quiet; cases quiet
  · change update s.workers t .woken u = .exited at left
    by_cases same : u = t
    · subst u
      rw [Function.update_self] at left; cases left
    · rw [Function.update_of_ne same] at left
      exact tally.finished u left
  · change (update s.workers t .woken t).Active
    rw [Function.update_self]; trivial

theorem Sound.enqueue (sound : Sound s) (positive : 0 < n) {task : T} {woken : Option (Fin n)}
    (stepped : s.enqueue implementation task woken = some next) : Sound next := by
  rw [ThreadPool.enqueue] at stepped
  by_cases running : s.isRunning = true
  · rw [if_pos running] at stepped
    have inside : ∀ t, s.workers t ≠ .exited := by
      intro t left
      rw [(sound.finished t left).1] at running; cases running
    have pushed : Tally {s with tasks := s.tasks ++ [task], accepted := s.accepted ++ [task]} := by
      refine ⟨?_,sound.counter,sound.stopped,fun t left => absurd left (inside t)⟩
      change s.accepted ++ [task] = s.popped.map Prod.snd ++ (s.tasks ++ [task])
      rw [sound.conserved,List.append_assoc]
    have everybody (quiet : ∀ t, (s.workers t).isWaiting = false) : ∃ t, (s.workers t).Active :=
      ⟨⟨0,positive⟩,active_of_not_waiting (quiet _) (inside _)⟩
    by_cases signals : implementation.signals s.sleepThreadsNum = true
    · rw [if_pos signals] at stepped
      cases woken with
      | none =>
        obtain ⟨quiet,equal⟩ := Option.ite_none_right_eq_some.mp stepped
        cases equal
        exact ⟨pushed,fun _ => everybody quiet⟩
      | some t =>
        obtain ⟨waits,equal⟩ := Option.ite_none_right_eq_some.mp stepped
        cases equal
        exact pushed.wake waits
    · rw [if_neg signals] at stepped
      cases stepped
      have zero : ¬0 < s.sleepThreadsNum := fun some' => signals (implementation.wakes some').1
      exact ⟨pushed,fun _ => everybody (sound.nobody_waits zero)⟩
  · rw [if_neg running] at stepped
    cases stepped
    exact sound

-- A broadcast leaves no waiter, and who has been woken sleeps no less for the counter.
theorem Tally.broadcast (tally : Tally s) : Tally s.broadcast ∧ ∀ t, (s.broadcast.workers t).isWaiting = false := by
  have quiet : ∀ t, (s.broadcast.workers t).isWaiting = false := by
    intro t
    change (if (s.workers t).isWaiting = true then Worker.woken else s.workers t).isWaiting = false
    split
    · rfl
    · rename_i awake
      exact Bool.eq_false_iff.mpr awake
  refine ⟨⟨tally.conserved,?_,fun _ => quiet,fun t left => ?_⟩,quiet⟩
  · have same : ∀ t, (s.broadcast.workers t).Asleep ↔ (s.workers t).Asleep := by
      intro t
      change (if (s.workers t).isWaiting = true then Worker.woken else s.workers t).Asleep ↔ _
      split
      · rename_i waits
        rw [(isWaiting_iff _).mp waits]; exact Iff.rfl
      · exact Iff.rfl
    exact tally.counter.trans (congrArg Nat.cast (census_congr same).symm)
  · change (if (s.workers t).isWaiting = true then Worker.woken else s.workers t) = .exited at left
    split at left
    · cases left
    · exact tally.finished t left

theorem Sound.stop (sound : Sound s) : Sound (s.stop implementation) := by
  have tally (quiet : ∀ t, (s.workers t).isWaiting = false) : Tally {s with isRunning := false} :=
    ⟨sound.conserved,sound.counter,fun _ => quiet,fun t left => ⟨rfl,(sound.finished t left).2⟩⟩
  rw [ThreadPool.stop]
  by_cases broadcasts : implementation.broadcasts s.sleepThreadsNum = true
  · simp only [broadcasts,if_true]
    obtain ⟨after,quiet⟩ := sound.broadcast
    refine ⟨⟨after.conserved,after.counter,fun _ => quiet,fun t left => ⟨rfl,(after.finished t left).2⟩⟩,fun held => ?_⟩
    obtain ⟨t,active⟩ := sound.awake held
    refine ⟨t,?_⟩
    change (if (s.workers t).isWaiting = true then Worker.woken else s.workers t).Active
    split
    · trivial
    · exact active
  · have zero : ¬0 < s.sleepThreadsNum := fun some' => broadcasts (implementation.wakes some').2
    rw [if_neg broadcasts]
    exact ⟨tally (sound.nobody_waits zero),sound.awake⟩

theorem Tally.recount (tally : Tally s) (sleepers : Int)
    (counted : sleepers + (if (s.workers t).Asleep then 1 else 0) = s.sleepThreadsNum) (place : Worker T) :
    sleepers + (if place.Asleep then 1 else 0) = census (update s.workers t place) Worker.Asleep := by
  have moved := census_update s.workers Worker.Asleep t place
  have counter := tally.counter
  by_cases old : (s.workers t).Asleep <;> by_cases new : place.Asleep <;>
    · simp only [old,new,if_true,if_false] at moved counted ⊢
      omega

theorem Tally.stopped_move (tally : Tally s) {place : Worker T} (awake : place.isWaiting = false)
    (stopped : s.isRunning = false) (u : Fin n) : (update s.workers t place u).isWaiting = false := by
  by_cases same : u = t
  · subst u; rw [Function.update_self]; exact awake
  · rw [Function.update_of_ne same]; exact tally.stopped stopped u

theorem Tally.finished_move (tally : Tally s) {place : Worker T} {u : Fin n}
    (left : update s.workers t place u = .exited) : place = .exited ∨ s.isRunning = false ∧ s.tasks = [] := by
  by_cases same : u = t
  · subst u; rw [Function.update_self] at left; exact .inl left
  · rw [Function.update_of_ne same] at left; exact .inr (tally.finished u left)

theorem Sound.handlerTask (sound : Sound s) (sleepers : Int)
    (counted : sleepers + (if (s.workers t).Asleep then 1 else 0) = s.sleepThreadsNum) :
    Sound ({s with sleepThreadsNum := sleepers}.handlerTask t) := by
  have counter := sound.recount sleepers counted
  rw [ThreadPool.handlerTask]
  cases held : s.tasks with
  | cons task rest =>
    refine ⟨⟨?_,?_,sound.stopped_move rfl,fun u left => ?_⟩,fun _ => ⟨t,?_⟩⟩
    · change s.accepted = (s.popped ++ [(t,task)]).map Prod.snd ++ rest
      rw [sound.conserved,held,List.map_append,List.append_assoc]; rfl
    · exact (Int.add_zero sleepers).symm.trans (counter (.running task))
    · rcases sound.finished_move left with impossible | ⟨_,empty⟩
      · cases impossible
      · rw [held] at empty; cases empty
    · change (update s.workers t (.running task) t).Active
      rw [Function.update_self]; trivial
  | nil =>
    have conserved := sound.conserved
    rw [held] at conserved
    by_cases running : s.isRunning = true
    · rw [if_pos running]
      refine ⟨⟨conserved,counter .waiting,fun stopped => ?_,fun u left => ?_⟩,fun some' => absurd rfl some'⟩
      · cases running.symm.trans stopped
      · rcases sound.finished_move left with impossible | ⟨stopped,_⟩
        · cases impossible
        · cases running.symm.trans stopped
    · rw [if_neg running]
      have stopped := Bool.eq_false_iff.mpr running
      refine ⟨⟨conserved,?_,sound.stopped_move rfl,fun u left => ⟨stopped,rfl⟩⟩,fun some' => absurd rfl some'⟩
      exact (Int.add_zero sleepers).symm.trans (counter .exited)

theorem Sound.finish (sound : Sound s) {task : T} (running : s.workers t = .running task) : Sound (s.move t .ready) := by
  have counter := sound.recount (t := t) s.sleepThreadsNum (by rw [running]; exact Int.add_zero _) .ready
  refine ⟨⟨sound.conserved,(Int.add_zero _).symm.trans counter,sound.stopped_move rfl,fun u left => ?_⟩,
    fun _ => ⟨t,?_⟩⟩
  · rcases sound.finished_move left with impossible | finished
    · cases impossible
    · exact finished
  · change (update s.workers t .ready t).Active
    rw [Function.update_self]; trivial

theorem Sound.step (sound : Sound s) (positive : 0 < n) (stepped : s.step implementation action = some next) :
    Sound next := by
  cases action with
  | enqueue task woken => exact sound.enqueue positive stepped
  | stop => cases stepped; exact sound.stop
  | worker t =>
    simp only [ThreadPool.step] at stepped
    cases at' : s.workers t with
    | ready =>
      rw [at'] at stepped
      cases stepped
      exact sound.handlerTask s.sleepThreadsNum (by rw [at']; exact Int.add_zero _)
    | woken =>
      rw [at'] at stepped
      cases stepped
      exact sound.handlerTask (s.sleepThreadsNum - 1) (by rw [at']; exact Int.sub_add_cancel _ _)
    | running task =>
      rw [at'] at stepped
      cases stepped
      exact sound.finish at'
    | waiting => rw [at'] at stepped; cases stepped
    | exited => rw [at'] at stepped; cases stepped
  | spurious t =>
    obtain ⟨waits,equal⟩ := Option.ite_none_right_eq_some.mp stepped
    cases equal
    exact sound.wake waits

theorem handlerTask_frame (s : ThreadPool T n) (t : Fin n) :
    (s.handlerTask t).isRunning = s.isRunning ∧ (s.handlerTask t).accepted = s.accepted := by
  rw [ThreadPool.handlerTask]
  split
  · exact ⟨rfl,rfl⟩
  · split <;> exact ⟨rfl,rfl⟩

theorem worker_frame (stepped : s.step implementation (.worker t) = some next) :
    next.isRunning = s.isRunning ∧ next.accepted = s.accepted := by
  simp only [ThreadPool.step] at stepped
  split at stepped
  · cases stepped; exact s.handlerTask_frame t
  · cases stepped; exact handlerTask_frame _ t
  · cases stepped; exact ⟨rfl,rfl⟩
  · cases stepped
  · cases stepped

theorem spurious_frame (stepped : s.step implementation (.spurious t) = some next) :
    next.isRunning = s.isRunning ∧ next.accepted = s.accepted := by
  obtain ⟨_,equal⟩ := Option.ite_none_right_eq_some.mp stepped
  cases equal
  exact ⟨rfl,rfl⟩

theorem enqueue_running (running : s.isRunning = true) {task : T} {woken : Option (Fin n)}
    (stepped : s.enqueue implementation task woken = some next) :
    next.isRunning = true ∧ next.accepted = s.accepted ++ [task] := by
  rw [ThreadPool.enqueue,if_pos running] at stepped
  dsimp only at stepped
  split at stepped
  · cases woken with
    | none =>
      obtain ⟨_,equal⟩ := Option.ite_none_right_eq_some.mp stepped
      cases equal
      exact ⟨running,rfl⟩
    | some t =>
      obtain ⟨_,equal⟩ := Option.ite_none_right_eq_some.mp stepped
      cases equal
      exact ⟨running,rfl⟩
  · cases stepped
    exact ⟨running,rfl⟩

-- Every accepted task is in the queue or was popped by one worker, in the order of the
-- acceptances; no task is stranded, and nobody is left asleep by Stop.
structure Correct (s : ThreadPool T n) : Prop where
  conserved : s.accepted = s.popped.map Prod.snd ++ s.tasks
  awake : s.tasks ≠ [] → ∃ t, s.workers t ≠ .exited ∧ s.workers t ≠ .waiting
  stopped : s.isRunning = false → ∀ t, s.workers t ≠ .waiting
  drained : (∀ t, s.workers t = .exited) → s.tasks = []

theorem Sound.correct (sound : Sound s) (positive : 0 < n) : Correct s := by
  refine ⟨sound.conserved,fun held => ?_,fun stopped t waiting => ?_,fun left => ?_⟩
  · obtain ⟨t,active⟩ := sound.awake held
    refine ⟨t,fun left => ?_,fun waiting => ?_⟩
    · rw [left] at active; exact active
    · rw [waiting] at active; exact active
  · have quiet := sound.stopped stopped t
    rw [waiting] at quiet; cases quiet
  · exact (sound.finished ⟨0,positive⟩ (left _)).2

theorem no_task_lost (implementation : Implementation) (n : Nat) (positive : 1 ≤ n) (actions : List (PoolAction T n))
    (s : ThreadPool T n) (ran : Machine.run (step implementation) {} actions = some s) : Correct s :=
  (Machine.run_invariant (motive := Sound) (fun _ _ _ sound stepped => sound.step positive stepped) start_sound
    ran).correct positive

-- Both workers go to sleep, one is signalled and finds that the other, woken for no
-- reason, has taken the task; the second task meets a Stop.
def stolenTask : List (PoolAction Nat 2) :=
  let first : Fin 2 := ⟨0,Nat.zero_lt_two⟩
  let other : Fin 2 := ⟨1,Nat.one_lt_two⟩
  [.worker first,.worker other,.enqueue 7 (some first),.spurious other,.worker other,.worker first,
    .enqueue 8 (some first),.stop,.worker first,.worker first,.worker first,.worker other,.worker other]

theorem no_task_lost_stolen : ∃ s, Machine.run (step .poolLog) {} stolenTask = some s ∧ Correct s := by
  have complete : (Machine.run (step .poolLog) {} stolenTask).isSome = true := by decide
  obtain ⟨s,ran⟩ := Option.isSome_iff_exists.mp complete
  exact ⟨s,ran,no_task_lost .poolLog 2 (by decide) stolenTask s ran⟩

end ThreadPool
end LinuxOS.Threads
