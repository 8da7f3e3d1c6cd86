import Mathlib.Algebra.Group.Nat.Defs
import LinuxOS.Machine
import Mathlib.Data.List.Nodup
import Mathlib.Logic.Function.Basic

namespace LinuxOS.Muduo

inductive Thread where
  | loop
  | other (p : Nat)
  deriving DecidableEq, Repr

-- A ready channel: the loop's own _event_channel, or any other, whose handler
-- is user code as far as the queue is concerned.
inductive Source where
  | event
  | other
  deriving DecidableEq, Repr

-- Where the loop thread is in EventLoop::Loop. Before DoPendingTask swaps it is
-- still `handling`, with no ready channel left.
inductive Position where
  | waiting
  | handling (ready : List Source)
  | running
  deriving DecidableEq, Repr

-- _pending with the number of each push, the eventfd counter, the threads that
-- are between QueueInLoop and the write, the batch that DoPendingTask swapped
-- out less the tasks it started, and how many closures are active on the loop
-- thread. `queued`, `started` and `direct` are history.
structure TaskQueue (Task : Type) where
  pending : List (Nat × Task) := []
  event : Nat := 0
  writing : Nat → Bool := fun _ => false
  position : Position := .waiting
  batch : List (Nat × Task) := []
  depth : Nat := 0
  queued : List (Nat × Task) := []
  started : List (Nat × Task) := []
  direct : List Task := []

namespace TaskQueue
open Function (update)
variable {Task : Type}

inductive Action (Task : Type) where
  | runInLoop (thread : Thread) (task : Task)
  | wakeUpEpollToDoPending (p : Nat)
  | polling (ready : List Source)
  | eventRead (interrupted : Bool)
  | handleEvents
  | closureReturns
  | swapPending
  | pend
  | loopAgain

def queueInLoop (s : TaskQueue Task) (task : Task) : TaskQueue Task :=
  {s with
    pending := s.pending ++ [(s.queued.length,task)]
    queued := s.queued ++ [(s.queued.length,task)]}

-- An eventfd counts to 2^64-2; a write that would pass it fails with EAGAIN,
-- which WakeUpEpollToDoPending takes for success.
def writeEvent (s : TaskQueue Task) : TaskQueue Task :=
  {s with event := if s.event < 2^64-2 then s.event+1 else s.event}

-- The read resets the counter; on EINTR it stays, on zero it is EAGAIN.
def readEvent (s : TaskQueue Task) (interrupted : Bool) : TaskQueue Task :=
  if interrupted then s else {s with event := 0}

def step (s : TaskQueue Task) : Action Task → Option (TaskQueue Task)
  | .runInLoop .loop task =>
    if 0 < s.depth then some {s with depth := s.depth+1, direct := task :: s.direct} else none
  | .runInLoop (.other p) task =>
    if s.writing p then none else some {s.queueInLoop task with writing := update s.writing p true}
  | .wakeUpEpollToDoPending p =>
    if s.writing p then some {s.writeEvent with writing := update s.writing p false} else none
  | .polling ready =>
    -- epoll_wait reports the eventfd only while it is readable, and it may be
    -- left out of a full batch; no channel at all is an EINTR
    if s.position = .waiting ∧ (.event ∈ ready → 0 < s.event) then some {s with position := .handling ready} else none
  | .eventRead interrupted =>
    match s.position with
    | .handling (.event :: ready) =>
      if s.depth = 0 then some {s.readEvent interrupted with position := .handling ready} else none
    | _ => none
  | .handleEvents =>
    match s.position with
    | .handling (.other :: ready) =>
      if s.depth = 0 then some {s with position := .handling ready, depth := 1} else none
    | _ => none
  | .closureReturns => if 0 < s.depth then some {s with depth := s.depth-1} else none
  | .swapPending =>
    if s.position = .handling [] ∧ s.depth = 0 then
      some {s with pending := [], batch := s.pending, position := .running}
    else none
  | .pend =>
    match s.batch with
    | task :: rest =>
      if s.position = .running ∧ s.depth = 0 then
        some {s with batch := rest, started := s.started ++ [task], depth := 1}
      else none
    | [] => none
  | .loopAgain =>
    if s.position = .running ∧ s.batch.isEmpty ∧ s.depth = 0 then some {s with position := .waiting} else none

variable {s next : TaskQueue Task}

-- Every push is in exactly one place, in the order of the pushes, and a queue
-- that holds something is noticed: by the counter, by a thread that is about to
-- write it, or by the loop, which swaps before it waits again.
structure Sound (s : TaskQueue Task) : Prop where
  conserved : s.queued = s.started ++ s.batch ++ s.pending
  numbered : s.queued.map Prod.fst = List.range s.queued.length
  emptied : s.position ≠ .running → s.batch = []
  outside : s.position = .waiting → s.depth = 0
  noticed : s.pending ≠ [] → 0 < s.event ∨ (∃ p, s.writing p = true) ∨ ∃ ready, s.position = .handling ready

theorem start_sound : Sound ({} : TaskQueue Task) :=
  ⟨rfl,rfl,fun _ => rfl,fun _ => rfl,fun held => absurd rfl held⟩

theorem writeEvent_positive (s : TaskQueue Task) : 0 < s.writeEvent.event := by
  unfold writeEvent
  dsimp only
  split
  · exact Nat.succ_pos _
  · rename_i full
    exact Nat.lt_of_lt_of_le (by decide) (Nat.le_of_not_lt full)

theorem queue_sound (sound : Sound s) (p : Nat) (task : Task) :
    Sound {s.queueInLoop task with writing := update s.writing p true} := by
  refine ⟨?_,?_,sound.emptied,sound.outside,fun _ => .inr (.inl ⟨p,Function.update_self ..⟩)⟩
  · change s.queued ++ [(s.queued.length,task)] = s.started ++ s.batch ++ (s.pending ++ [(s.queued.length,task)])
    rw [← List.append_assoc,← sound.conserved]
  · change (s.queued ++ [(s.queued.length,task)]).map Prod.fst = List.range (s.queued ++ [_]).length
    rw [List.map_append,sound.numbered,List.length_append]
    exact List.range_succ.symm

theorem wake_sound (sound : Sound s) (p : Nat) :
    Sound {s.writeEvent with writing := update s.writing p false} :=
  ⟨sound.conserved,sound.numbered,sound.emptied,sound.outside,fun _ => .inl (writeEvent_positive s)⟩

-- Consuming the counter is safe as long as the swap is still ahead.
theorem handling_sound (sound : Sound s) (ready : List Source) (event depth : Nat) (empty : s.batch = []) :
    Sound {s with position := .handling ready, event := event, depth := depth} :=
  ⟨sound.conserved,sound.numbered,fun _ => empty,nofun,fun _ => .inr (.inr ⟨ready,rfl⟩)⟩

theorem read_sound (sound : Sound s) (interrupted : Bool) (ready : List Source) (empty : s.batch = []) :
    Sound {s.readEvent interrupted with position := .handling ready} := by
  unfold readEvent
  split
  · exact handling_sound sound ready s.event s.depth empty
  · exact handling_sound sound ready 0 s.depth empty

theorem swap_sound (sound : Sound s) (empty : s.batch = []) :
    Sound {s with pending := [], batch := s.pending, position := .running} := by
  refine ⟨?_,sound.numbered,fun apart => absurd rfl apart,nofun,fun held => absurd rfl held⟩
  have all := sound.conserved
  rw [empty,List.append_nil] at all
  rw [List.append_nil]; exact all

theorem pend_sound (sound : Sound s) (first : s.batch = task :: rest) (running : s.position = .running) (depth : Nat) :
    Sound {s with batch := rest, started := s.started ++ [task], depth := depth} := by
  refine ⟨?_,sound.numbered,fun apart => absurd running apart,fun waiting => ?_,sound.noticed⟩
  · have all := sound.conserved
    rw [first] at all
    rw [all]; simp
  · rw [running] at waiting; cases waiting

theorem again_sound (sound : Sound s) (running : s.position = .running) (empty : s.batch = []) (left : s.depth = 0) :
    Sound {s with position := .waiting} := by
  refine ⟨sound.conserved,sound.numbered,fun _ => empty,fun _ => left,fun held => ?_⟩
  rcases sound.noticed held with counted | writer | ⟨ready,handling⟩
  · exact .inl counted
  · exact .inr (.inl writer)
  · rw [running] at handling; cases handling

theorem depth_sound (sound : Sound s) (inside : 0 < s.depth) (depth : Nat) (direct : List Task) :
    Sound {s with depth := depth, direct := direct} := by
  refine ⟨sound.conserved,sound.numbered,sound.emptied,fun waiting => ?_,sound.noticed⟩
  rw [sound.outside waiting] at inside; cases inside

theorem handling_empty (sound : Sound s) (handling : s.position = .handling ready) : s.batch = [] :=
  sound.emptied fun running => by rw [handling] at running; cases running

theorem step_sound (s : TaskQueue Task) (action : Action Task) (next : TaskQueue Task) (sound : Sound s)
    (taken : step s action = some next) : Sound next := by
  cases action with
  | runInLoop thread task =>
    cases thread with
    | loop =>
      simp only [step] at taken
      split at taken
      · rename_i inside
        cases taken; exact depth_sound sound inside _ _
      · cases taken
    | other p =>
      simp only [step] at taken
      split at taken
      · cases taken
      · cases taken; exact queue_sound sound p task
  | wakeUpEpollToDoPending p =>
    simp only [step] at taken
    split at taken
    · cases taken; exact wake_sound sound p
    · cases taken
  | polling ready =>
    simp only [step] at taken
    split at taken
    · rename_i blocked
      cases taken
      exact handling_sound sound ready s.event s.depth (sound.emptied (by rw [blocked.1]; nofun))
    · cases taken
  | eventRead interrupted =>
    simp only [step] at taken
    split at taken
    · rename_i ready handling
      split at taken
      · cases taken; exact read_sound sound interrupted ready (handling_empty sound handling)
      · cases taken
    · cases taken
  | handleEvents =>
    simp only [step] at taken
    split at taken
    · rename_i ready handling
      split at taken
      · cases taken; exact handling_sound sound ready s.event 1 (handling_empty sound handling)
      · cases taken
    · cases taken
  | closureReturns =>
    simp only [step] at taken
    split at taken
    · rename_i inside
      cases taken; exact depth_sound sound inside _ _
    · cases taken
  | swapPending =>
    simp only [step] at taken
    split at taken
    · rename_i left
      cases taken; exact swap_sound sound (handling_empty sound left.1)
    · cases taken
  | pend =>
    simp only [step] at taken
    split at taken
    · rename_i task rest first
      split at taken
      · rename_i free
        cases taken; exact pend_sound sound first free.1 1
      · cases taken
    · cases taken
  | loopAgain =>
    simp only [step] at taken
    split at taken
    · rename_i ended
      cases taken
      exact again_sound sound ended.1 (List.isEmpty_iff.mp ended.2.1) ended.2.2
    · cases taken

theorem run_sound (actions : List (Action Task)) (ran : Machine.run step {} actions = some s) : Sound s :=
  Machine.run_invariant step_sound start_sound ran

def Exact (s : TaskQueue Task) : Prop :=
  s.started <+: s.queued ∧ ∀ k < s.queued.length,
    (s.started.map Prod.fst).count k + ((s.batch ++ s.pending).map Prod.fst).count k = 1

def Stranded (s : TaskQueue Task) : Prop :=
  s.position = .waiting ∧ s.pending ≠ [] ∧ s.event = 0 ∧ ∀ p, s.writing p = false

theorem tasks_once_no_lost_wakeup (actions : List (Action Task)) (s : TaskQueue Task)
    (ran : Machine.run step {} actions = some s) : Exact s ∧ ¬Stranded s := by
  have sound := run_sound actions ran
  refine ⟨⟨?_,?_⟩,?_⟩
  · rw [sound.conserved,List.append_assoc]
    exact List.prefix_append _ _
  · intro k below
    rw [← List.count_append,← List.map_append,← List.append_assoc,← sound.conserved,sound.numbered]
    exact List.count_eq_one_of_mem List.nodup_range (List.mem_range.mpr below)
  · intro ⟨waiting,held,zero,quiet⟩
    rcases sound.noticed held with counted | ⟨p,writer⟩ | ⟨ready,handling⟩
    · rw [zero] at counted; cases counted
    · rw [quiet p] at writer; cases writer
    · rw [waiting] at handling; cases handling

-- Pushed between the read of the counter and the swap, and pushed while the
-- batch runs: the later write wakes the loop again.
def overtaking : List (Action Nat) := [.runInLoop (.other 0) 7,.wakeUpEpollToDoPending 0,.polling [.event],
  .eventRead false,.runInLoop (.other 1) 8,.swapPending,.pend,.runInLoop .loop 9,.closureReturns,.closureReturns,
  .wakeUpEpollToDoPending 1,.runInLoop (.other 0) 6,.pend,.closureReturns,.loopAgain]

theorem tasks_once_no_lost_wakeup_overtaking : ∃ s, Machine.run step {} overtaking = some s ∧ s.pending ≠ [] ∧
    Exact s ∧ ¬Stranded s := ⟨_,rfl,nofun,tasks_once_no_lost_wakeup overtaking _ rfl⟩

theorem run_batch (batch : List (Nat × Task)) (held : s.batch = batch) (running : s.position = .running)
    (left : s.depth = 0) : Machine.run step s (batch.flatMap fun _ => [.pend,.closureReturns]) =
      some {s with batch := [], started := s.started ++ batch} := by
  induction batch generalizing s with
  | nil =>
    have same : s = {s with batch := [], started := s.started ++ []} := by rw [List.append_nil,← held]
    exact congrArg some same
  | cons task rest ih =>
    have started : step s .pend = some {s with batch := rest, started := s.started ++ [task], depth := 1} := by
      simp [step,held,running,left]
    rw [List.flatMap_cons,List.cons_append,Machine.run_cons,started,Option.bind_some]
    have later := ih (s := {s with batch := rest, started := s.started ++ [task], depth := 0}) rfl running rfl
    rw [List.append_assoc] at later
    have same : {s with depth := 0} = s := by rw [← left]
    calc Machine.run step _ _ = _ := later
      _ = some {({s with depth := 0} : TaskQueue Task) with batch := [], started := s.started ++ task :: rest} := rfl
      _ = _ := by rw [same]

def swapped (s : TaskQueue Task) : TaskQueue Task :=
  {s with event := 0, pending := [], batch := s.pending, position := .running}

def drained (s : TaskQueue Task) : TaskQueue Task :=
  {s.swapped with batch := [], started := s.started ++ s.pending, position := .waiting}

-- Once the threads have made their writes, the loop by itself runs all that is
-- queued: nothing waits for an event that does not come.
theorem queue_drains (actions : List (Action Task)) (ran : Machine.run step {} actions = some s)
    (waiting : s.position = .waiting) (held : s.pending ≠ []) (quiet : ∀ p, s.writing p = false) :
    ∃ schedule next, Machine.run step s schedule = some next ∧ next.position = .waiting ∧ next.pending = [] ∧
      next.started = s.queued := by
  have sound := run_sound actions ran
  have readable : 0 < s.event := by
    rcases sound.noticed held with counted | ⟨p,writer⟩ | ⟨ready,handling⟩
    · exact counted
    · rw [quiet p] at writer; cases writer
    · rw [waiting] at handling; cases handling
  have left := sound.outside waiting
  have empty : s.batch = [] := sound.emptied (by rw [waiting]; nofun)
  have taken : Machine.run step s [.polling [.event],.eventRead false,.swapPending] = some s.swapped := by
    simp [Machine.run_cons,step,waiting,readable,left,readEvent,swapped]
  have batch : Machine.run step s.swapped (s.pending.flatMap fun _ => [.pend,.closureReturns]) =
      some {s.swapped with batch := [], started := s.started ++ s.pending} := run_batch s.pending rfl rfl left
  have again : Machine.run step {s.swapped with batch := [], started := s.started ++ s.pending} [.loopAgain] =
      some s.drained := by
    simp [Machine.run_cons,step,drained,swapped,left]
  refine ⟨[.polling [.event],.eventRead false,.swapPending] ++
    ((s.pending.flatMap fun _ => [.pend,.closureReturns]) ++ [.loopAgain]),s.drained,?_,rfl,rfl,?_⟩
  · rw [Machine.run_append,taken,Option.bind_some,Machine.run_append,batch,Option.bind_some,again]
  · have all := sound.conserved
    rw [empty,List.append_nil] at all
    exact all.symm

end TaskQueue
end LinuxOS.Muduo
