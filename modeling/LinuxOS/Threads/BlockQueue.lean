import LinuxOS.Condition
import LinuxOS.Machine

namespace LinuxOS.Threads
open Function (update)
open Condition Machine
variable {T : Type} {p c : Nat}

-- The queue with the callers of Push and Pop that are inside a wait or on the way
-- out of one. `pushed` and `popped` are the values that went in and came out.
structure BlockQueue (T : Type) (p c : Nat) where
  maxCapacity : Nat
  blockQueue : List T := []
  producers : Fin p → Place T := fun _ => .away
  consumers : Fin c → Place Unit := fun _ => .away
  pushed : List T := []
  popped : List T := []

-- One critical section each, from taking the mutex to the wait or to the unlock.
-- A call begins with `push` or `pop`; `retryPush` and `retryPop` come back from
-- pthread_cond_wait. `picked` is the waiter that pthread_cond_signal notifies.
inductive BlockQueueAction (T : Type) (p c : Nat) where
  | push (t : Fin p) (task : T) (picked : Option (Fin c))
  | retryPush (t : Fin p) (picked : Option (Fin c))
  | spuriousPush (t : Fin p)
  | pop (t : Fin c) (picked : Option (Fin p))
  | retryPop (t : Fin c) (picked : Option (Fin p))
  | spuriousPop (t : Fin c)

namespace BlockQueue
variable (s : BlockQueue T p c)

def isFull : Bool := s.blockQueue.length = s.maxCapacity
def isEmpty : Bool := s.blockQueue.length = 0

-- Push from the test of its loop on.
def push (t : Fin p) (task : T) (picked : Option (Fin c)) : Option (BlockQueue T p c) :=
  if s.isFull then some {s with producers := update s.producers t (.waiting task)}
  else (signal s.consumers picked).map fun consumers => {s with
    blockQueue := s.blockQueue ++ [task]
    producers := update s.producers t .away
    consumers := consumers
    pushed := s.pushed ++ [task]}

-- Pop from the test of its loop on.
def pop (t : Fin c) (picked : Option (Fin p)) : Option (BlockQueue T p c) :=
  if s.isEmpty then some {s with consumers := update s.consumers t (.waiting ())}
  else
    match s.blockQueue with
    | [] => none
    | task :: rest => (signal s.producers picked).map fun producers => {s with
      blockQueue := rest
      consumers := update s.consumers t .away
      producers := producers
      popped := s.popped ++ [task]}

def step : BlockQueueAction T p c → Option (BlockQueue T p c)
  | .push t task picked =>
    match s.producers t with
    | .away => s.push t task picked
    | _ => none
  | .retryPush t picked =>
    match s.producers t with
    | .notified task | .woken task => s.push t task picked
    | _ => none
  | .spuriousPush t => (wake s.producers t).map fun producers => {s with producers := producers}
  | .pop t picked =>
    match s.consumers t with
    | .away => s.pop t picked
    | _ => none
  | .retryPop t picked =>
    match s.consumers t with
    | .notified _ | .woken _ => s.pop t picked
    | _ => none
  | .spuriousPop t => (wake s.consumers t).map fun consumers => {s with consumers := consumers}

structure Sound (capacity : Nat) (s : BlockQueue T p c) : Prop where
  sized : s.maxCapacity = capacity
  bounded : s.blockQueue.length ≤ capacity
  conserved : s.popped ++ s.blockQueue = s.pushed
  work : Served s.blockQueue.length s.consumers
  space : Served (capacity - s.blockQueue.length) s.producers

variable {s} {next : BlockQueue T p c} {action : BlockQueueAction T p c} {capacity : Nat}

theorem start_sound (capacity : Nat) : Sound capacity ({maxCapacity := capacity} : BlockQueue T p c) :=
  ⟨rfl,Nat.zero_le _,rfl,start_served _,start_served _⟩

theorem Sound.push (sound : Sound capacity s) {t : Fin p} {task : T} {picked : Option (Fin c)}
    (stepped : s.push t task picked = some next) : Sound capacity next := by
  have bounded := sound.bounded
  unfold BlockQueue.push at stepped
  split at stepped
  · rename_i full
    have size : s.blockQueue.length = capacity := by simpa [isFull,sound.sized] using full
    cases stepped
    refine ⟨sound.sized,sound.bounded,sound.conserved,sound.work,?_⟩
    rw [size,Nat.sub_self]
    exact served_none _
  · rename_i room
    have size : s.blockQueue.length ≠ capacity := by simpa [isFull,sound.sized] using room
    obtain ⟨consumers,signalled,equal⟩ := Option.map_eq_some_iff.mp stepped
    cases equal
    refine ⟨sound.sized,?_,?_,?_,?_⟩
    · rw [List.length_append,List.length_singleton]
      omega
    · rw [← sound.conserved,List.append_assoc]
    · rw [List.length_append,List.length_singleton]
      exact sound.work.signal signalled
    · rw [List.length_append,List.length_singleton,← Nat.sub_sub]
      exact sound.space.take rfl

theorem Sound.pop (sound : Sound capacity s) {t : Fin c} {picked : Option (Fin p)}
    (stepped : s.pop t picked = some next) : Sound capacity next := by
  have bounded := sound.bounded
  unfold BlockQueue.pop at stepped
  split at stepped
  · rename_i empty
    have size : s.blockQueue.length = 0 := by simpa [isEmpty] using empty
    cases stepped
    refine ⟨sound.sized,sound.bounded,sound.conserved,?_,sound.space⟩
    rw [size]
    exact served_none _
  · cases queue : s.blockQueue with
    | nil => rw [queue] at stepped; cases stepped
    | cons task rest =>
      have conserved := sound.conserved
      have work := sound.work
      have space := sound.space
      rw [queue] at stepped conserved work space bounded
      obtain ⟨producers,signalled,equal⟩ := Option.map_eq_some_iff.mp stepped
      cases equal
      rw [List.length_cons] at work space bounded
      refine ⟨sound.sized,Nat.le_of_succ_le bounded,?_,?_,?_⟩
      · rw [List.append_assoc]
        exact conserved
      · exact work.take rfl
      · have freed : capacity - rest.length = capacity - (rest.length + 1) + 1 := by omega
        rw [freed]
        exact space.signal signalled

theorem step_sound (sound : Sound capacity s) (stepped : s.step action = some next) : Sound capacity next := by
  cases action with
  | push t task picked =>
    simp only [step] at stepped
    split at stepped
    · exact sound.push stepped
    · cases stepped
  | retryPush t picked =>
    simp only [step] at stepped
    split at stepped
    · exact sound.push stepped
    · exact sound.push stepped
    · cases stepped
  | spuriousPush t =>
    obtain ⟨producers,woke,equal⟩ := Option.map_eq_some_iff.mp stepped
    cases equal
    exact ⟨sound.sized,sound.bounded,sound.conserved,sound.work,sound.space.wake woke⟩
  | pop t picked =>
    simp only [step] at stepped
    split at stepped
    · exact sound.pop stepped
    · cases stepped
  | retryPop t picked =>
    simp only [step] at stepped
    split at stepped
    · exact sound.pop stepped
    · exact sound.pop stepped
    · cases stepped
  | spuriousPop t =>
    obtain ⟨consumers,woke,equal⟩ := Option.map_eq_some_iff.mp stepped
    cases equal
    exact ⟨sound.sized,sound.bounded,sound.conserved,sound.work.wake woke,sound.space⟩

theorem run_sound (capacity : Nat) {actions : List (BlockQueueAction T p c)}
    (ran : run step {maxCapacity := capacity} actions = some next) : Sound capacity next :=
  run_invariant (fun _ _ _ sound stepped => step_sound sound stepped) (start_sound capacity) ran

-- Bounded, first in first out, and nobody sleeps un-notified beside work or space
-- that no notification is under way for.
theorem blockQueue_serves (capacity : Nat) (actions : List (BlockQueueAction T p c))
    (ran : run step {maxCapacity := capacity} actions = some next) :
    next.maxCapacity = capacity ∧ next.blockQueue.length ≤ next.maxCapacity ∧
      next.popped ++ next.blockQueue = next.pushed ∧
      ((∃ t, (next.consumers t).isWaiting = true) → next.blockQueue.length ≤ notified next.consumers) ∧
      ((∃ t, (next.producers t).isWaiting = true) →
        next.maxCapacity - next.blockQueue.length ≤ notified next.producers) := by
  have sound := run_sound capacity ran
  rw [sound.sized]
  exact ⟨rfl,sound.bounded,sound.conserved,sound.work,sound.space⟩

-- A consumer waits and is notified; a newcomer takes the value before it.
theorem blockQueue_serves_overtaken : ∃ next : BlockQueue Nat 1 2, run step {maxCapacity := 1}
      [.pop ⟨0,Nat.zero_lt_two⟩ none,.push ⟨0,Nat.zero_lt_one⟩ 7 (some ⟨0,Nat.zero_lt_two⟩),
        .pop ⟨1,Nat.one_lt_two⟩ none] = some next ∧
    next.popped = [7] ∧ next.maxCapacity = 1 ∧ next.blockQueue.length ≤ next.maxCapacity ∧
    next.popped ++ next.blockQueue = next.pushed ∧
    ((∃ t, (next.consumers t).isWaiting = true) → next.blockQueue.length ≤ notified next.consumers) ∧
    ((∃ t, (next.producers t).isWaiting = true) → next.maxCapacity - next.blockQueue.length ≤ notified next.producers) :=
  ⟨_,rfl,rfl,blockQueue_serves 1 [.pop ⟨0,Nat.zero_lt_two⟩ none,
    .push ⟨0,Nat.zero_lt_one⟩ 7 (some ⟨0,Nat.zero_lt_two⟩),.pop ⟨1,Nat.one_lt_two⟩ none] rfl⟩

end BlockQueue
end LinuxOS.Threads
