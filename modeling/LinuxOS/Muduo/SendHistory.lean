import LinuxOS.Muduo.HalfClose
import LinuxOS.Muduo.TaskQueue

namespace LinuxOS.Muduo
open Function (update)
open Machine

-- One call of Send. The closure that it makes has `addr` and `len`; who made it and
-- what the message was at that time is history.
structure SendCall where
  number : Nat
  thread : Thread
  addr : Nat
  len : Nat
  message : Bytes
  deriving DecidableEq

-- What the loop runs: a deferred Send of the connection, or any other closure, whose
-- effect on the connection is in the steps that follow.
inductive Closure where
  | send (call : SendCall)
  | other

def Closure.call : Closure → Option SendCall
  | .send call => some call
  | .other => none

structure Appended where
  call : SendCall
  status : ConnStatus
  bytes : Bytes
  deriving DecidableEq

-- A connection, its loop's task queue and the memory of the process. `calls` and `ran`
-- are history.
structure Sending where
  queue : TaskQueue Closure := {}
  connection : Connection := {}
  memory : Nat → UInt8 := fun _ => 0
  calls : List SendCall := []
  ran : List Appended := []

-- `queue` and `connection` are what the loop and the other threads do besides Send;
-- `write` is any store of any thread.
inductive SendAction where
  | send (thread : Thread) (addr len : Nat)
  | pend
  | queue (action : TaskQueue.Action Closure)
  | connection (action : Connection.Action)
  | write (addr : Nat) (byte : UInt8)

def TaskQueue.Action.plain : TaskQueue.Action Closure → Bool
  | .runInLoop _ (.send _) | .pend => false
  | _ => true

def TaskQueue.deferred (q : TaskQueue Closure) : List SendCall := (q.batch ++ q.pending).filterMap (·.2.call)

namespace Sending
variable (s : Sending)

def read (addr len : Nat) : Bytes := (List.range len).map fun i => s.memory (addr+i)

def sendInLoop (call : SendCall) : Option Sending :=
  (s.connection.step (.send (s.read call.addr call.len))).map fun connection => {s with
    connection
    ran := s.ran ++ [⟨call,s.connection.status,
      connection.outBuffer.readable.drop s.connection.outBuffer.readable.length⟩]}

-- RunInLoop runs the closure at once on the loop's thread and queues it elsewhere.
def send (thread : Thread) (addr len : Nat) : Option Sending :=
  let call : SendCall := ⟨s.calls.length,thread,addr,len,s.read addr len⟩
  (s.queue.step (.runInLoop thread (.send call))).bind fun queue =>
    let s := {s with queue, calls := s.calls ++ [call]}
    match thread with
    | .loop => s.sendInLoop call
    | .other _ => some s

def pend : Option Sending :=
  match s.queue.batch with
  | [] => none
  | (_,task) :: _ => (s.queue.step .pend).bind fun queue =>
    match task with
    | .send call => {s with queue}.sendInLoop call
    | .other => some {s with queue}

def step : SendAction → Option Sending
  | .send thread addr len => s.send thread addr len
  | .pend => s.pend
  | .queue action => if action.plain then (s.queue.step action).map fun queue => {s with queue} else none
  | .connection action =>
    if 0 < s.queue.depth ∧ action.isSend = false then
      (s.connection.step action).map fun connection => {s with connection}
    else none
  | .write addr byte => some {s with memory := update s.memory addr byte}

abbrev waiting : List SendCall := s.queue.deferred

def Untouched : SendAction → Prop
  | .write addr byte => ∀ call ∈ s.waiting, call.addr ≤ addr → addr < call.addr + call.len → byte = s.memory addr
  | _ => True

instance : DecidablePred s.Untouched
  | .write _ _ => inferInstanceAs (Decidable (∀ call ∈ s.waiting, _ → _ → _))
  | .send .. | .pend | .queue _ | .connection _ => .isTrue trivial

-- Each call is queued or has run, once; those of a thread ran in the order of the
-- calls; and each has appended its message, or nothing if the connection was closed.
structure Delivered : Prop where
  once : (s.ran.map Appended.call ++ s.waiting).Perm s.calls
  order : ∀ t, ((s.ran.map Appended.call).filter fun call => call.thread = t).Pairwise (·.number < ·.number)
  bytes : ∀ entry ∈ s.ran, entry.bytes = if entry.status = .disconnected then [] else entry.call.message

end Sending

theorem TaskQueue.plain_deferred {q next : TaskQueue Closure} {action : Action Closure} (sound : Sound q)
    (plain : action.plain = true) (taken : step q action = some next) : next.deferred = q.deferred := by
  cases action with
  | runInLoop thread task =>
    cases task with
    | send call => cases plain
    | other =>
      cases thread with
      | loop =>
        obtain ⟨_,made⟩ := Option.ite_none_right_eq_some.mp taken
        cases made; rfl
      | other p =>
        obtain ⟨_,made⟩ := Option.ite_none_left_eq_some.mp taken
        cases made
        simp [deferred,queueInLoop,Closure.call]
  | wakeUpEpollToDoPending p =>
    obtain ⟨_,made⟩ := Option.ite_none_right_eq_some.mp taken
    cases made; rfl
  | polling ready =>
    obtain ⟨_,made⟩ := Option.ite_none_right_eq_some.mp taken
    cases made; rfl
  | eventRead interrupted =>
    simp only [step] at taken
    split at taken
    · obtain ⟨_,made⟩ := Option.ite_none_right_eq_some.mp taken
      cases made
      unfold readEvent
      split <;> rfl
    · cases taken
  | handleEvents =>
    simp only [step] at taken
    split at taken
    · obtain ⟨_,made⟩ := Option.ite_none_right_eq_some.mp taken
      cases made; rfl
    · cases taken
  | closureReturns =>
    obtain ⟨_,made⟩ := Option.ite_none_right_eq_some.mp taken
    cases made; rfl
  | swapPending =>
    obtain ⟨ended,made⟩ := Option.ite_none_right_eq_some.mp taken
    cases made
    simp [deferred,handling_empty sound ended.1]
  | pend => cases plain
  | loopAgain =>
    obtain ⟨_,made⟩ := Option.ite_none_right_eq_some.mp taken
    cases made; rfl

theorem Connection.send_appends {s next : Connection} {message : Bytes} (taken : step s (.send message) = some next) :
    next.outBuffer.readable.drop s.outBuffer.readable.length = if s.status = .disconnected then [] else message := by
  cases step_taken taken with
  | send _ sent =>
    unfold sendInLoop at sent
    split at sent
    · rename_i closed
      cases sent
      rw [if_pos closed,List.drop_length]
    · rename_i live
      obtain ⟨out,written,made⟩ := Option.bind_eq_some_iff.mp sent
      obtain ⟨queue,pushed,readable⟩ := s.outBuffer.writeAndPush_spec message
      rw [written] at pushed
      cases pushed
      have same : next.outBuffer = out := by
        cases made
        dsimp only
        split <;> rfl
      rw [same,readable,if_neg live,List.drop_left]

namespace Sending
variable {s next : Sending} {action : SendAction} {call : SendCall} {thread : Thread} {addr len : Nat}

structure Sound (s : Sending) : Prop where
  queue : s.queue.Sound
  numbered : s.calls.map SendCall.number = List.range s.calls.length
  once : (s.ran.map Appended.call ++ s.waiting).Perm s.calls
  apart : ∀ call ∈ s.waiting, call.thread ≠ .loop
  order : ∀ t, ((s.ran.map Appended.call ++ s.waiting).filter fun call => call.thread = t).Pairwise
    (·.number < ·.number)
  intact : ∀ call ∈ s.waiting, s.read call.addr call.len = call.message
  bytes : ∀ entry ∈ s.ran, entry.bytes = if entry.status = .disconnected then [] else entry.call.message

theorem sound_start (memory : Nat → UInt8) (connection : Connection) : Sound {memory, connection} :=
  ⟨TaskQueue.start_sound,rfl,.nil,by simp [TaskQueue.deferred],by simp [TaskQueue.deferred],
    by simp [TaskQueue.deferred],by simp⟩

theorem Sound.delivered (sound : Sound s) : Delivered s := by
  refine ⟨sound.once,fun t => ?_,sound.bytes⟩
  have order := sound.order t
  rw [List.filter_append] at order
  exact (List.pairwise_append.mp order).1

theorem Sound.below (sound : Sound s) (made : call ∈ s.ran.map Appended.call ++ s.waiting) :
    call.number < s.calls.length := by
  have found : call.number ∈ s.calls.map SendCall.number := List.mem_map_of_mem (sound.once.mem_iff.mp made)
  rw [sound.numbered] at found
  exact List.mem_range.mp found

theorem sendInLoop_ran (taken : s.sendInLoop call = some next) (intact : s.read call.addr call.len = call.message) :
    ∃ connection, next = {s with connection, ran := s.ran ++ [⟨call,s.connection.status,
      if s.connection.status = .disconnected then [] else call.message⟩]} := by
  obtain ⟨connection,stepped,made⟩ := Option.map_eq_some_iff.mp taken
  rw [Connection.send_appends stepped,intact] at made
  exact ⟨connection,made.symm⟩

theorem bytes_ran {ran : List Appended} (status : ConnStatus)
    (bytes : ∀ entry ∈ ran, entry.bytes = if entry.status = .disconnected then [] else entry.call.message) :
    ∀ entry ∈ ran ++ [(⟨call,status,if status = .disconnected then [] else call.message⟩ : Appended)],
      entry.bytes = if entry.status = .disconnected then [] else entry.call.message := by
  intro entry found
  rcases List.mem_append.mp found with old | new
  · exact bytes entry old
  · cases List.mem_singleton.mp new
    rfl

theorem order_last {calls : List SendCall} (call : SendCall) (t : Thread)
    (order : (calls.filter fun call => call.thread = t).Pairwise (·.number < ·.number))
    (below : ∀ old ∈ calls, old.number < call.number) :
    ((calls ++ [call]).filter fun call => call.thread = t).Pairwise (·.number < ·.number) := by
  rw [List.filter_append]
  refine List.pairwise_append.mpr ⟨order,(List.pairwise_singleton _ call).filter _,fun old found new last => ?_⟩
  cases List.mem_singleton.mp (List.mem_of_mem_filter last)
  exact below old (List.mem_of_mem_filter found)

theorem numbered_last {calls : List SendCall} (numbered : calls.map SendCall.number = List.range calls.length)
    (number : call.number = calls.length) :
    (calls ++ [call]).map SendCall.number = List.range (calls ++ [call]).length := by
  rw [List.map_append,numbered,List.length_append,List.length_singleton,List.range_succ,← number]
  rfl

theorem send_loop_sound (sound : Sound s) (taken : s.send .loop addr len = some next) : Sound next := by
  obtain ⟨queue,queued,taken⟩ := Option.bind_eq_some_iff.mp taken
  have queueSound := TaskQueue.step_sound _ _ _ sound.queue queued
  obtain ⟨_,made⟩ := Option.ite_none_right_eq_some.mp queued
  cases made
  obtain ⟨connection,rfl⟩ := sendInLoop_ran taken rfl
  refine ⟨queueSound,numbered_last sound.numbered rfl,?_,sound.apart,fun t => ?_,sound.intact,
    bytes_ran s.connection.status sound.bytes⟩
  · -- the call went past those that wait
    rw [List.map_append,List.append_assoc]
    exact (List.perm_append_comm.append_left _).trans (by
      rw [← List.append_assoc]; exact sound.once.append_right _)
  · have order := sound.order t
    rw [List.map_append,List.append_assoc,List.filter_append,List.filter_append]
    rw [List.filter_append] at order
    by_cases own : t = .loop
    · have nobody : (s.waiting.filter fun call => call.thread = t) = [] := List.filter_eq_nil_iff.mpr fun call found => by
        rw [own,decide_eq_true_eq]; exact sound.apart call found
      rw [nobody,List.append_nil] at order
      have last := order_last ⟨s.calls.length,.loop,addr,len,s.read addr len⟩ t order fun old found =>
        sound.below (List.mem_append_left _ found)
      rw [List.filter_append] at last
      change (_ ++ (_ ++ s.waiting.filter fun call => call.thread = t)).Pairwise _
      rw [nobody,List.append_nil]
      exact last
    · have skipped : ([⟨s.calls.length,.loop,addr,len,s.read addr len⟩] : List SendCall).filter
          (fun call => call.thread = t) = [] := by simp [Ne.symm own]
      change (_ ++ (List.filter _ [_] ++ _)).Pairwise _
      rw [skipped]
      exact order

theorem send_other_sound (sound : Sound s) {p : Nat} (taken : s.send (.other p) addr len = some next) : Sound next := by
  obtain ⟨queue,queued,taken⟩ := Option.bind_eq_some_iff.mp taken
  have queueSound := TaskQueue.step_sound _ _ _ sound.queue queued
  obtain ⟨_,made⟩ := Option.ite_none_left_eq_some.mp queued
  cases made
  cases taken
  have waiting : ({s.queue.queueInLoop (.send ⟨s.calls.length,.other p,addr,len,s.read addr len⟩) with
      writing := update s.queue.writing p true} : TaskQueue Closure).deferred =
        s.waiting ++ [⟨s.calls.length,.other p,addr,len,s.read addr len⟩] := by
    simp [TaskQueue.deferred,TaskQueue.queueInLoop,Closure.call]
  have members : ∀ {motive : SendCall → Prop} {call}, (∀ old ∈ s.waiting, motive old) → motive call →
      ∀ found ∈ s.waiting ++ [call], motive found := fun old new found member =>
    (List.mem_append.mp member).elim (old found) fun last => by cases List.mem_singleton.mp last; exact new
  refine ⟨queueSound,numbered_last sound.numbered rfl,?_,?_,fun t => ?_,?_,sound.bytes⟩
  · change (_ ++ TaskQueue.deferred _).Perm _
    rw [waiting,← List.append_assoc]
    exact sound.once.append_right _
  · change ∀ call ∈ TaskQueue.deferred _, _
    rw [waiting]
    exact members sound.apart Thread.noConfusion
  · change ((_ ++ TaskQueue.deferred _).filter _).Pairwise _
    rw [waiting,← List.append_assoc]
    exact order_last _ t (sound.order t) fun old found => sound.below found
  · change ∀ call ∈ TaskQueue.deferred _, _
    rw [waiting]
    exact members sound.intact rfl

theorem pend_sound (sound : Sound s) (taken : s.pend = some next) : Sound next := by
  unfold pend at taken
  split at taken
  · cases taken
  rename_i k task rest batch
  obtain ⟨queue,started,taken⟩ := Option.bind_eq_some_iff.mp taken
  have queueSound := TaskQueue.step_sound _ _ _ sound.queue started
  simp only [TaskQueue.step,batch] at started
  obtain ⟨_,made⟩ := Option.ite_none_right_eq_some.mp started
  have waiting : s.waiting = task.call.toList ++ queue.deferred := by
    cases made
    cases task <;> simp [Sending.waiting,TaskQueue.deferred,batch,Closure.call]
  clear made
  cases task with
  | send call =>
    have first : s.waiting = call :: queue.deferred := waiting
    have intact := sound.intact call (by rw [first]; exact .head _)
    obtain ⟨connection,rfl⟩ := sendInLoop_ran taken intact
    have line : ∀ entry : Appended, entry.call = call → (s.ran ++ [entry]).map Appended.call ++ queue.deferred =
        s.ran.map Appended.call ++ s.waiting := by
      rintro entry rfl
      rw [List.map_append,List.append_assoc,first]
      rfl
    refine ⟨queueSound,sound.numbered,?_,fun old found => ?_,fun t => ?_,fun old found => ?_,
      bytes_ran s.connection.status sound.bytes⟩
    · rw [line _ rfl]; exact sound.once
    · exact sound.apart old (by rw [first]; exact .tail _ found)
    · rw [line _ rfl]; exact sound.order t
    · exact sound.intact old (by rw [first]; exact .tail _ found)
  | other =>
    have same : queue.deferred = s.waiting := waiting.symm
    cases taken
    exact ⟨queueSound,sound.numbered,by rw [Sending.waiting,same]; exact sound.once,by rw [Sending.waiting,same]; exact sound.apart,
      fun t => by rw [Sending.waiting,same]; exact sound.order t,by rw [Sending.waiting,same]; exact sound.intact,sound.bytes⟩

theorem queue_sound {queue : TaskQueue Closure} {action : TaskQueue.Action Closure} (sound : Sound s)
    (plain : action.plain = true) (taken : s.queue.step action = some queue) : Sound {s with queue} := by
  have same := TaskQueue.plain_deferred sound.queue plain taken
  exact ⟨TaskQueue.step_sound _ _ _ sound.queue taken,sound.numbered,by rw [waiting,same]; exact sound.once,
    by rw [waiting,same]; exact sound.apart,fun t => by rw [waiting,same]; exact sound.order t,
    by rw [waiting,same]; exact sound.intact,sound.bytes⟩

theorem read_write {byte : UInt8} {start : Nat}
    (same : start ≤ addr → addr < start + len → byte = s.memory addr) :
    read {s with memory := update s.memory addr byte} start len = s.read start len := by
  refine List.map_congr_left fun i found => ?_
  have inside := List.mem_range.mp found
  by_cases here : start + i = addr
  · change update s.memory addr byte (start + i) = _
    rw [here,Function.update_self]
    exact same (by omega) (by omega)
  · exact Function.update_of_ne here ..

theorem write_sound {byte : UInt8} (sound : Sound s) (untouched : s.Untouched (.write addr byte)) :
    Sound {s with memory := update s.memory addr byte} :=
  ⟨sound.queue,sound.numbered,sound.once,sound.apart,sound.order,
    fun call found => (read_write (untouched call found)).trans (sound.intact call found),sound.bytes⟩

theorem step_sound (s : Sending) (action : SendAction) (next : Sending) (sound : Sound s) (untouched : s.Untouched action)
    (taken : s.step action = some next) : Sound next := by
  cases action with
  | send thread addr len =>
    cases thread with
    | loop => exact send_loop_sound sound taken
    | other p => exact send_other_sound sound taken
  | pend => exact pend_sound sound taken
  | queue action =>
    obtain ⟨plain,stepped⟩ := Option.ite_none_right_eq_some.mp taken
    obtain ⟨queue,moved,rfl⟩ := Option.map_eq_some_iff.mp stepped
    exact queue_sound sound plain moved
  | connection action =>
    obtain ⟨_,stepped⟩ := Option.ite_none_right_eq_some.mp taken
    obtain ⟨connection,_,rfl⟩ := Option.map_eq_some_iff.mp stepped
    exact ⟨sound.queue,sound.numbered,sound.once,sound.apart,sound.order,sound.intact,sound.bytes⟩
  | write addr byte =>
    cases taken
    exact write_sound sound untouched

-- As long as the message of a deferred call is left alone until it has been copied.
theorem sends_what_was_given (memory : Nat → UInt8) (connection : Connection) (actions : List SendAction)
    (untouched : Throughout step Untouched {memory, connection} actions)
    (ran : run step {memory, connection} actions = some s) : Delivered s :=
  (run_keeps step_sound (sound_start memory connection) untouched ran).delivered

def opened : List SendAction := [.queue (.polling [.other]),.queue .handleEvents,.connection .established,
  .send .loop 8 2,.queue .closureReturns,.connection .ret,.queue .closureReturns]

def swapped : List SendAction :=
  opened ++ [.send (.other 0) 64 1,.queue (.wakeUpEpollToDoPending 0),.queue .swapPending]

def text (addr : Nat) : UInt8 := if addr < 64 then 104 else 97

theorem sends_what_was_given_late : ∃ s, run step {memory := text} (swapped ++ [.pend,.write 64 98]) = some s ∧
    s.ran.map Appended.bytes = [[104,104],[97]] ∧ Delivered s := by
  have ends : (run step {memory := text} (swapped ++ [.pend,.write 64 98])).map (fun s => s.ran.map Appended.bytes) =
      some [[104,104],[97]] := by decide +kernel
  obtain ⟨s,ran,looks⟩ := Option.map_eq_some_iff.mp ends
  exact ⟨s,ran,looks,sends_what_was_given text {} _ (by decide +kernel) ran⟩

-- The store comes before the copy: the other message goes out.
theorem reused_memory_sent : ¬∀ (memory : Nat → UInt8) (connection : Connection) (actions : List SendAction) (s : Sending),
    run step {memory, connection} actions = some s → Delivered s := by
  intro always
  have ends : (run step {memory := text} (swapped ++ [.write 64 98,.pend])).map
      (fun s => s.ran.map fun entry => (entry.status,entry.call.message,entry.bytes)) =
        some [(.connected,[104,104],[104,104]),(.connected,[97],[98])] := by decide +kernel
  obtain ⟨s,ran,looks⟩ := Option.map_eq_some_iff.mp ends
  obtain ⟨first,rest,made,_,looks⟩ := List.map_eq_cons_iff.mp looks
  obtain ⟨entry,_,rfl,looks,_⟩ := List.map_eq_cons_iff.mp looks
  have sent := (always text {} _ s ran).bytes entry (by rw [made]; exact .tail _ (.head _))
  simp only [Prod.mk.injEq] at looks
  rw [looks.1,looks.2.1,looks.2.2] at sent
  cases sent

end Sending
end LinuxOS.Muduo
