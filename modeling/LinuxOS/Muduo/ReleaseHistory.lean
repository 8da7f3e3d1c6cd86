import LinuxOS.Muduo.ConnectionFacts

namespace LinuxOS.Muduo.Connection
variable {s next : Connection} {frame : Frame} {rest : List Frame} {received : RecvResult}
  {result : SendResult} {message : Bytes} {key : Nat} {cancelled : Bool}

-- Event handlers start on an empty stack, so what is left of one is always at
-- the bottom.
def Layered : List Frame → Prop
  | [] => True
  | frame :: rest => (frame.isHandler = true → rest = []) ∧ Layered rest

theorem layered_released (layered : Layered s.stack) (facts : ReleaseFacts s next) : Layered next.stack := by
  rcases facts.calls with ⟨stack,_⟩ | ⟨stack,_⟩
  · rw [stack]; exact ⟨by simp [Frame.isHandler],by simp [Frame.isHandler],layered⟩
  · rw [stack]; exact layered

theorem member_released (facts : ReleaseFacts s next) (member : .shutDown ∈ next.stack) :
    .shutDown ∈ s.stack := by
  rcases facts.calls with ⟨stack,_⟩ | ⟨stack,_⟩
  · simpa [stack] using member
  · rwa [stack] at member

-- A released connection is DISCONNECTED, and a ShutDownInLoop that is still
-- running finds nothing to send.
structure Settled (s : Connection) : Prop where
  layered : Layered s.stack
  status : s.released = true → s.status = .disconnected
  drained : s.released = true → .shutDown ∈ s.stack → s.outBuffer.readableSize = 0

-- The two places that write to a released connection are not reached:
-- ShutDownInLoop is not entered, and HandleWrite does not come to its last
-- test with an empty output buffer.
def Quiet (s : Connection) (action : Action) : Prop :=
  (action = .shutDown → s.status ≠ .disconnected) ∧
  (action = .resume → s.stack.head? = some .handleWriteTail → s.status = .disconnected →
    s.outBuffer.readableSize ≠ 0)

instance (s : Connection) (action : Action) : Decidable (Quiet s action) := by
  unfold Quiet; infer_instance

def Terminal (s next : Connection) : Prop :=
  s.released = true → next.released = true ∧ next.updates = s.updates

theorem settled_release (layered : Layered s.stack)
    (drained : .shutDown ∈ s.stack → s.outBuffer.readableSize = 0) : Settled s.releaseInLoop := by
  have facts := s.release_facts
  refine ⟨layered_released layered facts,fun _ => facts.status,?_⟩
  intro _ member
  rw [facts.output.outBuffer]
  exact drained (member_released facts member)

theorem settled_push (settled : Settled s) (frame : Frame) (idle : Frame.isHandler frame = true → s.stack = [])
    (other : frame ≠ .shutDown) : Settled (s.push frame) := by
  refine ⟨⟨idle,settled.layered⟩,settled.status,?_⟩
  intro released member
  rcases List.mem_cons.mp member with equal | old
  · exact absurd equal.symm other
  · exact settled.drained released old

theorem settled_mess (settled : Settled s) : Settled s.messOnInput ∧ Terminal s s.messOnInput := by
  rcases s.messOnInput_cases with same | pushed
  · rw [same]; exact ⟨settled,fun released => ⟨released,rfl⟩⟩
  · rw [pushed]
    exact ⟨settled_push settled (.mess false) (by simp [Frame.isHandler]) (by simp),
      fun released => ⟨released,rfl⟩⟩

theorem settled_pop (settled : Settled s) (top : s.stack = frame :: rest) :
    Settled {s with stack := rest} ∧ (frame.isHandler = true → rest = []) := by
  have layered := settled.layered
  rw [top] at layered
  refine ⟨⟨layered.2,settled.status,?_⟩,layered.1⟩
  intro released member
  exact settled.drained released (by rw [top]; exact List.mem_cons_of_mem _ member)

theorem settled_active (settled : Settled s) (active : s.status ≠ .disconnected) : s.released = false := by
  cases released : s.released with
  | false => rfl
  | true => exact absurd (settled.status released) active

theorem settled_fresh (layered : Layered s.stack) (unreleased : s.released = false) : Settled s :=
  ⟨layered,by simp [unreleased],by simp [unreleased]⟩

theorem terminal_fresh (unreleased : s.released = false) : Terminal s next := by
  simp [Terminal,unreleased]

theorem shutDown_settled (settled : Settled s) (active : s.status ≠ .disconnected) :
    Settled s.shutDownInLoop ∧ Terminal s s.shutDownInLoop := by
  have unreleased := settled_active settled active
  have entered : Settled (push {s with status := .disconnecting} .shutDown) :=
    settled_fresh ⟨by simp [Frame.isHandler],settled.layered⟩ unreleased
  exact ⟨(settled_mess entered).1,terminal_fresh unreleased⟩

theorem resume_settled (settled : Settled s) (top : s.stack = frame :: rest)
    (quiet : Quiet s .resume) (taken : resume {s with stack := rest} frame = some next) :
    Settled next ∧ Terminal s next := by
  obtain ⟨popped,bottom⟩ := settled_pop settled top
  have releasing : ∀ middle : Connection, Layered middle.stack → middle.updates = s.updates →
      (.shutDown ∈ middle.stack → middle.outBuffer.readableSize = 0) →
      Settled middle.releaseInLoop ∧ Terminal s middle.releaseInLoop := by
    intro middle layered updates drained
    exact ⟨settled_release layered drained,fun _ => ⟨middle.release_facts.released,
      middle.release_facts.updates.trans updates⟩⟩
  cases frame with
  | handleAnyEvent => cases taken; exact ⟨popped,fun released => ⟨released,rfl⟩⟩
  | handleWriteError =>
    cases taken
    cases bottom rfl
    exact releasing _ ⟨fun _ => rfl,trivial⟩ rfl (by simp [push])
  | handleWriteTail =>
    cases taken
    cases bottom rfl
    unfold handleWriteTail
    split
    · rename_i empty
      have active : s.status ≠ .disconnected := fun gone =>
        quiet.2 rfl (by rw [top]; rfl) gone empty
      have unreleased := settled_active settled active
      dsimp only
      split
      · exact ⟨settled_release trivial (by simp [disableWrite,updateEvent]),terminal_fresh unreleased⟩
      · exact ⟨settled_fresh trivial unreleased,terminal_fresh unreleased⟩
    · exact ⟨popped,fun released => ⟨released,rfl⟩⟩
  | handleClose =>
    cases taken
    cases bottom rfl
    exact releasing _ trivial rfl (by simp)
  | shutDown =>
    cases taken
    unfold shutDownTail
    split
    · rename_i empty; exact releasing _ popped.layered rfl (fun _ => empty)
    · split
      · exact ⟨popped,fun released => ⟨released,rfl⟩⟩
      · rename_i pending _
        have unreleased : s.released = false := by
          cases released : s.released with
          | false => rfl
          | true => exact absurd (settled.drained released (by rw [top]; exact List.mem_cons_self)) pending
        exact ⟨settled_fresh popped.layered unreleased,terminal_fresh unreleased⟩
  | serverClose =>
    cases taken
    unfold serverClose
    split
    · exact ⟨⟨popped.layered,popped.status,popped.drained⟩,fun released => ⟨released,rfl⟩⟩
    · exact ⟨popped,fun released => ⟨released,rfl⟩⟩
  | timerRelease =>
    cases taken
    exact ⟨⟨popped.layered,popped.status,popped.drained⟩,fun released => ⟨released,rfl⟩⟩
  | conn | anyEvent | closed | mess => cases taken

theorem handleRead_settled (settled : Settled s) (taken : s.handleRead received = some next) : Settled next ∧ Terminal s next := by
  unfold handleRead at taken
  split at taken
  · cases taken; exact ⟨settled,fun released => ⟨released,rfl⟩⟩
  · rename_i active
    have unreleased := settled_active settled active
    cases received with
    | again => cases taken; exact ⟨settled,terminal_fresh unreleased⟩
    | error => cases taken; exact shutDown_settled settled active
    | eof => cases taken; exact shutDown_settled settled active
    | data bytes =>
      dsimp only at taken
      split at taken
      · obtain ⟨filled,_,equal⟩ := Option.bind_eq_some_iff.mp taken
        cases equal
        have kept : Settled {s with inBuffer := filled} := ⟨settled.layered,settled.status,settled.drained⟩
        exact ⟨(settled_mess kept).1,terminal_fresh unreleased⟩
      · cases taken

theorem handleWrite_settled (settled : Settled s) (idle : s.stack = [])
    (taken : s.handleWrite result = some next) : Settled next ∧ Terminal s next := by
  obtain ⟨⟨str,out⟩,_,taken⟩ := Option.bind_eq_some_iff.mp taken
  have popped : Settled {s with outBuffer := out} := ⟨settled.layered,settled.status,by simp [idle]⟩
  cases result with
  | error =>
    cases taken
    obtain ⟨kept,terminal⟩ := settled_mess (settled_push popped .handleWriteError
      (fun _ => idle) (by simp))
    exact ⟨kept,terminal⟩
  | again =>
    dsimp only at taken
    split at taken
    · cases taken
      exact ⟨settled_push popped .handleWriteTail (fun _ => idle) (by simp),fun released => ⟨released,rfl⟩⟩
    · cases taken
  | count size =>
    dsimp only at taken
    split at taken
    · cases taken
      have counted : Settled {s with outBuffer := out, accepted := s.accepted ++ str.take size} :=
        ⟨popped.layered,popped.status,popped.drained⟩
      exact ⟨settled_push counted .handleWriteTail (fun _ => idle) (by simp),fun released => ⟨released,rfl⟩⟩
    · cases taken

theorem handleAnyEvent_settled (settled : Settled s) (idle : s.stack = []) :
    Settled s.handleAnyEvent ∧ Terminal s s.handleAnyEvent := by
  have left := settled_push settled .handleAnyEvent (fun _ => idle) (by simp)
  unfold handleAnyEvent
  dsimp only
  split
  · exact ⟨settled_push left .anyEvent (by simp [Frame.isHandler]) (by simp),fun released => ⟨released,rfl⟩⟩
  · exact ⟨left,fun released => ⟨released,rfl⟩⟩

theorem established_settled (settled : Settled s) (taken : s.establishedInLoop = some next) :
    Settled next ∧ Terminal s next := by
  unfold establishedInLoop at taken
  split at taken
  · rename_i connecting
    have unreleased := settled_active settled (by rw [connecting]; decide)
    have reading : Settled (enableRead {s with status := .connected}) :=
      settled_fresh settled.layered unreleased
    cases taken
    split
    · exact ⟨settled_push reading .conn (by simp [Frame.isHandler]) (by simp),terminal_fresh unreleased⟩
    · exact ⟨reading,terminal_fresh unreleased⟩
  · cases taken

theorem send_settled (settled : Settled s) (taken : s.sendInLoop message = some next) :
    Settled next ∧ Terminal s next := by
  unfold sendInLoop at taken
  split at taken
  · cases taken; exact ⟨settled,fun released => ⟨released,rfl⟩⟩
  · rename_i active
    have unreleased := settled_active settled active
    obtain ⟨out,_,equal⟩ := Option.bind_eq_some_iff.mp taken
    cases equal
    refine ⟨?_,terminal_fresh unreleased⟩
    dsimp only
    split <;> exact settled_fresh settled.layered unreleased

theorem timerDestroy_settled (settled : Settled s) (idle : s.stack = [])
    (taken : s.timerDestroy key cancelled = some next) : Settled next ∧ Terminal s next := by
  unfold timerDestroy at taken
  split at taken
  · cases taken
    dsimp only
    split
    · exact ⟨⟨settled.layered,settled.status,settled.drained⟩,fun released => ⟨released,rfl⟩⟩
    · have dropped : Settled {s with tasks := s.tasks.erase (key,cancelled)} :=
        ⟨settled.layered,settled.status,settled.drained⟩
      have left := settled_push dropped .timerRelease (fun _ => idle) (by simp)
      exact ⟨settled_release left.layered (by simp [push,idle]),
        fun _ => ⟨(release_facts _).released,(release_facts _).updates⟩⟩
  · cases taken

theorem step_settled (s : Connection) (action : Action) (next : Connection) (settled : Settled s)
    (quiet : Quiet s action) (taken : step s action = some next) : Settled next ∧ Terminal s next := by
  cases step_taken taken with
  | established idle ran => exact established_settled settled ran
  | handleAnyEvent idle => exact handleAnyEvent_settled settled idle
  | handleRead idle ran => exact handleRead_settled settled ran
  | handleWrite idle ran => exact handleWrite_settled settled idle ran
  | handleClose idle | handleError idle =>
    obtain ⟨kept,terminal⟩ := settled_mess (settled_push settled .handleClose (fun _ => idle) (by simp))
    exact ⟨kept,terminal⟩
  | timerDestroy idle ran => exact timerDestroy_settled settled idle ran
  | send control ran => exact send_settled settled ran
  | shutDown control => exact shutDown_settled settled (quiet.1 rfl)
  | enableInactiveRelease control =>
    unfold enableInactiveReleaseInLoop
    split <;> exact ⟨⟨settled.layered,settled.status,settled.drained⟩,fun released => ⟨released,rfl⟩⟩
  | cancelInactiveRelease control =>
    unfold cancelInactiveReleaseInLoop
    split <;> exact ⟨⟨settled.layered,settled.status,settled.drained⟩,fun released => ⟨released,rfl⟩⟩
  | consume top moved =>
    have popped := (settled_pop settled top).1
    refine ⟨⟨⟨by simp [Frame.isHandler],popped.layered⟩,popped.status,?_⟩,fun released => ⟨released,rfl⟩⟩
    intro released member
    exact popped.drained released (by simpa using member)
  | ret top user => exact ⟨(settled_pop settled top).1,fun released => ⟨released,rfl⟩⟩
  | resume top ran => exact resume_settled settled top quiet ran

-- Outside the guard the very next step already writes to the closed connection.
theorem unquiet_breaks (gone : s.status = .disconnected) (unquiet : ¬Quiet s action)
    (taken : step s action = some next) : next.status ≠ .disconnected ∨ next.updates ≠ s.updates := by
  cases step_taken taken with
  | shutDown control =>
    left
    unfold shutDownInLoop
    rcases messOnInput_cases (push {s with status := .disconnecting} .shutDown) with same | pushed
    · rw [same]; simp [push]
    · rw [pushed]; simp [push]
  | @resume frame rest _ top ran =>
    right
    simp only [Quiet,top] at unquiet
    cases frame with
    | handleWriteTail =>
      cases ran
      have empty : s.outBuffer.readableSize = 0 := by
        apply Decidable.byContradiction
        intro pending
        exact unquiet ⟨by simp,fun _ _ _ => pending⟩
      simp [handleWriteTail,empty,disableWrite,updateEvent,gone]
    | _ => exact absurd ⟨by simp,by simp⟩ unquiet
  | _ => exact absurd ⟨by simp,by simp⟩ unquiet

theorem fresh_settled (fresh : Fresh s) : Settled s :=
  settled_fresh (by rw [fresh.stack]; trivial) fresh.released

theorem run_settled (settled : Settled s) (quiet : Machine.Throughout step Quiet s actions)
    (ran : Machine.run step s actions = some next) : Settled next :=
  Machine.run_keeps (fun s action next kept quiet taken => (step_settled s action next kept quiet taken).1)
    settled quiet ran

theorem run_terminal (settled : Settled s) (released : s.released = true)
    (quiet : Machine.Throughout step Quiet s actions) (ran : Machine.run step s actions = some next) :
    next.status = .disconnected ∧ next.updates = s.updates := by
  have kept := Machine.run_keeps
    (motive := fun later => Settled later ∧ later.released = true ∧ later.updates = s.updates)
    (fun middle action after holds quiet taken => by
      obtain ⟨settled,gone,updates⟩ := holds
      obtain ⟨settled,terminal⟩ := step_settled middle action after settled quiet taken
      obtain ⟨gone,same⟩ := terminal gone
      exact ⟨settled,gone,same.trans updates⟩)
    ⟨settled,released,rfl⟩ quiet ran
  exact ⟨kept.1.status kept.2.1,kept.2.2⟩

theorem disconnected_terminal (fresh : Fresh s) (quiet : Machine.Throughout step Quiet s (first ++ second))
    (ran : Machine.run step s first = some gone) (released : gone.released = true)
    (later : Machine.run step gone second = some next) :
    next.status = .disconnected ∧ next.updates = gone.updates := by
  obtain ⟨before,after⟩ := Machine.throughout_append quiet
  exact run_terminal (run_settled (fresh_settled fresh) before ran) released (after gone ran) later

theorem fresh_start : Fresh {} := ⟨rfl,rfl,rfl,rfl,rfl,rfl,rfl,Buffer.readable_start⟩

def drainedRelease : List Action :=
  [.established,.ret,.send [1,2],.shutDown,.resume,.handleWrite (.count 2),.resume]

def lateEvents : List Action := [.ret,.resume,.handleClose,.resume,.ret,.resume,.send [3]]

theorem disconnected_terminal_drained : ∃ gone next,
    Machine.run step {} drainedRelease = some gone ∧ gone.released = true ∧
    Machine.run step gone lateEvents = some next ∧
    next.status = .disconnected ∧ next.updates = gone.updates := by
  have front : (Machine.run step {} drainedRelease).map (·.released) = some true := by decide +kernel
  have whole : (Machine.run step {} (drainedRelease ++ lateEvents)).isSome := by decide +kernel
  have quiet : Machine.Throughout step Quiet {} (drainedRelease ++ lateEvents) := by decide +kernel
  obtain ⟨gone,ran,released⟩ := Option.map_eq_some_iff.mp front
  obtain ⟨next,later⟩ := Option.isSome_iff_exists.mp whole
  rw [Machine.run_append,ran] at later
  exact ⟨gone,next,ran,released,later,disconnected_terminal fresh_start quiet ran released later⟩

-- The peer resets while a response is queued and HandleWrite's send fails:
-- it releases the connection, goes on to its last test and calls DisableWrite.
def failedSend : List Action := [.established,.ret,.send [1,2],.handleWrite .error,.resume]

def failedSendRest : List Action := [.ret,.resume,.resume]

theorem failed_send_registers_again : ¬ ∀ (s gone next : Connection) (first second : List Action),
    Fresh s → Machine.run step s first = some gone → gone.released = true →
    Machine.run step gone second = some next →
    next.status = .disconnected ∧ next.updates = gone.updates := by
  intro terminal
  have front : (Machine.run step {} failedSend).map (fun s => (s.released,s.updates)) = some (true,2) := by
    decide +kernel
  have whole : (Machine.run step {} (failedSend ++ failedSendRest)).map (·.updates) = some 3 := by
    decide +kernel
  obtain ⟨gone,ran,before⟩ := Option.map_eq_some_iff.mp front
  obtain ⟨next,later,after⟩ := Option.map_eq_some_iff.mp whole
  rw [Machine.run_append,ran] at later
  obtain ⟨released,two⟩ := Prod.mk.inj before
  have same := (terminal {} gone next _ _ fresh_start ran released later).2
  omega

end LinuxOS.Muduo.Connection
