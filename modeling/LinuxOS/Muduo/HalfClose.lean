import LinuxOS.Muduo.OutputHistory

namespace LinuxOS.Muduo.Connection

def epollIn : Nat := 0x001
def epollPri : Nat := 0x002
def epollOut : Nat := 0x004
def epollErr : Nat := 0x008
def epollHup : Nat := 0x010

-- Channel::HandleEvents with the connection's five handlers: the any-event
-- handler and then, for the first bit of its list that is set, one other.
def handleEvents (revents : Nat) (received : RecvResult) (result : SendResult) : List Action :=
  .handleAnyEvent ::
    if revents &&& epollHup ≠ 0 then [.handleClose]
    else if revents &&& epollErr ≠ 0 then [.handleError]
    else if revents &&& (epollIn ||| epollPri) ≠ 0 then [.handleRead received]
    else if revents &&& epollOut ≠ 0 then [.handleWrite result]
    else []

def Action.isSend : Action → Bool
  | .send _ => true
  | _ => false

-- What happens inside a handler, where the callbacks send nothing.
def Inner (s : Connection) (action : Action) : Prop := s.stack ≠ [] ∧ action.isSend = false

instance (s : Connection) (action : Action) : Decidable (Inner s action) := by
  unfold Inner; infer_instance

inductive Served : List Action → Connection → Connection → Prop where
  | nil : Served [] s s
  | cons : step s handler = some entered → Machine.run step entered calls = some left →
      Machine.Throughout step Inner entered calls → left.stack = [] → Served rest left next →
      Served (handler :: rest) s next

variable {s entered middle next : Connection} {size : Nat} {frame : Frame} {rest : List Frame} {action : Action} {actions : List Action}

def Round (s next : Connection) : Prop :=
  Served (handleEvents (epollIn ||| epollOut) .eof (.count s.outBuffer.readableSize)) s next

theorem round_handlers (s : Connection) :
    handleEvents (epollIn ||| epollOut) .eof (.count s.outBuffer.readableSize) =
      [.handleAnyEvent,.handleRead .eof] := rfl

def Closing (s next : Connection) : Prop :=
  next.released = true ∨ next.released = s.released ∧ (next.status = s.status ∨ next.status ≠ .disconnected)

theorem closing_same (released : next.released = s.released) (status : next.status = s.status) : Closing s next :=
  .inr ⟨released,.inl status⟩

theorem closing_release (s : Connection) : Closing middle s.releaseInLoop := .inl s.release_facts.released

theorem closing_mess (s : Connection) : s.messOnInput.released = s.released ∧ s.messOnInput.status = s.status := by
  rcases s.messOnInput_cases with same | pushed
  · rw [same]; exact ⟨rfl,rfl⟩
  · rw [pushed]; exact ⟨rfl,rfl⟩

theorem closing_shutDown (s : Connection) : Closing s s.shutDownInLoop := by
  obtain ⟨released,status⟩ := closing_mess (push {s with status := .disconnecting} .shutDown)
  exact .inr ⟨released,.inr (by rw [shutDownInLoop,status]; nofun)⟩

theorem handleWriteTail_cases (s : Connection) : s.handleWriteTail.released = true ∨
    s.handleWriteTail.released = s.released ∧ s.handleWriteTail.status = s.status ∧
      s.handleWriteTail.stack = s.stack := by
  unfold handleWriteTail
  split
  · dsimp only
    split
    · exact .inl (release_facts _).released
    · exact .inr ⟨rfl,rfl,rfl⟩
  · exact .inr ⟨rfl,rfl,rfl⟩

theorem shutDown_member (s : Connection) : .shutDown ∈ s.shutDownInLoop.stack := by
  unfold shutDownInLoop
  rcases messOnInput_cases (push {s with status := .disconnecting} .shutDown) with same | pushed
  · rw [same]; exact List.mem_cons_self
  · rw [pushed]; exact List.mem_cons_of_mem _ List.mem_cons_self

theorem closing_resume (taken : resume s frame = some next) : Closing s next := by
  cases frame with
  | handleAnyEvent => cases taken; exact closing_same rfl rfl
  | handleWriteError => cases taken; exact closing_release _
  | handleWriteTail =>
    cases taken
    rcases s.handleWriteTail_cases with released | ⟨released,status,_⟩
    · exact .inl released
    · exact closing_same released status
  | handleClose => cases taken; exact closing_release _
  | shutDown =>
    cases taken
    unfold shutDownTail
    split
    · exact closing_release _
    · split
      · exact closing_same rfl rfl
      · exact closing_same rfl rfl
  | serverClose =>
    cases taken
    obtain ⟨_,_,_,status,released,_⟩ := s.serverClose_facts
    exact closing_same released status
  | timerRelease => cases taken; exact closing_same rfl rfl
  | conn | anyEvent | closed | mess => cases taken

theorem step_closing (taken : Taken s action next) : Closing s next := by
  cases taken with
  | established _ ran =>
    unfold establishedInLoop at ran
    split at ran
    · cases ran
      split
      · exact .inr ⟨rfl,.inr (by simp [push,enableRead,updateEvent])⟩
      · exact .inr ⟨rfl,.inr (by simp [enableRead,updateEvent])⟩
    · cases ran
  | handleAnyEvent =>
    unfold handleAnyEvent
    dsimp only
    split
    · exact closing_same rfl rfl
    · exact closing_same rfl rfl
  | @handleRead received _ _ ran =>
    unfold handleRead at ran
    split at ran
    · cases ran; exact closing_same rfl rfl
    · cases received with
      | again => cases ran; exact closing_same rfl rfl
      | error | eof => cases ran; exact closing_shutDown s
      | data bytes =>
        dsimp only at ran
        split at ran
        · obtain ⟨filled,_,equal⟩ := Option.bind_eq_some_iff.mp ran
          cases equal
          obtain ⟨released,status⟩ := closing_mess {s with inBuffer := filled}
          exact closing_same released status
        · cases ran
  | @handleWrite result _ _ ran =>
    obtain ⟨⟨str,out⟩,_,ran⟩ := Option.bind_eq_some_iff.mp ran
    cases result with
    | error =>
      cases ran
      obtain ⟨released,status⟩ := closing_mess (push {s with outBuffer := out} .handleWriteError)
      exact closing_same released status
    | again | count =>
      dsimp only at ran
      split at ran
      · cases ran; exact closing_same rfl rfl
      · cases ran
  | handleClose | handleError =>
    obtain ⟨released,status⟩ := closing_mess (s.push .handleClose)
    exact closing_same released status
  | timerDestroy _ ran =>
    unfold timerDestroy at ran
    split at ran
    · cases ran
      dsimp only
      split
      · exact closing_same rfl rfl
      · exact closing_release _
    · cases ran
  | send _ ran =>
    unfold sendInLoop at ran
    split at ran
    · cases ran; exact closing_same rfl rfl
    · obtain ⟨out,_,equal⟩ := Option.bind_eq_some_iff.mp ran
      cases equal
      dsimp only
      split
      · exact closing_same rfl rfl
      · exact closing_same rfl rfl
  | shutDown => exact closing_shutDown s
  | enableInactiveRelease =>
    unfold enableInactiveReleaseInLoop
    split
    · exact closing_same rfl rfl
    · exact closing_same rfl rfl
  | cancelInactiveRelease =>
    unfold cancelInactiveReleaseInLoop
    split
    · exact closing_same rfl rfl
    · exact closing_same rfl rfl
  | consume => exact closing_same rfl rfl
  | ret => exact closing_same rfl rfl
  | @resume frame rest _ _ ran =>
    have closed := closing_resume ran
    exact closed

-- DISCONNECTED is set by ReleaseInLoop only.
def Alive (s : Connection) : Prop := s.status = .disconnected → s.released = true

theorem step_alive (s : Connection) (action : Action) (next : Connection) (alive : Alive s)
    (taken : step s action = some next) : Alive next := by
  intro gone
  rcases step_closing (step_taken taken) with released | ⟨released,same | other⟩
  · exact released
  · rw [released]; exact alive (same ▸ gone)
  · exact absurd gone other

theorem run_alive (fresh : Fresh s) (ran : Machine.run step s actions = some next) : Alive next := by
  apply Machine.run_invariant step_alive _ ran
  intro gone
  rw [fresh.status] at gone; cases gone

theorem released_stays (taken : Taken s action next) (released : s.released = true) : next.released = true := by
  rcases step_closing taken with gone | ⟨same,_⟩
  · exact gone
  · rw [same]; exact released

theorem inner_output (taken : Taken s action next) (inner : Inner s action) : next.outBuffer = s.outBuffer := by
  obtain ⟨inside,quiet⟩ := inner
  cases taken with
  | established idle => exact absurd idle inside
  | handleAnyEvent idle => exact absurd idle inside
  | handleRead idle => exact absurd idle inside
  | handleWrite idle => exact absurd idle inside
  | handleClose idle => exact absurd idle inside
  | handleError idle => exact absurd idle inside
  | timerDestroy idle => exact absurd idle inside
  | send => cases quiet
  | shutDown => exact silent_shutDown.output.outBuffer
  | enableInactiveRelease => exact silent_enableInactive.output.outBuffer
  | cancelInactiveRelease => exact silent_cancelInactive.output.outBuffer
  | consume => rfl
  | ret => rfl
  | resume _ ran => exact (silent_resume ran).output.outBuffer

def passive : Frame → Bool
  | .anyEvent | .mess _ | .handleAnyEvent | .shutDown => true
  | _ => false

-- Output is pending, and nothing on the stack will take it or release.
structure Stalled (size : Nat) (s : Connection) : Prop where
  unsent : s.outBuffer.readableSize = size
  pending : size ≠ 0
  unreleased : s.released = false
  alive : s.status ≠ .disconnected
  waits : ∀ frame ∈ s.stack, passive frame = true

theorem stalled_push (stalled : Stalled size s) (waits : passive frame = true) : Stalled size (s.push frame) := by
  refine ⟨stalled.unsent,stalled.pending,stalled.unreleased,stalled.alive,fun other found => ?_⟩
  rcases List.mem_cons.mp found with rfl | old
  · exact waits
  · exact stalled.waits other old

theorem stalled_mess (stalled : Stalled size s) : Stalled size s.messOnInput := by
  rcases s.messOnInput_cases with same | pushed
  · rw [same]; exact stalled
  · rw [pushed]; exact stalled_push stalled rfl

theorem stalled_shutDown (stalled : Stalled size s) : Stalled size s.shutDownInLoop := by
  have closing : Stalled size {s with status := .disconnecting} :=
    ⟨stalled.unsent,stalled.pending,stalled.unreleased,nofun,stalled.waits⟩
  exact stalled_mess (stalled_push closing rfl)

theorem stalled_pop (stalled : Stalled size s) (top : s.stack = frame :: rest) : Stalled size {s with stack := rest} :=
  ⟨stalled.unsent,stalled.pending,stalled.unreleased,stalled.alive,fun other found =>
    stalled.waits other (by rw [top]; exact List.mem_cons_of_mem _ found)⟩

theorem stalled_resume (stalled : Stalled size s) (waits : passive frame = true) (taken : resume s frame = some next) :
    Stalled size next := by
  cases frame with
  | handleAnyEvent => cases taken; exact stalled
  | shutDown =>
    cases taken
    unfold shutDownTail
    split
    · rename_i empty
      exact absurd (stalled.unsent.symm.trans empty) stalled.pending
    · split
      · exact stalled
      · exact ⟨stalled.unsent,stalled.pending,stalled.unreleased,stalled.alive,stalled.waits⟩
  | anyEvent | mess => cases taken
  | _ => cases waits

theorem inner_stalled (s : Connection) (action : Action) (next : Connection) (stalled : Stalled size s)
    (inner : Inner s action) (taken : step s action = some next) : Stalled size next := by
  cases step_taken taken with
  | shutDown => exact stalled_shutDown stalled
  | enableInactiveRelease =>
    unfold enableInactiveReleaseInLoop
    split
    · exact ⟨stalled.unsent,stalled.pending,stalled.unreleased,stalled.alive,stalled.waits⟩
    · exact ⟨stalled.unsent,stalled.pending,stalled.unreleased,stalled.alive,stalled.waits⟩
  | cancelInactiveRelease =>
    unfold cancelInactiveReleaseInLoop
    split
    · exact ⟨stalled.unsent,stalled.pending,stalled.unreleased,stalled.alive,stalled.waits⟩
    · exact ⟨stalled.unsent,stalled.pending,stalled.unreleased,stalled.alive,stalled.waits⟩
  | consume top _ =>
    refine ⟨stalled.unsent,stalled.pending,stalled.unreleased,stalled.alive,fun frame found => ?_⟩
    rcases List.mem_cons.mp found with rfl | old
    · rfl
    · exact (stalled_pop stalled top).waits frame old
  | ret top => exact stalled_pop stalled top
  | @resume frame rest _ top ran =>
    exact stalled_resume (stalled_pop stalled top) (stalled.waits frame (by rw [top]; exact List.mem_cons_self)) ran
  | send => cases inner.2
  | established idle => exact absurd idle inner.1
  | handleAnyEvent idle => exact absurd idle inner.1
  | handleRead idle => exact absurd idle inner.1
  | handleWrite idle => exact absurd idle inner.1
  | handleClose idle => exact absurd idle inner.1
  | handleError idle => exact absurd idle inner.1
  | timerDestroy idle => exact absurd idle inner.1

theorem anyEvent_stalled (stalled : Stalled size s) : Stalled size s.handleAnyEvent := by
  unfold handleAnyEvent
  dsimp only
  split
  · exact stalled_push (stalled_push stalled rfl) rfl
  · exact stalled_push stalled rfl

theorem read_stalled (stalled : Stalled size s) (taken : s.handleRead .eof = some next) : Stalled size next := by
  unfold handleRead at taken
  split at taken
  · rename_i gone; exact absurd gone stalled.alive
  · cases taken; exact stalled_shutDown stalled

-- The EPOLLIN branch comes first and returns, so the pending output stays.
theorem round_stalled (stalled : Stalled size s) (round : Round s next) : Stalled size next ∧ next.stack = [] := by
  rw [Round,round_handlers] at round
  cases round with
  | cons entered inner within left round =>
    cases step_taken entered
    have first := Machine.run_keeps inner_stalled (anyEvent_stalled stalled) within inner
    cases round with
    | cons entered inner within left round =>
      cases step_taken entered with
      | handleRead _ ran =>
        have second := Machine.run_keeps inner_stalled (read_stalled first ran) within inner
        cases round
        exact ⟨second,left⟩

theorem anyEvent_returns (idle : s.stack = []) : ∃ inner, Machine.run step s.handleAnyEvent inner = some s ∧
    Machine.Throughout step Inner s.handleAnyEvent inner := by
  have same : {s with stack := []} = s := by rw [← idle]
  unfold handleAnyEvent
  dsimp only
  split
  · refine ⟨[.ret,.resume],?_,⟨nofun,rfl⟩,⟨nofun,rfl⟩,trivial⟩
    have ran : Machine.run step ((s.push .handleAnyEvent).push .anyEvent) [.ret,.resume] = some {s with stack := s.stack} := rfl
    exact ran
  · refine ⟨[.resume],?_,⟨nofun,rfl⟩,trivial⟩
    have ran : Machine.run step (s.push .handleAnyEvent) [.resume] = some {s with stack := s.stack} := rfl
    exact ran

def disconnecting (s : Connection) : Connection := {s with status := .disconnecting}

theorem eof_returns (stalled : Stalled size s) (idle : s.stack = []) : ∃ entered inner next,
    step s (.handleRead .eof) = some entered ∧ Machine.run step entered inner = some next ∧
      Machine.Throughout step Inner entered inner ∧ next.stack = [] := by
  have taken : step s (.handleRead .eof) = some s.shutDownInLoop := by
    simp [step,idle,handleRead,stalled.alive]
  have tail : Machine.run step (s.disconnecting.push .shutDown) [.resume] = some s.disconnecting.shutDownTail := rfl
  have ends : s.disconnecting.shutDownTail.stack = [] := by
    unfold shutDownTail
    split
    · rename_i empty
      exact absurd (stalled.unsent.symm.trans empty) stalled.pending
    · split
      · exact idle
      · exact idle
  rcases messOnInput_cases (s.disconnecting.push .shutDown) with same | pushed
  · have entered : s.shutDownInLoop = s.disconnecting.push .shutDown := same
    refine ⟨_,[.resume],_,taken,?_,?_,ends⟩
    · rw [entered]; exact tail
    · rw [entered]; exact ⟨⟨nofun,rfl⟩,trivial⟩
  · have entered : s.shutDownInLoop = (s.disconnecting.push .shutDown).push (.mess false) := pushed
    refine ⟨_,[.ret,.resume],_,taken,?_,?_,ends⟩
    · rw [entered]; exact tail
    · rw [entered]; exact ⟨⟨nofun,rfl⟩,⟨nofun,rfl⟩,trivial⟩

theorem round_exists (stalled : Stalled size s) (idle : s.stack = []) : ∃ next, Round s next := by
  obtain ⟨first,ran,within⟩ := anyEvent_returns idle
  obtain ⟨entered,second,next,taken,ran',within',ends⟩ := eof_returns stalled idle
  have served : Served [.handleRead .eof] s next := .cons taken ran' within' ends (.nil)
  have called : step s .handleAnyEvent = some s.handleAnyEvent := by simp [step,idle]
  exact ⟨next,.cons called ran within idle served⟩

-- Nothing is left to send, and a ShutDownInLoop that has not come to its end
-- will release.
structure Draining (s : Connection) : Prop where
  empty : s.outBuffer.readableSize = 0
  leaving : s.released = true ∨ .shutDown ∈ s.stack

theorem resume_draining (empty : s.outBuffer.readableSize = 0) (member : .shutDown ∈ frame :: s.stack)
    (taken : resume s frame = some next) : next.released = true ∨ .shutDown ∈ next.stack := by
  have later : frame ≠ .shutDown → .shutDown ∈ s.stack := by
    intro other
    rcases List.mem_cons.mp member with equal | old
    · exact absurd equal.symm other
    · exact old
  cases frame with
  | handleAnyEvent => cases taken; exact .inr (later nofun)
  | handleWriteError => cases taken; exact .inl (release_facts _).released
  | handleWriteTail =>
    cases taken
    rcases s.handleWriteTail_cases with released | ⟨_,_,same⟩
    · exact .inl released
    · rw [same]; exact .inr (later nofun)
  | handleClose => cases taken; exact .inl (release_facts _).released
  | shutDown =>
    cases taken
    unfold shutDownTail
    rw [if_pos empty]; exact .inl (release_facts _).released
  | serverClose =>
    cases taken
    rw [(serverClose_facts _).1]; exact .inr (later nofun)
  | timerRelease => cases taken; exact .inr (later nofun)
  | conn | anyEvent | closed | mess => cases taken

theorem inner_draining (s : Connection) (action : Action) (next : Connection) (draining : Draining s)
    (inner : Inner s action) (taken : step s action = some next) : Draining next := by
  have rule := step_taken taken
  refine ⟨by rw [inner_output rule inner]; exact draining.empty,?_⟩
  rcases draining.leaving with released | member
  · exact .inl (released_stays rule released)
  · cases rule with
    | shutDown => exact .inr (shutDown_member s)
    | enableInactiveRelease =>
      unfold enableInactiveReleaseInLoop
      split
      · exact .inr member
      · exact .inr member
    | cancelInactiveRelease =>
      unfold cancelInactiveReleaseInLoop
      split
      · exact .inr member
      · exact .inr member
    | consume top _ =>
      rw [top] at member
      rcases List.mem_cons.mp member with equal | old
      · cases equal
      · exact .inr (List.mem_cons_of_mem _ old)
    | ret top user =>
      rw [top] at member
      rcases List.mem_cons.mp member with equal | old
      · rw [← equal] at user; cases user
      · exact .inr old
    | @resume frame rest _ top ran =>
      rw [top] at member
      exact resume_draining (s := {s with stack := rest}) draining.empty member ran
    | send => cases inner.2
    | established idle => exact absurd idle inner.1
    | handleAnyEvent idle => exact absurd idle inner.1
    | handleRead idle => exact absurd idle inner.1
    | handleWrite idle => exact absurd idle inner.1
    | handleClose idle => exact absurd idle inner.1
    | handleError idle => exact absurd idle inner.1
    | timerDestroy idle => exact absurd idle inner.1

theorem inner_alive (s : Connection) (action : Action) (next : Connection)
    (holds : Alive s ∧ s.outBuffer.readableSize = size) (inner : Inner s action) (taken : step s action = some next) :
    Alive next ∧ next.outBuffer.readableSize = size :=
  ⟨step_alive s action next holds.1 taken,by rw [inner_output (step_taken taken) inner]; exact holds.2⟩

theorem round_released (alive : Alive s) (empty : s.outBuffer.readableSize = 0) (round : Round s next) :
    next.released = true := by
  rw [Round,round_handlers] at round
  cases round with
  | @cons _ _ entered _ middle _ _ entry inner within left round =>
    have begun : Alive entered ∧ entered.outBuffer.readableSize = 0 := by
      refine ⟨step_alive _ _ _ alive entry,?_⟩
      cases step_taken entry
      rw [silent_handleAnyEvent.output.outBuffer]; exact empty
    obtain ⟨alive,empty⟩ := Machine.run_keeps inner_alive begun within inner
    cases round with
    | cons entry inner within left round =>
      cases round
      cases step_taken entry with
      | handleRead _ ran =>
        unfold handleRead at ran
        split at ran
        · rename_i gone
          cases ran
          exact (Machine.run_keeps inner_draining ⟨empty,.inl (alive gone)⟩ within inner).leaving.elim id
            fun member => by rw [left] at member; cases member
        · cases ran
          have entered : Draining middle.shutDownInLoop :=
            ⟨by rw [silent_shutDown.output.outBuffer]; exact empty,.inr (shutDown_member middle)⟩
          exact (Machine.run_keeps inner_draining entered within inner).leaving.elim id
            fun member => by rw [left] at member; cases member

def Rounds : Nat → Connection → Connection → Prop
  | 0,s,next => next = s
  | n+1,s,next => s.released = false ∧ ∃ middle, Round s middle ∧ Rounds n middle next

-- The busy loop: any number of rounds leaves everything as it was.
theorem rounds_stalled (n : Nat) (stalled : Stalled size s) (idle : s.stack = []) :
    ∃ next, Rounds n s next ∧ Stalled size next := by
  induction n generalizing s with
  | zero => exact ⟨s,rfl,stalled⟩
  | succ n ih =>
    obtain ⟨middle,round⟩ := round_exists stalled idle
    obtain ⟨stalled',idle'⟩ := round_stalled stalled round
    obtain ⟨next,rounds,last⟩ := ih stalled' idle'
    exact ⟨next,⟨stalled.unreleased,middle,round,rounds⟩,last⟩

theorem stalled_of (alive : Alive s) (idle : s.stack = []) (unreleased : s.released = false)
    (pending : s.outBuffer.readableSize ≠ 0) : Stalled s.outBuffer.readableSize s := by
  refine ⟨rfl,pending,unreleased,fun gone => ?_,fun frame found => ?_⟩
  · rw [alive gone] at unreleased; cases unreleased
  · rw [idle] at found; cases found

theorem half_closed_drains_iff {start : Connection} (fresh : Fresh start)
    (ran : Machine.run step start actions = some s) (idle : s.stack = []) (unreleased : s.released = false) :
    ((∀ next, Round s next → next.released = true ∨ next.outBuffer.readableSize < s.outBuffer.readableSize) ↔
      s.outBuffer.readableSize = 0) ∧
    ((∃ n, ∀ next, Rounds n s next → next.released = true) ↔ s.outBuffer.readableSize = 0) := by
  have alive := run_alive fresh ran
  refine ⟨⟨fun progress => ?_,fun empty next round => .inl (round_released alive empty round)⟩,
    ⟨fun finite => ?_,fun empty => ⟨1,fun next rounds => ?_⟩⟩⟩
  · by_contra pending
    have stalled := stalled_of alive idle unreleased pending
    obtain ⟨next,round⟩ := round_exists stalled idle
    obtain ⟨stuck,_⟩ := round_stalled stalled round
    rcases progress next round with released | less
    · rw [stuck.unreleased] at released; cases released
    · exact absurd less (Nat.not_lt_of_le (Nat.le_of_eq stuck.unsent.symm))
  · by_contra pending
    obtain ⟨n,all⟩ := finite
    obtain ⟨next,rounds,stuck⟩ := rounds_stalled n (stalled_of alive idle unreleased pending) idle
    have released := all next rounds
    rw [stuck.unreleased] at released; cases released
  · obtain ⟨_,middle,round,rfl⟩ := rounds
    exact round_released alive empty round

def flushed : List Action := [.established,.send [1],.ret,.handleWrite (.count 1),.resume]

theorem half_closed_drains_iff_flushed : ∃ s, Machine.run step {} flushed = some s ∧
    (∀ next, Round s next → next.released = true ∨ next.outBuffer.readableSize < s.outBuffer.readableSize) ∧
    ∃ n, ∀ next, Rounds n s next → next.released = true := by
  have ends : (Machine.run step {} flushed).map (fun s => (s.stack,s.released,s.outBuffer.readableSize)) =
      some ([],false,0) := by decide +kernel
  obtain ⟨s,ran,looks⟩ := Option.map_eq_some_iff.mp ends
  simp only [Prod.mk.injEq] at looks
  obtain ⟨idle,unreleased,empty⟩ := looks
  obtain ⟨round,rounds⟩ := half_closed_drains_iff fresh_start ran idle unreleased
  exact ⟨s,ran,round.mpr empty,rounds.mpr empty⟩

-- One byte is queued when the FIN arrives.
def finBeforeFlush : List Action := [.established,.send [1],.ret]

theorem fin_before_flush_spins : ¬∀ (start s next : Connection) (actions : List Action), Fresh start →
    Machine.run step start actions = some s → s.stack = [] → s.released = false → Round s next →
      next.released = true ∨ next.outBuffer.readableSize < s.outBuffer.readableSize := by
  intro claimed
  have ends : (Machine.run step {} finBeforeFlush).map (fun s => (s.stack,s.released,s.outBuffer.readableSize)) =
      some ([],false,1) := by decide +kernel
  obtain ⟨s,ran,looks⟩ := Option.map_eq_some_iff.mp ends
  simp only [Prod.mk.injEq] at looks
  obtain ⟨idle,unreleased,one⟩ := looks
  have stalled := stalled_of (run_alive fresh_start ran) idle unreleased (by rw [one]; decide)
  obtain ⟨next,round⟩ := round_exists stalled idle
  obtain ⟨stuck,_⟩ := round_stalled stalled round
  rcases claimed {} s next _ fresh_start ran idle unreleased round with released | less
  · rw [stuck.unreleased] at released; cases released
  · exact absurd less (Nat.not_lt_of_le (Nat.le_of_eq stuck.unsent.symm))

end LinuxOS.Muduo.Connection
