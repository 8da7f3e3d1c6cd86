import LinuxOS.Muduo.ReleaseHistory

namespace LinuxOS.Muduo

-- What is left of these methods calls ReleaseInLoop without asking whether it has run.
def Frame.releases : Frame → Bool
  | .shutDown | .handleClose | .handleWriteError => true
  | _ => false

namespace Connection
variable {s next : Connection} {frame : Frame} {rest : List Frame} {received : RecvResult}
  {result : SendResult} {message : Bytes} {key : Nat} {cancelled : Bool}

-- The close callbacks are counted together with the calls that a running
-- ReleaseInLoop still owes.
structure Once (s : Connection) : Prop where
  layered : Layered s.stack
  status : s.released = true ↔ s.status = .disconnected
  ended : s.released = true → ∀ frame ∈ s.stack, frame.releases = false
  closed : s.closedCalls ≤ s.released.toNat
  server : s.serverCloseCalls + s.stack.count .serverClose ≤ s.released.toNat

def Action.closes : Action → Bool
  | .shutDown | .handleClose | .handleError | .handleWrite .error | .timerDestroy _ false => true
  | _ => false

-- No closing event reaches a DISCONNECTED connection, and a ShutDownInLoop that
-- finds nothing to send does not release inside another method that will.
def Single (s : Connection) (action : Action) : Prop :=
  (action.closes = true → s.status ≠ .disconnected) ∧
  (action = .resume → s.stack.head? = some .shutDown → s.outBuffer.readableSize = 0 →
    ∀ frame ∈ s.stack.tail, frame.releases = false)

instance (s : Connection) (action : Action) : Decidable (Single s action) := by
  unfold Single; infer_instance

theorem once_active (once : Once s) (active : s.status ≠ .disconnected) : s.released = false := by
  cases released : s.released with
  | false => rfl
  | true => exact absurd (once.status.mp released) active

-- The one place where the callbacks run: the first release of all.
theorem once_release (once : Once s) (unreleased : s.released = false)
    (alone : ∀ frame ∈ s.stack, frame.releases = false) : Once s.releaseInLoop := by
  have facts := s.release_facts
  have closed := once.closed
  have server := once.server
  rw [unreleased] at closed server
  simp only [Bool.toNat_false] at closed server
  refine ⟨layered_released once.layered facts,by simp [facts.released,facts.status],?_,?_,?_⟩
  · intro _
    rcases facts.calls with ⟨stack,_⟩ | ⟨stack,_⟩
    · rw [stack]
      simpa [Frame.releases] using alone
    · rwa [stack]
  · rw [facts.released]
    rcases facts.calls with ⟨_,calls,_⟩ | ⟨_,calls,_⟩ <;> rw [calls,Bool.toNat_true] <;> omega
  · rw [facts.released]
    rcases facts.calls with ⟨stack,_,calls⟩ | ⟨stack,_,calls⟩
    · rw [stack,calls,Bool.toNat_true]
      simp only [List.count_cons,beq_self_eq_true,reduceIte]
      have other : (Frame.closed == Frame.serverClose) = false := by decide
      rw [other]
      simp only [Bool.false_eq_true,reduceIte]
      omega
    · rw [stack,Bool.toNat_true]
      omega

theorem once_push (once : Once s) (frame : Frame) (idle : frame.isHandler = true → s.stack = [])
    (other : frame ≠ .serverClose) (live : frame.releases = true → s.released = false) : Once (s.push frame) := by
  refine ⟨⟨idle,once.layered⟩,once.status,?_,once.closed,?_⟩
  · intro released member found
    rcases List.mem_cons.mp found with equal | old
    · cases equal
      cases releases : frame.releases with
      | false => rfl
      | true => exact absurd released (by simp [push,live releases])
    · exact once.ended released member old
  · have same : (s.push frame).stack.count .serverClose = s.stack.count .serverClose :=
      List.count_cons_of_ne other
    rw [same]
    exact once.server

theorem once_mess (once : Once s) : Once s.messOnInput := by
  rcases s.messOnInput_cases with same | pushed
  · rwa [same]
  · rw [pushed]
    exact once_push once (.mess false) (by simp [Frame.isHandler]) (by simp) (by simp [Frame.releases])

theorem once_pop (once : Once s) (top : s.stack = frame :: rest) : Once {s with stack := rest} := by
  have layered := once.layered
  have ended := once.ended
  have server := once.server
  rw [top] at layered ended server
  refine ⟨layered.2,once.status,?_,once.closed,?_⟩
  · intro released member found
    exact ended released member (List.mem_cons_of_mem _ found)
  · have fewer : rest.count .serverClose ≤ (frame :: rest).count .serverClose := List.count_le_count_cons
    show s.serverCloseCalls + rest.count .serverClose ≤ s.released.toNat
    omega

theorem shutDown_once (once : Once s) (active : s.status ≠ .disconnected) : Once s.shutDownInLoop := by
  have unreleased := once_active once active
  have entered : Once {s with status := .disconnecting} :=
    ⟨once.layered,by simp [unreleased],once.ended,once.closed,once.server⟩
  exact once_mess (once_push entered .shutDown (by simp [Frame.isHandler]) (by simp) (fun _ => unreleased))

theorem once_frame (once : Once s) (top : s.stack = frame :: rest) (releases : frame.releases = true) :
    s.released = false := by
  cases released : s.released with
  | false => rfl
  | true =>
    have ended := once.ended released frame (by rw [top]; exact List.mem_cons_self)
    rw [releases] at ended
    cases ended

theorem resume_once (once : Once s) (top : s.stack = frame :: rest) (single : Single s .resume)
    (taken : resume {s with stack := rest} frame = some next) : Once next := by
  have popped := once_pop once top
  have bottom : frame.isHandler = true → rest = [] := by
    have layered := once.layered
    rw [top] at layered
    exact layered.1
  cases frame with
  | handleAnyEvent => cases taken; exact popped
  | handleWriteError =>
    cases taken
    cases bottom rfl
    have unreleased := once_frame once top rfl
    have tail := once_push popped .handleWriteTail (fun _ => rfl) (by simp) (by simp [Frame.releases])
    exact once_release tail unreleased (by simp [push,Frame.releases])
  | handleWriteTail =>
    cases taken
    cases bottom rfl
    unfold handleWriteTail
    split
    · have quiet : Once (disableWrite {s with stack := []}) :=
        ⟨popped.layered,popped.status,popped.ended,popped.closed,popped.server⟩
      dsimp only
      split
      · rename_i leaving
        have unreleased := once_active quiet (by rw [leaving]; decide)
        exact once_release quiet unreleased (by simp [disableWrite,updateEvent])
      · exact quiet
    · exact popped
  | handleClose =>
    cases taken
    cases bottom rfl
    have unreleased := once_frame once top rfl
    exact once_release popped unreleased (by simp)
  | shutDown =>
    cases taken
    unfold shutDownTail
    split
    · rename_i empty
      have unreleased := once_frame once top rfl
      have alone := single.2 rfl (by rw [top]; rfl) empty
      rw [top] at alone
      exact once_release popped unreleased alone
    · split
      · exact popped
      · exact ⟨popped.layered,popped.status,popped.ended,popped.closed,popped.server⟩
  | serverClose =>
    cases taken
    have server := once.server
    rw [top,List.count_cons_self] at server
    unfold serverClose
    split
    · refine ⟨popped.layered,popped.status,popped.ended,popped.closed,?_⟩
      show s.serverCloseCalls+1 + rest.count .serverClose ≤ s.released.toNat
      omega
    · exact popped
  | timerRelease =>
    cases taken
    exact ⟨popped.layered,popped.status,popped.ended,popped.closed,popped.server⟩
  | conn | anyEvent | closed | mess => cases taken

theorem handleRead_once (once : Once s) (taken : s.handleRead received = some next) : Once next := by
  unfold handleRead at taken
  split at taken
  · cases taken; exact once
  · rename_i active
    cases received with
    | again => cases taken; exact once
    | error | eof => cases taken; exact shutDown_once once active
    | data bytes =>
      dsimp only at taken
      split at taken
      · obtain ⟨filled,_,equal⟩ := Option.bind_eq_some_iff.mp taken
        cases equal
        exact once_mess ⟨once.layered,once.status,once.ended,once.closed,once.server⟩
      · cases taken

theorem handleWrite_once (once : Once s) (idle : s.stack = []) (single : Single s (.handleWrite result))
    (taken : s.handleWrite result = some next) : Once next := by
  obtain ⟨⟨str,out⟩,_,taken⟩ := Option.bind_eq_some_iff.mp taken
  have popped : Once {s with outBuffer := out} :=
    ⟨once.layered,once.status,once.ended,once.closed,once.server⟩
  have tail : ∀ middle : Connection, Once middle → middle.stack = [] → Once (middle.push .handleWriteTail) :=
    fun middle kept empty => once_push kept .handleWriteTail (fun _ => empty) (by simp) (by simp [Frame.releases])
  cases result with
  | error =>
    cases taken
    have unreleased := once_active once (single.1 rfl)
    exact once_mess (once_push popped .handleWriteError (fun _ => idle) (by simp) (fun _ => unreleased))
  | again =>
    dsimp only at taken
    split at taken
    · cases taken; exact tail _ popped idle
    · cases taken
  | count size =>
    dsimp only at taken
    split at taken
    · cases taken
      exact tail _ ⟨popped.layered,popped.status,popped.ended,popped.closed,popped.server⟩ idle
    · cases taken

theorem handleClose_once (once : Once s) (idle : s.stack = []) (active : s.status ≠ .disconnected) :
    Once s.handleClose :=
  once_mess (once_push once .handleClose (fun _ => idle) (by simp) (fun _ => once_active once active))

theorem handleAnyEvent_once (once : Once s) (idle : s.stack = []) : Once s.handleAnyEvent := by
  have left := once_push once .handleAnyEvent (fun _ => idle) (by simp) (by simp [Frame.releases])
  unfold handleAnyEvent
  dsimp only
  split
  · exact once_push left .anyEvent (by simp [Frame.isHandler]) (by simp) (by simp [Frame.releases])
  · exact left

theorem established_once (once : Once s) (taken : s.establishedInLoop = some next) : Once next := by
  unfold establishedInLoop at taken
  split at taken
  · rename_i connecting
    have unreleased := once_active once (by rw [connecting]; decide)
    have reading : Once (enableRead {s with status := .connected}) :=
      ⟨once.layered,by simp [enableRead,updateEvent,unreleased],once.ended,once.closed,once.server⟩
    cases taken
    split
    · exact once_push reading .conn (by simp [Frame.isHandler]) (by simp) (by simp [Frame.releases])
    · exact reading
  · cases taken

theorem send_once (once : Once s) (taken : s.sendInLoop message = some next) : Once next := by
  unfold sendInLoop at taken
  split at taken
  · cases taken; exact once
  · obtain ⟨out,_,equal⟩ := Option.bind_eq_some_iff.mp taken
    cases equal
    dsimp only
    split <;> exact ⟨once.layered,once.status,once.ended,once.closed,once.server⟩

theorem timerDestroy_once (once : Once s) (idle : s.stack = []) (single : Single s (.timerDestroy key cancelled))
    (taken : s.timerDestroy key cancelled = some next) : Once next := by
  unfold timerDestroy at taken
  split at taken
  · cases taken
    dsimp only
    cases cancelled with
    | true => exact ⟨once.layered,once.status,once.ended,once.closed,once.server⟩
    | false =>
      have dropped : Once {s with tasks := s.tasks.erase (key,false)} :=
        ⟨once.layered,once.status,once.ended,once.closed,once.server⟩
      have left := once_push dropped .timerRelease (fun _ => idle) (by simp) (by simp [Frame.releases])
      have unreleased := once_active once (single.1 rfl)
      exact once_release left unreleased (by simp [push,idle,Frame.releases])
  · cases taken

theorem step_once (s : Connection) (action : Action) (next : Connection) (once : Once s)
    (single : Single s action) (taken : step s action = some next) : Once next := by
  cases step_taken taken with
  | established idle ran => exact established_once once ran
  | handleAnyEvent idle => exact handleAnyEvent_once once idle
  | handleRead idle ran => exact handleRead_once once ran
  | handleWrite idle ran => exact handleWrite_once once idle single ran
  | handleClose idle => exact handleClose_once once idle (single.1 rfl)
  | handleError idle => exact handleClose_once once idle (single.1 rfl)
  | timerDestroy idle ran => exact timerDestroy_once once idle single ran
  | send control ran => exact send_once once ran
  | shutDown control => exact shutDown_once once (single.1 rfl)
  | enableInactiveRelease control =>
    unfold enableInactiveReleaseInLoop
    split <;> exact ⟨once.layered,once.status,once.ended,once.closed,once.server⟩
  | cancelInactiveRelease control =>
    unfold cancelInactiveReleaseInLoop
    split <;> exact ⟨once.layered,once.status,once.ended,once.closed,once.server⟩
  | consume top moved =>
    have popped := once_pop once top
    refine ⟨⟨by simp [Frame.isHandler],popped.layered⟩,popped.status,?_,popped.closed,?_⟩
    · intro released member found
      rcases List.mem_cons.mp found with equal | old
      · cases equal; rfl
      · exact popped.ended released member old
    · rw [List.count_cons_of_ne (by simp)]
      exact popped.server
  | ret top user => exact once_pop once top
  | resume top ran => exact resume_once once top single ran

theorem fresh_once (fresh : Fresh s) : Once s := by
  refine ⟨by rw [fresh.stack]; trivial,by simp [fresh.released,fresh.status],?_,?_,?_⟩
  · simp [fresh.released]
  · simp [fresh.closedCalls]
  · simp [fresh.serverCloseCalls,fresh.stack]

theorem closed_at_most_once (fresh : Fresh s) (single : Machine.Throughout step Single s actions)
    (ran : Machine.run step s actions = some next) : next.closedCalls ≤ 1 ∧ next.serverCloseCalls ≤ 1 := by
  have once := Machine.run_keeps step_once (fresh_once fresh) single ran
  have closed := once.closed
  have server := once.server
  have bound := Bool.toNat_le next.released
  omega

theorem closed_at_most_once_drained : ∃ next,
    Machine.run step {} (drainedRelease ++ [.ret,.resume,.send [3],.handleRead .eof]) = some next ∧
    next.closedCalls ≤ 1 ∧ next.serverCloseCalls ≤ 1 := by
  have ends : (Machine.run step {} (drainedRelease ++ [.ret,.resume,.send [3],.handleRead .eof])).isSome := by
    decide +kernel
  obtain ⟨next,ran⟩ := Option.isSome_iff_exists.mp ends
  exact ⟨next,ran,closed_at_most_once fresh_start (by decide +kernel) ran⟩

def Consuming (s : Connection) (action : Action) : Prop :=
  action = .ret → s.stack.head? ≠ some (.mess false)

instance (s : Connection) (action : Action) : Decidable (Consuming s action) := by
  unfold Consuming; infer_instance

-- One byte is left over when the peer hangs up. The callback that HandleClose
-- makes for it calls ShutDown, which releases at once; HandleClose releases again.
def nestedRelease : List Action :=
  [.established,.ret,.handleRead (.data [1,2]),.consume 1,.ret,
   .handleClose,.consume 1,.shutDown,.resume,.ret,.resume,.ret,.resume,.ret,.resume]

theorem nested_release_calls_twice : ¬ ∀ (s next : Connection) (actions : List Action), Fresh s →
    Machine.Throughout step Consuming s actions → Machine.run step s actions = some next →
    next.closedCalls ≤ 1 ∧ next.serverCloseCalls ≤ 1 := by
  intro once
  have calls : (Machine.run step {} nestedRelease).map (fun s => (s.closedCalls,s.serverCloseCalls)) =
      some (2,2) := by decide +kernel
  obtain ⟨next,ran,twice⟩ := Option.map_eq_some_iff.mp calls
  obtain ⟨closed,_⟩ := Prod.mk.inj twice
  have bound := (once {} next nestedRelease fresh_start (by decide +kernel) ran).1
  omega

end Connection
end LinuxOS.Muduo
