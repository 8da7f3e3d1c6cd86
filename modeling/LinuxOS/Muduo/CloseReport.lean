import LinuxOS.Muduo.ConnectionFacts

namespace LinuxOS.Muduo.Connection
variable {s middle next : Connection} {action : Action} {frame : Frame} {received : RecvResult}
  {result : SendResult} {message : Bytes} {key : Nat} {cancelled : Bool}

-- Nothing that concerns _server_close_cb happens.
structure Plain (s next : Connection) : Prop where
  callback : next.serverCloseCb = s.serverCloseCb
  released : next.released = s.released
  calls : next.serverCloseCalls = s.serverCloseCalls
  owes : .serverClose ∈ next.stack ↔ .serverClose ∈ s.stack

-- What a step has to do with it: nothing, a ReleaseInLoop that still has to call it
-- behind the closed callback, or the call itself.
inductive Report (s next : Connection) : Prop where
  | plain (plain : Plain s next)
  | owed (callback : next.serverCloseCb = s.serverCloseCb) (released : next.released = true)
      (calls : next.serverCloseCalls = s.serverCloseCalls) (owes : .serverClose ∈ next.stack)
  | called (callback : next.serverCloseCb = s.serverCloseCb) (released : next.released = true)
      (calls : next.serverCloseCalls = s.serverCloseCalls+1)

-- AcceptCallback has set the callback, and only a ReleaseInLoop leaves its frame.
structure Bound (s : Connection) : Prop where
  callback : s.serverCloseCb = true
  owes : .serverClose ∈ s.stack → s.released = true

theorem Plain.trans (left : Plain s middle) (right : Plain middle next) : Plain s next :=
  ⟨right.callback.trans left.callback,right.released.trans left.released,right.calls.trans left.calls,
    right.owes.trans left.owes⟩

theorem plain_refl : Plain s s := ⟨rfl,rfl,rfl,Iff.rfl⟩

theorem plain_push (other : frame ≠ .serverClose) : Plain s (s.push frame) := by
  refine ⟨rfl,rfl,rfl,?_⟩
  simp [push,Ne.symm other]

theorem plain_pop {rest : List Frame} (top : s.stack = frame :: rest) (other : frame ≠ .serverClose) :
    Plain s {s with stack := rest} := by
  refine ⟨rfl,rfl,rfl,?_⟩
  simp [top,Ne.symm other]

theorem plain_mess : Plain s s.messOnInput := by
  rcases s.messOnInput_cases with same | pushed
  · rw [same]; exact plain_refl
  · rw [pushed]; exact plain_push Frame.noConfusion

theorem plain_shutDown : Plain s s.shutDownInLoop := by
  have entered : Plain s {s with status := .disconnecting} := ⟨rfl,rfl,rfl,Iff.rfl⟩
  exact (entered.trans (plain_push Frame.noConfusion)).trans plain_mess

theorem closeCallbacks_report (closing : Connection) (callback : closing.serverCloseCb = true) :
    closing.closeCallbacks.serverCloseCb = true ∧
      (closing.closeCallbacks.serverCloseCalls = closing.serverCloseCalls ∧ .serverClose ∈ closing.closeCallbacks.stack ∨
        closing.closeCallbacks.serverCloseCalls = closing.serverCloseCalls+1) := by
  unfold closeCallbacks
  split
  · exact ⟨callback,.inl ⟨rfl,.tail _ (.head _)⟩⟩
  · rw [serverClose,if_pos callback]
    exact ⟨callback,.inr rfl⟩

theorem release_callbacks (s : Connection) : ∃ closing : Connection, s.releaseInLoop = closing.closeCallbacks ∧
    closing.serverCloseCb = s.serverCloseCb ∧ closing.serverCloseCalls = s.serverCloseCalls := by
  unfold releaseInLoop
  dsimp only
  split
  · refine ⟨_,rfl,?_⟩
    unfold cancelInactiveReleaseInLoop
    split <;> exact ⟨rfl,rfl⟩
  · exact ⟨_,rfl,rfl,rfl⟩

theorem release_report (callback : s.serverCloseCb = true) (plain : Plain s middle) : Report s middle.releaseInLoop := by
  have released := middle.release_facts.released
  obtain ⟨closing,equal,bound,calls⟩ := middle.release_callbacks
  obtain ⟨callback',report⟩ := closeCallbacks_report closing (by rw [bound,plain.callback,callback])
  rw [calls,plain.calls] at report
  rw [equal] at released ⊢
  rcases report with ⟨calls',owes⟩ | calls'
  · exact .owed (callback'.trans callback.symm) released calls' owes
  · exact .called (callback'.trans callback.symm) released calls'

theorem established_report (taken : s.establishedInLoop = some next) : Report s next := by
  obtain ⟨_,made⟩ := Option.ite_none_right_eq_some.mp taken
  cases made
  have reading : Plain s {s with status := .connected}.enableRead := ⟨rfl,rfl,rfl,Iff.rfl⟩
  split
  · exact .plain (reading.trans (plain_push Frame.noConfusion))
  · exact .plain reading

theorem handleRead_report (taken : s.handleRead received = some next) : Report s next := by
  unfold handleRead at taken
  split at taken
  · cases taken; exact .plain plain_refl
  · cases received with
    | again => cases taken; exact .plain plain_refl
    | error | eof => cases taken; exact .plain plain_shutDown
    | data bytes =>
      obtain ⟨_,filled⟩ := Option.ite_none_right_eq_some.mp taken
      obtain ⟨buffer,_,made⟩ := Option.bind_eq_some_iff.mp filled
      cases made
      have stored : Plain s {s with inBuffer := buffer} := ⟨rfl,rfl,rfl,Iff.rfl⟩
      exact .plain (stored.trans plain_mess)

theorem handleWrite_report (taken : s.handleWrite result = some next) : Report s next := by
  obtain ⟨⟨str,out⟩,_,taken⟩ := Option.bind_eq_some_iff.mp taken
  cases result with
  | error =>
    cases taken
    have popped : Plain s {s with outBuffer := out} := ⟨rfl,rfl,rfl,Iff.rfl⟩
    exact .plain ((popped.trans (plain_push Frame.noConfusion)).trans plain_mess)
  | again =>
    obtain ⟨_,made⟩ := Option.ite_none_right_eq_some.mp taken
    cases made
    have popped : Plain s {s with outBuffer := out} := ⟨rfl,rfl,rfl,Iff.rfl⟩
    exact .plain (popped.trans (plain_push Frame.noConfusion))
  | count size =>
    obtain ⟨_,made⟩ := Option.ite_none_right_eq_some.mp taken
    cases made
    have popped : Plain s {s with outBuffer := out, accepted := s.accepted ++ str.take size} := ⟨rfl,rfl,rfl,Iff.rfl⟩
    exact .plain (popped.trans (plain_push Frame.noConfusion))

theorem timerDestroy_report (callback : s.serverCloseCb = true) (taken : s.timerDestroy key cancelled = some next) :
    Report s next := by
  obtain ⟨_,made⟩ := Option.ite_none_right_eq_some.mp taken
  cases made
  have dropped : Plain s {s with tasks := s.tasks.erase (key,cancelled)} := ⟨rfl,rfl,rfl,Iff.rfl⟩
  cases cancelled with
  | true => exact .plain ⟨rfl,rfl,rfl,Iff.rfl⟩
  | false => exact release_report callback (dropped.trans (plain_push Frame.noConfusion))

theorem resume_report {rest : List Frame} (bound : Bound s) (top : s.stack = frame :: rest)
    (taken : resume {s with stack := rest} frame = some next) : Report s next := by
  cases frame with
  | conn | anyEvent | closed | mess => cases taken
  | serverClose =>
    have released := bound.owes (by rw [top]; exact .head _)
    cases taken
    rw [serverClose,if_pos (show ({s with stack := rest} : Connection).serverCloseCb = true from bound.callback)]
    exact .called rfl released rfl
  | handleAnyEvent => cases taken; exact .plain (plain_pop top Frame.noConfusion)
  | timerRelease =>
    cases taken
    exact .plain ((plain_pop top Frame.noConfusion).trans ⟨rfl,rfl,rfl,Iff.rfl⟩)
  | handleClose => cases taken; exact release_report bound.callback (plain_pop top Frame.noConfusion)
  | handleWriteError =>
    cases taken
    exact release_report bound.callback ((plain_pop top Frame.noConfusion).trans (plain_push Frame.noConfusion))
  | shutDown =>
    have popped := plain_pop top Frame.noConfusion
    cases taken
    unfold shutDownTail
    split
    · exact release_report bound.callback popped
    · split
      · exact .plain popped
      · exact .plain (popped.trans ⟨rfl,rfl,rfl,Iff.rfl⟩)
  | handleWriteTail =>
    have popped := plain_pop top Frame.noConfusion
    have quiet : Plain s (disableWrite {s with stack := rest}) := popped.trans ⟨rfl,rfl,rfl,Iff.rfl⟩
    cases taken
    unfold handleWriteTail
    split
    · dsimp only
      split
      · exact release_report bound.callback quiet
      · exact .plain quiet
    · exact .plain popped

theorem step_report (bound : Bound s) (taken : step s action = some next) : Report s next := by
  cases step_taken taken with
  | established _ ran => exact established_report ran
  | handleAnyEvent =>
    have left : Plain s (s.push .handleAnyEvent) := plain_push Frame.noConfusion
    unfold handleAnyEvent
    dsimp only
    split
    · exact .plain (left.trans (plain_push Frame.noConfusion))
    · exact .plain left
  | handleRead _ ran => exact handleRead_report ran
  | handleWrite _ ran => exact handleWrite_report ran
  | handleClose | handleError => exact .plain ((plain_push Frame.noConfusion).trans plain_mess)
  | timerDestroy _ ran => exact timerDestroy_report bound.callback ran
  | send _ ran =>
    unfold sendInLoop at ran
    split at ran
    · cases ran; exact .plain plain_refl
    · obtain ⟨out,_,made⟩ := Option.bind_eq_some_iff.mp ran
      cases made
      dsimp only
      split <;> exact .plain ⟨rfl,rfl,rfl,Iff.rfl⟩
  | shutDown => exact .plain plain_shutDown
  | enableInactiveRelease =>
    unfold enableInactiveReleaseInLoop
    split <;> exact .plain ⟨rfl,rfl,rfl,Iff.rfl⟩
  | cancelInactiveRelease =>
    unfold cancelInactiveReleaseInLoop
    split <;> exact .plain ⟨rfl,rfl,rfl,Iff.rfl⟩
  | consume top =>
    refine .plain ⟨rfl,rfl,rfl,?_⟩
    simp [top]
  | ret top user =>
    refine .plain (plain_pop top ?_)
    rintro rfl
    cases user
  | resume top ran => exact resume_report bound top ran

-- The frame of the call is there only while the release it belongs to has not made it.
theorem Bound.step (bound : Bound s) (taken : Connection.step s action = some next) : Bound next := by
  cases step_report bound taken with
  | plain plain => exact ⟨plain.callback.trans bound.callback,fun owes => plain.released.trans (bound.owes (plain.owes.mp owes))⟩
  | owed callback released => exact ⟨callback.trans bound.callback,fun _ => released⟩
  | called callback released => exact ⟨callback.trans bound.callback,fun _ => released⟩

end LinuxOS.Muduo.Connection
