import LinuxOS.Muduo.Connection

namespace LinuxOS.Muduo.Connection

structure SameOutput (s next : Connection) : Prop where
  accepted : next.accepted = s.accepted
  outBuffer : next.outBuffer = s.outBuffer
  sent : next.sent = s.sent

theorem SameOutput.trans (left : SameOutput s middle) (right : SameOutput middle next) :
    SameOutput s next :=
  ⟨right.accepted.trans left.accepted,right.outBuffer.trans left.outBuffer,right.sent.trans left.sent⟩

structure ReleaseFacts (s next : Connection) : Prop where
  status : next.status = .disconnected
  released : next.released = true
  sockOpen : next.sockOpen = false
  updates : next.updates = s.updates
  output : SameOutput s next
  calls : (next.stack = .closed :: .serverClose :: s.stack ∧ next.closedCalls = s.closedCalls+1 ∧
      next.serverCloseCalls = s.serverCloseCalls) ∨
    (next.stack = s.stack ∧ next.closedCalls = s.closedCalls ∧
      next.serverCloseCalls ≤ s.serverCloseCalls+1)

theorem serverClose_facts (s : Connection) : s.serverClose.stack = s.stack ∧
    s.serverClose.serverCloseCalls ≤ s.serverCloseCalls+1 ∧ s.serverClose.closedCalls = s.closedCalls ∧
    s.serverClose.status = s.status ∧ s.serverClose.released = s.released ∧
    s.serverClose.sockOpen = s.sockOpen ∧ s.serverClose.updates = s.updates ∧
    SameOutput s s.serverClose := by
  unfold serverClose
  split
  · exact ⟨rfl,Nat.le_refl _,rfl,rfl,rfl,rfl,rfl,⟨rfl,rfl,rfl⟩⟩
  · exact ⟨rfl,Nat.le_succ _,rfl,rfl,rfl,rfl,rfl,⟨rfl,rfl,rfl⟩⟩

theorem closeCallbacks_facts {s closing : Connection} (status : closing.status = .disconnected)
    (released : closing.released = true) (shut : closing.sockOpen = false)
    (updates : closing.updates = s.updates) (output : SameOutput s closing)
    (stack : closing.stack = s.stack) (closed : closing.closedCalls = s.closedCalls)
    (server : closing.serverCloseCalls = s.serverCloseCalls) :
    ReleaseFacts s closing.closeCallbacks := by
  unfold closeCallbacks
  split
  · exact ⟨status,released,shut,updates,⟨output.accepted,output.outBuffer,output.sent⟩,
      .inl ⟨by simp [push,stack],by simp [push,closed],server⟩⟩
  · obtain ⟨stack',calls,closed',status',released',shut',updates',output'⟩ := closing.serverClose_facts
    exact ⟨status'.trans status,released'.trans released,shut'.trans shut,updates'.trans updates,
      output.trans output',.inr ⟨stack'.trans stack,closed'.trans closed,server ▸ calls⟩⟩

theorem release_facts (s : Connection) : ReleaseFacts s s.releaseInLoop := by
  unfold releaseInLoop
  dsimp only
  split
  · unfold cancelInactiveReleaseInLoop
    split <;> exact closeCallbacks_facts rfl rfl rfl rfl ⟨rfl,rfl,rfl⟩ rfl rfl rfl
  · exact closeCallbacks_facts rfl rfl rfl rfl ⟨rfl,rfl,rfl⟩ rfl rfl rfl

theorem messOnInput_cases (s : Connection) : s.messOnInput = s ∨ s.messOnInput = s.push (.mess false) := by
  unfold messOnInput
  split
  · exact .inr rfl
  · exact .inl rfl

-- The transition function read as rules, one per action: what the state must
-- look like and which method then runs.
inductive Taken (s : Connection) : Action → Connection → Prop where
  | established : s.stack = [] → s.establishedInLoop = some next → Taken s .established next
  | handleAnyEvent : s.stack = [] → Taken s .handleAnyEvent s.handleAnyEvent
  | handleRead : s.stack = [] → s.handleRead received = some next → Taken s (.handleRead received) next
  | handleWrite : s.stack = [] → s.handleWrite result = some next → Taken s (.handleWrite result) next
  | handleClose : s.stack = [] → Taken s .handleClose s.handleClose
  | handleError : s.stack = [] → Taken s .handleError s.handleClose
  | timerDestroy : s.stack = [] → s.timerDestroy key cancelled = some next →
      Taken s (.timerDestroy key cancelled) next
  | send : s.inLoop = true → s.sendInLoop message = some next → Taken s (.send message) next
  | shutDown : s.inLoop = true → Taken s .shutDown s.shutDownInLoop
  | enableInactiveRelease : s.inLoop = true →
      Taken s .enableInactiveRelease s.enableInactiveReleaseInLoop
  | cancelInactiveRelease : s.inLoop = true →
      Taken s .cancelInactiveRelease s.cancelInactiveReleaseInLoop
  | consume : s.stack = .mess consumed :: rest → s.inBuffer.moveReadOffset size = some left →
      Taken s (.consume size) {s with inBuffer := left, stack := .mess true :: rest}
  | ret : s.stack = frame :: rest → frame.isUser = true → Taken s .ret {s with stack := rest}
  | resume : s.stack = frame :: rest → resume {s with stack := rest} frame = some next →
      Taken s .resume next

theorem step_taken (taken : step s action = some next) : Taken s action next := by
  unfold step at taken
  split at taken
  case h_1 idle => exact .established idle taken
  case h_2 idle => cases taken; exact .handleAnyEvent idle
  case h_3 idle => exact .handleRead idle taken
  case h_4 idle => exact .handleWrite idle taken
  case h_5 idle => cases taken; exact .handleClose idle
  case h_6 idle => cases taken; exact .handleError idle
  case h_7 idle => exact .timerDestroy idle taken
  case h_8 =>
    split at taken
    · rename_i control; exact .send control taken
    · cases taken
  case h_9 =>
    split at taken
    · rename_i control; cases taken; exact .shutDown control
    · cases taken
  case h_10 =>
    split at taken
    · rename_i control; cases taken; exact .enableInactiveRelease control
    · cases taken
  case h_11 =>
    split at taken
    · rename_i control; cases taken; exact .cancelInactiveRelease control
    · cases taken
  case h_12 top =>
    obtain ⟨left,moved,equal⟩ := Option.bind_eq_some_iff.mp taken
    cases equal
    exact .consume top moved
  case h_13 top =>
    split at taken
    · rename_i user; cases taken; exact .ret top user
    · cases taken
  case h_14 top => exact .resume top taken
  case h_15 => cases taken

end LinuxOS.Muduo.Connection
