import LinuxOS.Muduo.LoopEvents

namespace LinuxOS.Muduo
open Connection

-- A connection of the echo server. `received` is history: what recv has put
-- into the input buffer.
structure EchoServer where
  conn : Connection := {}
  received : Bytes := []

namespace EchoServer

-- OnMessage: everything readable is taken out of the buffer and queued.
def onMessage (s : EchoServer) (rest : List Frame) : Option EchoServer :=
  let called := {s.conn with stack := .mess true :: rest}
  if 0 < s.conn.inBuffer.readableSize then do
    let (data,left) ← s.conn.inBuffer.readStringAndPop s.conn.inBuffer.readableSize
    let conn ← sendInLoop {called with inBuffer := left} data
    return {s with conn := conn}
  else some {s with conn := called}

inductive Action where
  | established
  | event (action : Connection.Action)
  | callback

def step (s : EchoServer) : Action → Option EchoServer
  | .established => (s.conn.step .established).map fun conn => {s with conn := conn}
  | .event action =>
    if isEvent action then
      (s.conn.step action).map fun conn => {
        conn := conn
        received := s.received ++ Connection.received s.conn action}
    else none
  | .callback =>
    match s.conn.stack with
    | [] => none
    | .mess false :: rest => s.onMessage rest
    | frame :: _ => (s.conn.step (if frame.isUser then .ret else .resume)).map fun conn => {s with conn := conn}

def Writes (s : EchoServer) : Action → Prop
  | .event action => WholeWrite s.conn action
  | _ => True

variable {s next : EchoServer} {conn last : Connection} {frame : Frame} {rest : List Frame}
  {actions : List Action}

-- What was read has been queued to be sent, up to what OnMessage is just about
-- to take; then the connection is still there.
structure Echoes (s : EchoServer) : Prop where
  messCb : s.conn.messCb = true
  ready : Clear s.conn.stack ∧ s.conn.inBuffer.readable = [] ∨
    s.conn.status ≠ .disconnected ∧ ∃ rest, s.conn.stack = .mess false :: rest ∧ Clear rest
  queued : s.conn.sent ++ s.conn.inBuffer.readable = s.received

theorem fresh_echoes (fresh : Fresh conn) (set : conn.messCb = true) (empty : conn.inBuffer.readable = []) :
    Echoes {conn := conn} := by
  refine ⟨set,.inl ⟨clear_empty fresh.stack,empty⟩,?_⟩
  show conn.sent ++ conn.inBuffer.readable = []
  rw [fresh.sent,empty]; rfl

theorem Echoes.idle (echoes : Echoes s) (idle : s.conn.stack = []) : s.conn.inBuffer.readable = [] := by
  rcases echoes.ready with seen | ⟨_,rest,top,_⟩
  · exact seen.2
  · rw [idle] at top; cases top

theorem established_input (idle : conn.stack = []) (taken : conn.establishedInLoop = some last) :
    Clear last.stack ∧ SameInput conn last := by
  unfold establishedInLoop at taken
  split at taken
  · have clear : Clear (enableRead {conn with status := .connected}).stack := clear_empty idle
    cases taken
    split
    · exact ⟨clear_push clear nofun,rfl,rfl⟩
    · exact ⟨clear,rfl,rfl⟩
  · cases taken

theorem established_echoes (echoes : Echoes s) (taken : s.conn.step .established = some conn) :
    Echoes {s with conn := conn} := by
  cases step_taken taken with
  | established idle ran =>
    obtain ⟨clear,input⟩ := established_input idle ran
    refine ⟨input.messCb.trans echoes.messCb,.inl ⟨clear,by rw [input.inBuffer]; exact echoes.idle idle⟩,?_⟩
    show conn.sent ++ conn.inBuffer.readable = _
    rw [(silent_established ran).output.sent,input.inBuffer]
    exact echoes.queued

theorem event_echoes (echoes : Echoes s) (event : isEvent action = true)
    (taken : s.conn.step action = some conn) :
    Echoes {conn := conn, received := s.received ++ Connection.received s.conn action} := by
  have sent := event_sent event taken
  rcases event_arrived echoes.messCb event taken with ⟨stack,status,input,none⟩ | arrived
  · refine ⟨input.messCb.trans echoes.messCb,?_,?_⟩
    · show Clear conn.stack ∧ conn.inBuffer.readable = [] ∨ conn.status ≠ .disconnected ∧ ∃ rest, conn.stack = _ ∧ _
      rw [stack,status,input.inBuffer]
      exact echoes.ready
    · rw [none,List.append_nil,← echoes.queued,sent,input.inBuffer]
  · have empty := echoes.idle arrived.idle
    have filled := arrived.readable
    rw [empty,List.nil_append] at filled
    refine ⟨arrived.messCb.trans echoes.messCb,?_,?_⟩
    · rcases arrived.ready with clear | ⟨rest,top,below,some_input⟩
      · left
        refine ⟨clear,?_⟩
        rcases arrived.pending with none | ⟨top,_⟩
        · exact filled.trans none
        · exact absurd top (clear_head clear)
      · rcases arrived.pending with none | ⟨_,active⟩
        · exact absurd (filled.trans none) some_input
        · exact .inr ⟨active,rest,top,below⟩
    · show conn.sent ++ conn.inBuffer.readable = _
      rw [sent,filled,← echoes.queued,empty,List.append_nil]

theorem top_echoes (echoes : Echoes s) (top : s.conn.stack = frame :: rest) (other : frame ≠ .mess false)
    (taken : s.conn.step (if frame.isUser then .ret else .resume) = some conn) : Echoes {s with conn := conn} := by
  rcases echoes.ready with ⟨clear,empty⟩ | ⟨_,below,same,_⟩
  · obtain ⟨kept,input⟩ := top_input clear top taken
    refine ⟨input.messCb.trans echoes.messCb,.inl ⟨kept,by rw [input.inBuffer]; exact empty⟩,?_⟩
    show conn.sent ++ conn.inBuffer.readable = _
    rw [(top_silent taken).output.sent,input.inBuffer]
    exact echoes.queued
  · rw [top] at same
    cases same
    exact absurd rfl other

theorem readAll (b : Buffer) (some_input : 0 < b.readableSize) :
    ∃ left, b.readStringAndPop b.readableSize = some (b.readable,left) ∧ left.readable = [] := by
  have size := b.readable_length
  obtain ⟨left,popped,kept⟩ := b.readStringAndPop_spec (Nat.le_of_eq size.symm) some_input
  rw [← size,List.take_length] at popped
  rw [← size,List.drop_length] at kept
  exact ⟨left,by rw [← size]; exact popped,kept⟩

theorem onMessage_echoes (echoes : Echoes s) (top : s.conn.stack = .mess false :: rest)
    (ran : s.onMessage rest = some next) : Echoes next := by
  obtain ⟨active,below⟩ : s.conn.status ≠ .disconnected ∧ Clear rest := by
    rcases echoes.ready with ⟨clear,_⟩ | ⟨active,_,same,below⟩
    · exact absurd (by rw [top]; rfl) (clear_head clear)
    · rw [top] at same
      cases same
      exact ⟨active,below⟩
  unfold onMessage at ran
  dsimp only at ran
  split at ran
  · rename_i some_input
    obtain ⟨left,popped,empty⟩ := readAll s.conn.inBuffer some_input
    obtain ⟨parts,first,ran⟩ := Option.bind_eq_some_iff.mp ran
    rw [popped] at first
    cases first
    obtain ⟨conn,sends,equal⟩ := Option.bind_eq_some_iff.mp ran
    cases equal
    obtain ⟨stack,_,input⟩ := send_frame sends
    have unread : conn.inBuffer.readable = [] := (congrArg Buffer.readable input.inBuffer).trans empty
    refine ⟨input.messCb.trans echoes.messCb,.inl ⟨?_,unread⟩,?_⟩
    · show Clear conn.stack
      rw [stack]
      exact mess_clear below
    · show conn.sent ++ conn.inBuffer.readable = s.received
      rw [unread,List.append_nil,send_sent sends active]
      exact echoes.queued
  · rename_i nothing
    cases ran
    refine ⟨echoes.messCb,.inl ⟨mess_clear below,?_⟩,echoes.queued⟩
    exact List.eq_nil_of_length_eq_zero (s.conn.inBuffer.readable_length.trans (Nat.eq_zero_of_not_pos nothing))

theorem step_echoes (s : EchoServer) (action : Action) (next : EchoServer) (echoes : Echoes s)
    (ran : step s action = some next) : Echoes next := by
  cases action with
  | established =>
    obtain ⟨conn,taken,equal⟩ := Option.map_eq_some_iff.mp ran
    cases equal
    exact established_echoes echoes taken
  | event action =>
    simp only [step] at ran
    split at ran
    · rename_i event
      obtain ⟨conn,taken,equal⟩ := Option.map_eq_some_iff.mp ran
      cases equal
      exact event_echoes echoes event taken
    · cases ran
  | callback =>
    simp only [step] at ran
    split at ran
    · cases ran
    · rename_i rest top
      exact onMessage_echoes echoes top ran
    · rename_i frame rest other top
      obtain ⟨conn,taken,equal⟩ := Option.map_eq_some_iff.mp ran
      cases equal
      exact top_echoes echoes top other taken

theorem onMessage_output (ran : s.onMessage rest = some next) (kept : Kept s.conn) (shut : Shut s.conn) :
    Kept next.conn ∧ Shut next.conn := by
  unfold onMessage at ran
  dsimp only at ran
  split at ran
  · obtain ⟨⟨data,left⟩,_,ran⟩ := Option.bind_eq_some_iff.mp ran
    obtain ⟨conn,sends,equal⟩ := Option.bind_eq_some_iff.mp ran
    cases equal
    exact send_output (by exact kept) (by exact shut) sends
  · cases ran
    exact ⟨kept,shut⟩

theorem step_output (s : EchoServer) (action : Action) (next : EchoServer) (holds : Kept s.conn ∧ Shut s.conn)
    (writes : Writes s action) (ran : step s action = some next) : Kept next.conn ∧ Shut next.conn := by
  cases action with
  | established =>
    obtain ⟨conn,taken,equal⟩ := Option.map_eq_some_iff.mp ran
    cases equal
    exact step_kept s.conn .established conn holds (fun _ same => nomatch same) taken
  | event action =>
    simp only [step] at ran
    split at ran
    · obtain ⟨conn,taken,equal⟩ := Option.map_eq_some_iff.mp ran
      cases equal
      exact step_kept _ _ _ holds writes taken
    · cases ran
  | callback =>
    simp only [step] at ran
    split at ran
    · cases ran
    · exact onMessage_output ran holds.1 holds.2
    · obtain ⟨conn,taken,equal⟩ := Option.map_eq_some_iff.mp ran
      cases equal
      exact silent_output (top_silent taken) holds.1 holds.2

theorem received_echoed (fresh : Fresh conn) (set : conn.messCb = true) (empty : conn.inBuffer.readable = [])
    (ran : Machine.run step {conn := conn} actions = some s) :
    s.conn.sent <+: s.received ∧ (s.conn.stack = [] → s.conn.sent = s.received) ∧
      (Machine.Throughout step Writes {conn := conn} actions → s.conn.accepted <+: s.received ∧
        (s.conn.stack = [] → s.conn.outBuffer.readable = [] → s.conn.accepted = s.received)) := by
  have echoes : Echoes s := Machine.run_invariant step_echoes (fresh_echoes fresh set empty) ran
  have starts : s.conn.sent <+: s.received := ⟨_,echoes.queued⟩
  have all : s.conn.stack = [] → s.conn.sent = s.received := by
    intro idle
    rw [← echoes.queued,echoes.idle idle,List.append_nil]
  refine ⟨starts,all,fun writes => ?_⟩
  have start : Kept conn ∧ Shut conn := fresh_kept fresh
  have kept := (Machine.run_keeps step_output start writes ran).1
  refine ⟨List.IsPrefix.trans ⟨_,kept⟩ starts,fun idle drained => ?_⟩
  rw [← all idle,← kept,drained,List.append_nil]

def twoReads : List Action :=
  [.established,.callback,.event (.handleRead (.data [1,2])),.callback,.callback,
    .event (.handleWrite (.count 2)),.callback,.event (.handleRead (.data [3])),.callback,.callback,
    .event (.handleRead .eof),.callback,.event (.handleWrite (.count 1)),.callback,.callback,.callback]

instance (s : EchoServer) (action : Action) : Decidable (Writes s action) :=
  match action with
  | .established | .callback => .isTrue trivial
  | .event action => inferInstanceAs (Decidable (WholeWrite s.conn action))

theorem received_echoed_twice : ∃ s : EchoServer, Machine.run step {} twoReads = some s ∧ s.received = [1,2,3] ∧
    s.conn.sent = s.received ∧ s.conn.accepted = s.received := by
  have ends : (Machine.run step {} twoReads).map (fun s => (s.received,s.conn.stack,s.conn.outBuffer.readable)) =
      some ([1,2,3],[],[]) := by decide +kernel
  obtain ⟨s,ran,looks⟩ := Option.map_eq_some_iff.mp ends
  simp only [Prod.mk.injEq] at looks
  obtain ⟨received,idle,drained⟩ := looks
  obtain ⟨_,queued,whole⟩ := received_echoed fresh_start rfl Buffer.readable_start ran
  exact ⟨s,ran,received,queued idle,(whole (by decide +kernel)).2 idle drained⟩

end EchoServer
end LinuxOS.Muduo
