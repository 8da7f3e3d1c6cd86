import LinuxOS.Muduo.HalfClose

namespace LinuxOS.Muduo.Connection

-- What the loop does to a connection; the calls that a callback makes and its
-- return are steps of their own.
def isEvent : Action → Bool
  | .handleAnyEvent | .handleRead _ | .handleWrite _ | .handleClose | .handleError | .timerDestroy _ _
  | .enableInactiveRelease | .cancelInactiveRelease => true
  | _ => false

def received (conn : Connection) : Action → Bytes
  | .handleRead (.data bytes) => if conn.status = .disconnected then [] else bytes
  | _ => []

variable {s next conn last : Connection} {frame : Frame} {rest : List Frame} {got : RecvResult} {action : Action}
  {payload bytes : Bytes}

def Clear (stack : List Frame) : Prop := ∀ frame ∈ stack, frame ≠ .mess false

def Ready (s : Connection) : Prop :=
  Clear s.stack ∨ ∃ rest, s.stack = .mess false :: rest ∧ Clear rest ∧ s.inBuffer.readable ≠ []

structure SameInput (s next : Connection) : Prop where
  messCb : next.messCb = s.messCb
  inBuffer : next.inBuffer = s.inBuffer

theorem clear_push (clear : Clear s.stack) (other : frame ≠ .mess false) : Clear (s.push frame).stack := by
  intro member found
  rcases List.mem_cons.mp found with rfl | old
  · exact other
  · exact clear member old

theorem clear_head (clear : Clear s.stack) : s.stack.head? ≠ some (.mess false) := by
  intro top
  cases stack : s.stack with
  | nil => rw [stack] at top; cases top
  | cons frame rest =>
    rw [stack] at top
    exact clear frame (by rw [stack]; exact List.mem_cons_self) (Option.some.inj top)

theorem mess_clear (clear : Clear rest) : Clear (.mess true :: rest) := by
  intro member found
  rcases List.mem_cons.mp found with rfl | old
  · nofun
  · exact clear member old

theorem mess_input (s : Connection) : SameInput s s.messOnInput := by
  rcases s.messOnInput_cases with same | pushed
  · rw [same]; exact ⟨rfl,rfl⟩
  · rw [pushed]; exact ⟨rfl,rfl⟩

theorem mess_ready (clear : Clear s.stack) : Ready s.messOnInput := by
  unfold messOnInput
  split
  · rename_i due
    refine .inr ⟨s.stack,rfl,clear,List.ne_nil_of_length_pos ?_⟩
    exact s.inBuffer.readable_length.symm ▸ due.1
  · exact .inl clear

theorem mess_due (set : s.messCb = true) (input : s.inBuffer.readable ≠ []) :
    s.messOnInput.stack.head? = some (.mess false) := by
  have some_left : 0 < s.inBuffer.readableSize := s.inBuffer.readable_length ▸ List.length_pos_of_ne_nil input
  rw [messOnInput,if_pos ⟨some_left,set⟩]; rfl

theorem release_clear (clear : Clear s.stack) : Clear s.releaseInLoop.stack := by
  rcases s.release_facts.calls with ⟨stack,_⟩ | ⟨stack,_⟩
  · rw [stack]
    have below : Clear (s.push .serverClose).stack := clear_push clear nofun
    exact clear_push below nofun
  · rw [stack]; exact clear

theorem serverClose_input (s : Connection) : SameInput s s.serverClose := by
  unfold serverClose
  split
  · exact ⟨rfl,rfl⟩
  · exact ⟨rfl,rfl⟩

theorem closeCallbacks_input {closing : Connection} (messCb : closing.messCb = s.messCb)
    (inBuffer : closing.inBuffer = s.inBuffer) : SameInput s closing.closeCallbacks := by
  unfold closeCallbacks
  split
  · exact ⟨messCb,inBuffer⟩
  · have same := serverClose_input closing
    exact ⟨same.messCb.trans messCb,same.inBuffer.trans inBuffer⟩

theorem release_input {closing : Connection} (messCb : closing.messCb = s.messCb)
    (inBuffer : closing.inBuffer = s.inBuffer) : SameInput s closing.releaseInLoop := by
  unfold releaseInLoop
  dsimp only
  split
  · unfold cancelInactiveReleaseInLoop
    split
    · exact closeCallbacks_input messCb inBuffer
    · exact closeCallbacks_input messCb inBuffer
  · exact closeCallbacks_input messCb inBuffer

theorem shutDown_input (s : Connection) : SameInput s s.shutDownInLoop := by
  have same := mess_input (push {s with status := .disconnecting} .shutDown)
  exact ⟨same.messCb,same.inBuffer⟩

theorem shutDown_ready (clear : Clear s.stack) : Ready s.shutDownInLoop := by
  have pushed : Clear (push {s with status := .disconnecting} .shutDown).stack := clear_push clear nofun
  exact mess_ready pushed

theorem shutDown_active (s : Connection) : s.shutDownInLoop.status ≠ .disconnected := by
  rw [shutDownInLoop,(closing_mess _).2]
  exact ConnStatus.noConfusion

theorem resume_input (clear : Clear s.stack) (taken : resume s frame = some next) :
    Clear next.stack ∧ SameInput s next := by
  cases frame with
  | handleAnyEvent => cases taken; exact ⟨clear,rfl,rfl⟩
  | handleWriteError =>
    cases taken
    exact ⟨release_clear (clear_push clear nofun),release_input rfl rfl⟩
  | handleWriteTail =>
    cases taken
    unfold handleWriteTail
    split
    · dsimp only
      split
      · exact ⟨release_clear (s := s.disableWrite) clear,release_input rfl rfl⟩
      · exact ⟨clear,rfl,rfl⟩
    · exact ⟨clear,rfl,rfl⟩
  | handleClose => cases taken; exact ⟨release_clear clear,release_input rfl rfl⟩
  | shutDown =>
    cases taken
    unfold shutDownTail
    split
    · exact ⟨release_clear clear,release_input rfl rfl⟩
    · split
      · exact ⟨clear,rfl,rfl⟩
      · exact ⟨clear,rfl,rfl⟩
  | serverClose =>
    cases taken
    exact ⟨by rw [(serverClose_facts s).1]; exact clear,serverClose_input s⟩
  | timerRelease => cases taken; exact ⟨clear,rfl,rfl⟩
  | conn | anyEvent | closed | mess => cases taken

theorem top_input (clear : Clear s.stack) (top : s.stack = frame :: rest)
    (taken : s.step (if frame.isUser then .ret else .resume) = some next) : Clear next.stack ∧ SameInput s next := by
  have below : Clear rest := fun member found => clear member (by rw [top]; exact List.mem_cons_of_mem _ found)
  split at taken
  · cases step_taken taken with
    | ret same => rw [top] at same; cases same; exact ⟨below,rfl,rfl⟩
  · cases step_taken taken with
    | @resume _ left _ same ran =>
      rw [top] at same
      cases same
      obtain ⟨clear,input⟩ := resume_input (s := {s with stack := rest}) below ran
      exact ⟨clear,input.messCb,input.inBuffer⟩

theorem clear_empty (idle : s.stack = []) : Clear s.stack := by
  intro member found
  rw [idle] at found; cases found

structure Arrived (s next : Connection) (bytes : Bytes) : Prop where
  idle : s.stack = []
  messCb : next.messCb = s.messCb
  ready : Ready next
  readable : next.inBuffer.readable = s.inBuffer.readable ++ bytes
  pending : bytes = [] ∨ next.stack.head? = some (.mess false) ∧ next.status ≠ .disconnected

theorem arrived_none (idle : s.stack = []) (input : SameInput s next) (ready : Ready next) : Arrived s next [] :=
  ⟨idle,input.messCb,ready,by rw [input.inBuffer,List.append_nil],.inl rfl⟩

theorem read_arrived (idle : s.stack = []) (set : s.messCb = true) (taken : s.handleRead got = some next) :
    Arrived s next (received s (.handleRead got)) := by
  have clear := clear_empty idle
  unfold handleRead at taken
  split at taken
  · rename_i gone
    cases taken
    cases got with
    | data bytes =>
      rw [received,if_pos gone]
      exact arrived_none idle ⟨rfl,rfl⟩ (.inl clear)
    | again | error | eof => exact arrived_none idle ⟨rfl,rfl⟩ (.inl clear)
  · rename_i active
    cases got with
    | again => cases taken; exact arrived_none idle ⟨rfl,rfl⟩ (.inl clear)
    | error | eof => cases taken; exact arrived_none idle (shutDown_input s) (shutDown_ready clear)
    | data bytes =>
      dsimp only at taken
      split at taken
      · rename_i size
        obtain ⟨filled,written,equal⟩ := Option.bind_eq_some_iff.mp taken
        obtain ⟨buffer,pushed,readable⟩ := s.inBuffer.writeAndPush_spec bytes
        rw [written] at pushed
        cases pushed
        cases equal
        have input := mess_input {s with inBuffer := filled}
        have nonempty : filled.readable ≠ [] := by
          rw [readable]
          exact List.append_ne_nil_of_right_ne_nil _ (List.ne_nil_of_length_pos size.1)
        rw [received,if_neg active]
        refine ⟨idle,input.messCb,mess_ready (s := {s with inBuffer := filled}) clear,?_,.inr ⟨?_,?_⟩⟩
        · rw [input.inBuffer]; exact readable
        · exact mess_due (s := {s with inBuffer := filled}) set nonempty
        · rw [(closing_mess {s with inBuffer := filled}).2]; exact active
      · cases taken

theorem write_arrived (idle : s.stack = []) (taken : s.handleWrite result = some next) : Arrived s next [] := by
  have clear := clear_empty idle
  obtain ⟨⟨str,out⟩,_,taken⟩ := Option.bind_eq_some_iff.mp taken
  cases result with
  | error =>
    cases taken
    have pushed : Clear (push {s with outBuffer := out} .handleWriteError).stack := clear_push clear nofun
    have input := mess_input (push {s with outBuffer := out} .handleWriteError)
    exact arrived_none idle ⟨input.messCb,input.inBuffer⟩ (mess_ready pushed)
  | again =>
    dsimp only at taken
    split at taken
    · cases taken
      exact arrived_none idle ⟨rfl,rfl⟩ (.inl (clear_push (s := {s with outBuffer := out}) clear nofun))
    · cases taken
  | count size =>
    dsimp only at taken
    split at taken
    · cases taken
      refine arrived_none idle ⟨rfl,rfl⟩ (.inl ?_)
      exact clear_push (s := {s with outBuffer := out, accepted := s.accepted ++ str.take size}) clear nofun
    · cases taken

theorem close_arrived (idle : s.stack = []) : Arrived s s.handleClose [] := by
  have pushed : Clear (s.push .handleClose).stack := clear_push (clear_empty idle) nofun
  have input := mess_input (s.push .handleClose)
  exact arrived_none idle ⟨input.messCb,input.inBuffer⟩ (mess_ready pushed)

theorem anyEvent_arrived (idle : s.stack = []) : Arrived s s.handleAnyEvent [] := by
  have pushed : Clear (s.push .handleAnyEvent).stack := clear_push (clear_empty idle) nofun
  unfold handleAnyEvent
  dsimp only
  split
  · exact arrived_none idle ⟨rfl,rfl⟩ (.inl (clear_push (s := s.push .handleAnyEvent) pushed nofun))
  · exact arrived_none idle ⟨rfl,rfl⟩ (.inl pushed)

theorem timer_arrived (idle : s.stack = []) (taken : s.timerDestroy key cancelled = some next) :
    Arrived s next [] := by
  have clear := clear_empty idle
  unfold timerDestroy at taken
  split at taken
  · cases taken
    dsimp only
    split
    · exact arrived_none idle ⟨rfl,rfl⟩ (.inl clear)
    · refine arrived_none idle (release_input rfl rfl) (.inl (release_clear ?_))
      exact clear_push (s := {s with tasks := s.tasks.erase (key,cancelled)}) clear nofun
  · cases taken

theorem event_arrived (set : s.messCb = true) (event : isEvent action = true)
    (taken : s.step action = some next) :
    (next.stack = s.stack ∧ next.status = s.status ∧ SameInput s next ∧ received s action = []) ∨
      Arrived s next (received s action) := by
  cases step_taken taken with
  | handleAnyEvent idle => exact .inr (anyEvent_arrived idle)
  | handleRead idle ran => exact .inr (read_arrived idle set ran)
  | handleWrite idle ran => exact .inr (write_arrived idle ran)
  | handleClose idle => exact .inr (close_arrived idle)
  | handleError idle => exact .inr (close_arrived idle)
  | timerDestroy idle ran => exact .inr (timer_arrived idle ran)
  | enableInactiveRelease =>
    unfold enableInactiveReleaseInLoop
    split
    · exact .inl ⟨rfl,rfl,⟨rfl,rfl⟩,rfl⟩
    · exact .inl ⟨rfl,rfl,⟨rfl,rfl⟩,rfl⟩
  | cancelInactiveRelease =>
    unfold cancelInactiveReleaseInLoop
    split
    · exact .inl ⟨rfl,rfl,⟨rfl,rfl⟩,rfl⟩
    · exact .inl ⟨rfl,rfl,⟨rfl,rfl⟩,rfl⟩
  | established | send | shutDown | consume | ret | resume => cases event

def maxRead : Nat := 65536

-- The one way into the input buffer.
structure Filled (s next : Connection) (bytes : Bytes) : Prop where
  some' : bytes ≠ []
  short : bytes.length ≤ maxRead
  written : s.inBuffer.writeAndPush bytes = some next.inBuffer

theorem read_input (taken : s.handleRead got = some next) : SameInput s next ∨ ∃ bytes, Filled s next bytes := by
  unfold handleRead at taken
  split at taken
  · cases taken; exact .inl ⟨rfl,rfl⟩
  · cases got with
    | again => cases taken; exact .inl ⟨rfl,rfl⟩
    | error | eof => cases taken; exact .inl (shutDown_input s)
    | data bytes =>
      dsimp only at taken
      split at taken
      · rename_i size
        obtain ⟨filled,written,equal⟩ := Option.bind_eq_some_iff.mp taken
        cases equal
        have input := mess_input {s with inBuffer := filled}
        exact .inr ⟨bytes,List.ne_nil_of_length_pos size.1,size.2,by rw [input.inBuffer]; exact written⟩
      · cases taken

theorem write_input (taken : s.handleWrite result = some next) : SameInput s next := by
  obtain ⟨⟨str,out⟩,_,taken⟩ := Option.bind_eq_some_iff.mp taken
  cases result with
  | error =>
    cases taken
    have input := mess_input (push {s with outBuffer := out} .handleWriteError)
    exact ⟨input.messCb,input.inBuffer⟩
  | again | count =>
    dsimp only at taken
    split at taken
    · cases taken; exact ⟨rfl,rfl⟩
    · cases taken

theorem close_input (s : Connection) : SameInput s s.handleClose := by
  have input := mess_input (s.push .handleClose)
  exact ⟨input.messCb,input.inBuffer⟩

theorem anyEvent_input (s : Connection) : SameInput s s.handleAnyEvent := by
  unfold handleAnyEvent
  dsimp only
  split
  · exact ⟨rfl,rfl⟩
  · exact ⟨rfl,rfl⟩

theorem timer_input (taken : s.timerDestroy key cancelled = some next) : SameInput s next := by
  unfold timerDestroy at taken
  split at taken
  · cases taken
    dsimp only
    split
    · exact ⟨rfl,rfl⟩
    · exact release_input rfl rfl
  · cases taken

theorem event_input (event : isEvent action = true) (taken : s.step action = some next) :
    SameInput s next ∨ ∃ bytes, Filled s next bytes := by
  cases step_taken taken with
  | handleAnyEvent => exact .inl (anyEvent_input s)
  | handleRead _ ran => exact read_input ran
  | handleWrite _ ran => exact .inl (write_input ran)
  | handleClose => exact .inl (close_input s)
  | handleError => exact .inl (close_input s)
  | timerDestroy _ ran => exact .inl (timer_input ran)
  | enableInactiveRelease =>
    unfold enableInactiveReleaseInLoop
    split
    · exact .inl ⟨rfl,rfl⟩
    · exact .inl ⟨rfl,rfl⟩
  | cancelInactiveRelease =>
    unfold cancelInactiveReleaseInLoop
    split
    · exact .inl ⟨rfl,rfl⟩
    · exact .inl ⟨rfl,rfl⟩
  | established | send | shutDown | consume | ret | resume => cases event

theorem send_frame (taken : conn.sendInLoop payload = some last) :
    last.stack = conn.stack ∧ last.status = conn.status ∧ SameInput conn last := by
  unfold sendInLoop at taken
  split at taken
  · cases taken; exact ⟨rfl,rfl,rfl,rfl⟩
  · obtain ⟨out,_,equal⟩ := Option.bind_eq_some_iff.mp taken
    cases equal
    dsimp only
    split
    · exact ⟨rfl,rfl,rfl,rfl⟩
    · exact ⟨rfl,rfl,rfl,rfl⟩

theorem event_sent (event : isEvent action = true) (taken : conn.step action = some last) :
    last.sent = conn.sent := by
  cases step_taken taken with
  | handleAnyEvent => exact silent_handleAnyEvent.output.sent
  | handleRead _ ran => exact (silent_handleRead ran).output.sent
  | handleWrite _ ran => exact (handleWrite_output ran).2.2.1
  | handleClose | handleError => exact silent_handleClose.output.sent
  | timerDestroy _ ran => exact (silent_timerDestroy ran).output.sent
  | enableInactiveRelease => exact silent_enableInactive.output.sent
  | cancelInactiveRelease => exact silent_cancelInactive.output.sent
  | established | send | shutDown | consume | ret | resume => cases event

theorem top_silent (taken : conn.step (if frame.isUser then .ret else .resume) = some last) : Silent conn last := by
  split at taken
  · cases step_taken taken with
    | ret => exact silent_same rfl rfl rfl rfl rfl
  · cases step_taken taken with
    | @resume _ rest _ _ ran =>
      have popped : Silent conn {conn with stack := rest} := silent_same rfl rfl rfl rfl rfl
      exact popped.trans (silent_resume ran)

theorem silent_output (silent : Silent conn last) (kept : Kept conn) (shut : Shut conn) : Kept last ∧ Shut last := by
  refine ⟨?_,silent.shut shut⟩
  rw [Kept,silent.output.accepted,silent.output.outBuffer,silent.output.sent]
  exact kept

theorem send_sent (taken : conn.sendInLoop payload = some last) (active : conn.status ≠ .disconnected) :
    last.sent = conn.sent ++ payload := by
  unfold sendInLoop at taken
  rw [if_neg active] at taken
  obtain ⟨out,_,equal⟩ := Option.bind_eq_some_iff.mp taken
  cases equal
  dsimp only
  split
  · rfl
  · rfl

end LinuxOS.Muduo.Connection
