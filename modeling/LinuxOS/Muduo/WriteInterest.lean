import LinuxOS.Muduo.OutputHistory

namespace LinuxOS.Muduo.Connection
variable {s middle next : Connection} {frame : Frame} {rest : List Frame} {received : RecvResult}
  {result : SendResult} {message : Bytes} {key : Nat} {cancelled : Bool} {action : Action}

def Flushing (s : Connection) : Prop := .handleWriteError ∈ s.stack ∨ .handleWriteTail ∈ s.stack

def Pending (s : Connection) : Prop := 0 < s.outBuffer.readableSize

-- EPOLLOUT is on only while there is output, or until HandleWrite is done.
def Interest (s : Connection) : Prop := s.channel.writeable = true → s.Pending ∨ s.Flushing

structure Calm (s next : Connection) : Prop where
  quiet : next.channel.writeable = true → s.channel.writeable = true
  flushing : s.Flushing → next.Flushing

theorem Calm.trans (left : Calm s middle) (right : Calm middle next) : Calm s next :=
  ⟨fun on => left.quiet (right.quiet on),fun flushing => right.flushing (left.flushing flushing)⟩

theorem flushing_stack (kept : ∀ frame ∈ s.stack, frame ∈ next.stack) (flushing : s.Flushing) : next.Flushing :=
  flushing.imp (kept _) (kept _)

theorem calm_same (writeable : next.channel.writeable = s.channel.writeable) (stack : next.stack = s.stack) :
    Calm s next :=
  ⟨fun on => writeable ▸ on,flushing_stack fun _ member => by rw [stack]; exact member⟩

theorem calm_refl : Calm s s := calm_same rfl rfl

theorem calm_push : Calm s (s.push frame) :=
  ⟨fun on => on,flushing_stack fun _ member => List.mem_cons_of_mem _ member⟩

theorem calm_mess : Calm s s.messOnInput := by
  rcases s.messOnInput_cases with same | pushed
  · rw [same]; exact calm_refl
  · rw [pushed]; exact calm_push

theorem serverClose_writeable (s : Connection) : s.serverClose.channel = s.channel := by
  unfold serverClose
  split <;> rfl

theorem release_unwatched (s : Connection) : s.releaseInLoop.channel.writeable = false := by
  have closing : ∀ closing : Connection, closing.channel = {} → closing.closeCallbacks.channel.writeable = false := by
    intro closing removed
    unfold closeCallbacks
    split
    · simp [push,removed]
    · rw [serverClose_writeable,removed]
  unfold releaseInLoop
  dsimp only
  split
  · unfold cancelInactiveReleaseInLoop
    split <;> exact closing _ rfl
  · exact closing _ rfl

theorem calm_release : Calm s s.releaseInLoop := by
  constructor
  · rw [s.release_unwatched]; exact fun on => absurd on (by simp)
  · apply flushing_stack
    intro frame member
    rcases s.release_facts.calls with ⟨stack,_⟩ | ⟨stack,_⟩
    · rw [stack]; simp [member]
    · rw [stack]; exact member

theorem calm_shutDown : Calm s s.shutDownInLoop := by
  have entered : Calm s (push {s with status := .disconnecting} .shutDown) :=
    ⟨fun on => on,flushing_stack fun _ member => List.mem_cons_of_mem _ member⟩
  exact entered.trans calm_mess

theorem calm_serverClose : Calm s s.serverClose := by
  refine calm_same (by rw [serverClose_writeable]) ?_
  exact s.serverClose_facts.1

theorem calm_handleClose : Calm s s.handleClose := calm_push.trans calm_mess

theorem calm_handleAnyEvent : Calm s s.handleAnyEvent := by
  unfold handleAnyEvent
  dsimp only
  split
  · exact calm_push.trans calm_push
  · exact calm_push

theorem calm_handleRead (taken : s.handleRead received = some next) : Calm s next := by
  unfold handleRead at taken
  split at taken
  · cases taken; exact calm_refl
  · cases received with
    | again => cases taken; exact calm_refl
    | error | eof => cases taken; exact calm_shutDown
    | data bytes =>
      dsimp only at taken
      split at taken
      · obtain ⟨filled,_,equal⟩ := Option.bind_eq_some_iff.mp taken
        cases equal
        have fill : Calm s {s with inBuffer := filled} := calm_same rfl rfl
        exact fill.trans calm_mess
      · cases taken

theorem calm_established (taken : s.establishedInLoop = some next) : Calm s next := by
  unfold establishedInLoop at taken
  split at taken
  · have reading : Calm s (enableRead {s with status := .connected}) := calm_same rfl rfl
    cases taken
    split
    · exact reading.trans calm_push
    · exact reading
  · cases taken

theorem calm_timerDestroy (taken : s.timerDestroy key cancelled = some next) : Calm s next := by
  unfold timerDestroy at taken
  split at taken
  · have dropped : Calm s {s with tasks := s.tasks.erase (key,cancelled)} := calm_same rfl rfl
    cases taken
    dsimp only
    split
    · exact calm_same rfl rfl
    · exact (dropped.trans calm_push).trans calm_release
  · cases taken

theorem calm_enableInactive : Calm s s.enableInactiveReleaseInLoop := by
  unfold enableInactiveReleaseInLoop
  split <;> exact calm_same rfl rfl

theorem calm_cancelInactive : Calm s s.cancelInactiveReleaseInLoop := by
  unfold cancelInactiveReleaseInLoop
  split <;> exact calm_same rfl rfl

theorem calm_pop (top : s.stack = frame :: rest) (other : frame ≠ .handleWriteError ∧ frame ≠ .handleWriteTail) :
    Calm s {s with stack := rest} := by
  refine ⟨fun on => on,fun flushing => ?_⟩
  rw [Flushing,top] at flushing
  simpa [Flushing,Ne.symm other.1,Ne.symm other.2] using flushing

theorem Interest.calm (interest : Interest s) (calm : Calm s next) (output : next.outBuffer = s.outBuffer) :
    Interest next := by
  intro on
  rcases interest (calm.quiet on) with pending | flushing
  · exact .inl (by rw [Pending,output]; exact pending)
  · exact .inr (calm.flushing flushing)

theorem interest_off (off : s.channel.writeable = false) : Interest s := by
  intro on
  rw [off] at on
  cases on

theorem interest_shutDownTail (interest : Interest s) : Interest s.shutDownTail := by
  unfold shutDownTail
  split
  · exact interest_off s.release_unwatched
  · rename_i output
    split
    · exact interest
    · exact fun _ => .inl (Nat.pos_of_ne_zero output)

theorem interest_handleWriteTail : Interest s.handleWriteTail := by
  unfold handleWriteTail
  split
  · dsimp only
    split
    · exact interest_off (release_unwatched _)
    · exact interest_off rfl
  · rename_i output
    exact fun _ => .inl (Nat.pos_of_ne_zero output)

theorem interest_resume (interest : Interest s) (top : s.stack = frame :: rest)
    (taken : resume {s with stack := rest} frame = some next) : Interest next := by
  have popped : frame ≠ .handleWriteError ∧ frame ≠ .handleWriteTail → Interest {s with stack := rest} :=
    fun other => interest.calm (calm_pop top other) rfl
  cases frame with
  | handleAnyEvent | timerRelease => cases taken; exact popped (by simp)
  | handleWriteError | handleClose => cases taken; exact interest_off (release_unwatched _)
  | handleWriteTail => cases taken; exact interest_handleWriteTail
  | shutDown => cases taken; exact interest_shutDownTail (popped (by simp))
  | serverClose =>
    cases taken
    exact (popped (by simp)).calm calm_serverClose silent_serverClose.output.outBuffer
  | conn | anyEvent | closed | mess => cases taken

theorem handleWrite_flushing (taken : s.handleWrite result = some next) : next.Flushing := by
  obtain ⟨⟨str,out⟩,_,taken⟩ := Option.bind_eq_some_iff.mp taken
  cases result with
  | error =>
    cases taken
    have entered : (push {s with outBuffer := out} .handleWriteError).Flushing := .inl List.mem_cons_self
    exact calm_mess.flushing entered
  | again =>
    dsimp only at taken
    split at taken
    · cases taken; exact .inr List.mem_cons_self
    · cases taken
  | count size =>
    dsimp only at taken
    split at taken
    · cases taken; exact .inr List.mem_cons_self
    · cases taken

-- SendInLoop called with nothing to send, on an empty buffer: the call that turns EPOLLOUT on for
-- no output. Where the flag is already on, HandleWrite is running and will turn it off.
def Hollow (s : Connection) (message : Bytes) : Prop :=
  message = [] ∧ s.outBuffer.readableSize = 0 ∧ s.channel.writeable = false ∧ s.status ≠ .disconnected

instance (s : Connection) (message : Bytes) : Decidable (Hollow s message) := by
  unfold Hollow; infer_instance

theorem send_grows (taken : s.sendInLoop message = some next) :
    next = s ∨ next.outBuffer.readable = s.outBuffer.readable ++ message ∧ next.stack = s.stack ∧
      s.status ≠ .disconnected := by
  unfold sendInLoop at taken
  split at taken
  · cases taken; exact .inl rfl
  · rename_i connected
    obtain ⟨out,written,equal⟩ := Option.bind_eq_some_iff.mp taken
    obtain ⟨queue,pushed,readable⟩ := s.outBuffer.writeAndPush_spec message
    rw [written] at pushed
    cases pushed
    cases equal
    dsimp only
    split <;> exact .inr ⟨readable,rfl,connected⟩

theorem interest_send (interest : Interest s) (solid : ¬Hollow s message) (taken : s.sendInLoop message = some next) :
    Interest next := by
  rcases send_grows taken with same | ⟨appended,stack,connected⟩
  · rw [same]; exact interest
  · intro on
    by_cases grown : next.Pending
    · exact .inl grown
    · have length : next.outBuffer.readableSize = s.outBuffer.readableSize + message.length := by
        rw [← Buffer.readable_length,← Buffer.readable_length,appended,List.length_append]
      have nothing : next.outBuffer.readableSize = 0 := Nat.eq_zero_of_not_pos grown
      have empty : message = [] := List.eq_nil_of_length_eq_zero (by omega)
      have drained : s.outBuffer.readableSize = 0 := by omega
      have before : s.channel.writeable = true := by
        by_contra off
        exact solid ⟨empty,drained,by simpa using off,connected⟩
      rcases interest before with pending | flushing
      · exact absurd pending (by rw [Pending,drained]; exact Nat.lt_irrefl 0)
      · exact .inr (flushing_stack (fun _ member => by rw [stack]; exact member) flushing)

theorem interest_step (s : Connection) (action : Action) (next : Connection) (interest : Interest s)
    (solid : ∀ message, action = .send message → ¬Hollow s message) (taken : step s action = some next) :
    Interest next := by
  cases step_taken taken with
  | established _ ran => exact interest.calm (calm_established ran) (silent_established ran).output.outBuffer
  | handleAnyEvent => exact interest.calm calm_handleAnyEvent silent_handleAnyEvent.output.outBuffer
  | handleRead _ ran => exact interest.calm (calm_handleRead ran) (silent_handleRead ran).output.outBuffer
  | handleWrite _ ran => exact fun _ => .inr (handleWrite_flushing ran)
  | handleClose | handleError => exact interest.calm calm_handleClose silent_handleClose.output.outBuffer
  | timerDestroy _ ran => exact interest.calm (calm_timerDestroy ran) (silent_timerDestroy ran).output.outBuffer
  | send _ ran => exact interest_send interest (solid _ rfl) ran
  | shutDown => exact interest.calm calm_shutDown silent_shutDown.output.outBuffer
  | enableInactiveRelease => exact interest.calm calm_enableInactive silent_enableInactive.output.outBuffer
  | cancelInactiveRelease => exact interest.calm calm_cancelInactive silent_cancelInactive.output.outBuffer
  | consume top moved =>
    refine fun on => (interest on).imp (fun pending => pending) fun flushing => ?_
    rw [Flushing,top] at flushing
    simpa [Flushing] using flushing
  | ret top user => exact interest.calm (calm_pop top (by constructor <;> rintro rfl <;> cases user)) rfl
  | resume top ran => exact interest_resume interest top ran

theorem step_pending (taken : step s action = some next) (pending : s.Pending)
    (other : ∀ result, action ≠ .handleWrite result) : next.Pending := by
  have silently : Silent s next → next.Pending := by
    intro silent
    rw [Pending,silent.output.outBuffer]
    exact pending
  cases step_taken taken with
  | established _ ran => exact silently (silent_established ran)
  | handleAnyEvent => exact silently silent_handleAnyEvent
  | handleRead _ ran => exact silently (silent_handleRead ran)
  | handleWrite => exact absurd rfl (other _)
  | handleClose | handleError => exact silently silent_handleClose
  | timerDestroy _ ran => exact silently (silent_timerDestroy ran)
  | send _ ran =>
    rcases send_grows ran with same | ⟨appended,_,_⟩
    · rw [same]; exact pending
    · rw [Pending,← Buffer.readable_length] at pending ⊢
      rw [appended,List.length_append]
      omega
  | shutDown => exact silently silent_shutDown
  | enableInactiveRelease => exact silently silent_enableInactive
  | cancelInactiveRelease => exact silently silent_cancelInactive
  | consume | ret => exact pending
  | @resume frame rest _ _ ran =>
    have popped : Silent s {s with stack := rest} := silent_same rfl rfl rfl rfl rfl
    exact silently (popped.trans (silent_resume ran))

theorem pop_pending (pending : s.Pending) :
    ∃ popped, s.outBuffer.readStringAndPop s.outBuffer.readableSize = some popped := by
  obtain ⟨left,popped,_⟩ := s.outBuffer.readStringAndPop_spec (Nat.le_of_eq s.outBuffer.readable_length.symm) pending
  exact ⟨_,popped⟩

-- Sent while the loop is idle, it leaves a connection whose next HandleWrite fails whatever send does.
theorem hollow_send_breaks (idle : s.stack = []) (hollow : Hollow s message) :
    ∃ next, s.step (.send message) = some next ∧ next.stack = [] ∧ next.registered = true ∧
      next.channel.writeable = true ∧ ∀ result, next.handleWrite result = none := by
  obtain ⟨rfl,drained,off,connected⟩ := hollow
  obtain ⟨out,pushed,readable⟩ := s.outBuffer.writeAndPush_spec []
  have empty : out.readableSize = 0 := by
    rw [← Buffer.readable_length,readable,List.append_nil,Buffer.readable_length,drained]
  have control : s.inLoop = true := by rw [inLoop,idle]
  refine ⟨enableWrite {s with outBuffer := out, sent := s.sent ++ []},?_,idle,rfl,rfl,fun result => ?_⟩
  · simp only [step,control,if_true,sendInLoop,if_neg connected,pushed,Option.bind_eq_bind,Option.bind_some,off]
    rfl
  · have refused : out.readStringAndPop out.readableSize = none := by
      rw [empty,Buffer.readStringAndPop,Buffer.moveReadOffset,dif_neg (by simp)]
      cases out.readString 0 <;> rfl
    simp only [handleWrite,enableWrite,updateEvent,refused]
    rfl

-- The connection with what the loop's last epoll_wait said about its descriptor.
structure Watched where
  connection : Connection
  reported : Bool := false

inductive Event where
  | wait (ready : Bool)
  | act (action : Action)
  deriving DecidableEq, Repr

namespace Watched

-- epoll_wait runs when nothing of the connection does and reports EPOLLOUT only where it is asked
-- for. The report stands until HandleWrite answers it or the next wait, whatever runs in between.
def step (w : Watched) : Event → Option Watched
  | .wait ready =>
    if w.connection.stack = [] ∧
        (ready = true → w.connection.registered = true ∧ w.connection.channel.writeable = true) then
      some {w with reported := ready}
    else none
  | .act (.handleWrite result) =>
    if w.reported then
      (w.connection.step (.handleWrite result)).map fun connection => {connection, reported := false}
    else none
  | .act action => (w.connection.step action).map fun connection => {w with connection}

def Solid (w : Watched) (event : Event) : Prop :=
  match event with
  | .act (.send message) => ¬Hollow w.connection message
  | _ => True

instance (w : Watched) (event : Event) : Decidable (Solid w event) := by
  unfold Solid
  split <;> infer_instance

structure Sound (w : Watched) : Prop where
  interest : w.connection.Interest
  reported : w.reported = true → w.connection.Pending

theorem step_wait {w next : Watched} {ready : Bool} (taken : step w (.wait ready) = some next) :
    w.connection.stack = [] ∧ (ready = true → w.connection.channel.writeable = true) ∧
      next = {w with reported := ready} := by
  obtain ⟨⟨idle,asked⟩,equal⟩ := Option.ite_none_right_eq_some.mp taken
  exact ⟨idle,fun on => (asked on).2,(Option.some.inj equal).symm⟩

theorem step_act {w next : Watched} (taken : step w (.act action) = some next) :
    w.connection.step action = some next.connection ∧
      (next.reported = true → w.reported = true ∧ ∀ result, action ≠ .handleWrite result) := by
  cases action with
  | handleWrite result =>
    obtain ⟨_,mapped⟩ := Option.ite_none_right_eq_some.mp taken
    obtain ⟨connection,ran,equal⟩ := Option.map_eq_some_iff.mp mapped
    subst next
    exact ⟨ran,fun reported => by cases reported⟩
  | _ =>
    obtain ⟨connection,ran,equal⟩ := Option.map_eq_some_iff.mp taken
    subst next
    exact ⟨ran,fun reported => ⟨reported,by simp⟩⟩

theorem step_sound (w : Watched) (event : Event) (next : Watched) (sound : Sound w) (solid : Solid w event)
    (taken : step w event = some next) : Sound next := by
  cases event with
  | wait ready =>
    obtain ⟨idle,asked,rfl⟩ := step_wait taken
    refine ⟨sound.interest,fun reported => ?_⟩
    rcases sound.interest (asked reported) with pending | flushing
    · exact pending
    · simp [Flushing,idle] at flushing
  | act action =>
    obtain ⟨ran,kept⟩ := step_act taken
    refine ⟨interest_step _ action _ sound.interest ?_ ran,fun reported => ?_⟩
    · rintro message rfl
      exact solid
    · obtain ⟨before,other⟩ := kept reported
      exact step_pending ran (sound.reported before) other

theorem handleWrite_finds_output (start : Connection) (unwatched : start.channel = {}) (events : List Event)
    (solid : Machine.Throughout step Solid {connection := start} events) (w : Watched)
    (ran : Machine.run step {connection := start} events = some w) :
    (w.reported = true →
      ∃ popped, w.connection.outBuffer.readStringAndPop w.connection.outBuffer.readableSize = some popped) ∧
    (w.connection.stack = [] → w.connection.channel.writeable = true → 0 < w.connection.outBuffer.readableSize) := by
  have begins : Sound {connection := start} := ⟨interest_off (by rw [unwatched]),fun reported => by cases reported⟩
  have sound := Machine.run_keeps step_sound begins solid ran
  refine ⟨fun reported => pop_pending (sound.reported reported),fun idle on => ?_⟩
  rcases sound.interest on with pending | flushing
  · exact pending
  · simp [Flushing,idle] at flushing

def answered : List Event :=
  [.act .established,.act .ret,.act (.send [1,2]),.wait true,.act (.handleWrite (.count 2)),.act .resume,
   .act (.send [3]),.wait true]

theorem handleWrite_finds_output_twice : ∃ w, Machine.run step {connection := {}} answered = some w ∧
    w.reported = true ∧
    (∃ popped, w.connection.outBuffer.readStringAndPop w.connection.outBuffer.readableSize = some popped) ∧
    (w.connection.stack = [] → w.connection.channel.writeable = true → 0 < w.connection.outBuffer.readableSize) := by
  have whole : (Machine.run step {connection := {}} answered).map (·.reported) = some true := by
    decide +kernel
  have solid : Machine.Throughout step Solid {connection := {}} answered := by decide +kernel
  obtain ⟨w,ran,reported⟩ := Option.map_eq_some_iff.mp whole
  obtain ⟨finds,interest⟩ := handleWrite_finds_output {} rfl answered solid w ran
  exact ⟨w,ran,reported,finds reported,interest⟩

-- Send with length 0 on a connection with nothing queued: EPOLLOUT goes on, and the HandleWrite
-- that answers it reaches the assertion with an empty buffer.
theorem empty_send_asserts : ¬ ∀ (start : Connection) (events : List Event) (w : Watched), start.channel = {} →
    Machine.run step {connection := start} events = some w →
    (w.reported = true →
      ∃ popped, w.connection.outBuffer.readStringAndPop w.connection.outBuffer.readableSize = some popped) ∧
    (w.connection.stack = [] → w.connection.channel.writeable = true → 0 < w.connection.outBuffer.readableSize) := by
  intro finds
  have whole : (Machine.run step {connection := {}} [.act .established,.act .ret,.act (.send []),.wait true]).map
      (fun w => (w.reported,w.connection.outBuffer.readableSize)) = some (true,0) := by decide +kernel
  obtain ⟨w,ran,after⟩ := Option.map_eq_some_iff.mp whole
  obtain ⟨reported,drained⟩ := Prod.mk.inj after
  obtain ⟨popped,taken⟩ := (finds {} _ w rfl ran).1 reported
  rw [drained,Buffer.readStringAndPop,Buffer.moveReadOffset,dif_neg (by simp)] at taken
  simp at taken

end Watched
end LinuxOS.Muduo.Connection
