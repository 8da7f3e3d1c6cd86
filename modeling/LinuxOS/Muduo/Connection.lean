import LinuxOS.Machine
import LinuxOS.Muduo.Buffer

namespace LinuxOS.Muduo

inductive ConnStatus where
  | disconnected | connecting | connected | disconnecting
  deriving DecidableEq, Repr

-- Program points at which user code is running or will have run: a callback
-- (`mess` remembers whether it took input), or what is left of a method after
-- the callback it made. The head of a stack of frames runs next.
inductive Frame where
  | conn | anyEvent | closed
  | mess (consumed : Bool)
  | handleAnyEvent
  | handleWriteError
  | handleWriteTail
  | handleClose
  | shutDown
  | serverClose
  | timerRelease
  deriving DecidableEq, Repr

def Frame.isUser : Frame → Bool
  | .conn | .anyEvent | .closed | .mess _ => true
  | _ => false

def Frame.isHandler : Frame → Bool
  | .handleAnyEvent | .handleWriteError | .handleWriteTail | .handleClose | .timerRelease => true
  | _ => false

structure Channel where
  readable : Bool := false
  writeable : Bool := false
  deriving DecidableEq, Repr

-- One connection, its channel in Poll and its timer tasks in the loop's wheel.
-- The callback fields say which std::function is set. Of the wheel the
-- connection sees its own id only: `tasks` are the live task objects of that id
-- with their `_cancel` flag, `record` is the registry entry; when a task's slot
-- comes up is not tracked. The last six fields are history.
structure Connection where
  connCb : Bool := true
  messCb : Bool := true
  anyEventCb : Bool := true
  closedCb : Bool := true
  serverCloseCb : Bool := true
  enableInactive : Bool := false
  sockOpen : Bool := true
  channel : Channel := {}
  registered : Bool := false
  inBuffer : Buffer := {}
  outBuffer : Buffer := {}
  status : ConnStatus := .connecting
  record : Option Nat := none
  tasks : List (Nat × Bool) := []
  nextTask : Nat := 0
  stack : List Frame := []
  released : Bool := false
  updates : Nat := 0
  closedCalls : Nat := 0
  serverCloseCalls : Nat := 0
  accepted : Bytes := []
  sent : Bytes := []

inductive RecvResult where
  | data (bytes : Bytes) | again | error | eof
  deriving DecidableEq, Repr

inductive SendResult where
  | count (taken : Nat) | again | error
  deriving DecidableEq, Repr

namespace Connection

def push (s : Connection) (frame : Frame) : Connection := {s with stack := frame :: s.stack}

-- Poll::UpdateEvent adds or modifies. On a closed descriptor epoll_ctl fails
-- and the process exits, unless the number is in use again; the model follows
-- the second case, where the channel ends up registered.
def updateEvent (s : Connection) : Connection := {s with registered := true, updates := s.updates+1}

def enableRead (s : Connection) : Connection :=
  updateEvent {s with channel := {s.channel with readable := true}}

def enableWrite (s : Connection) : Connection :=
  updateEvent {s with channel := {s.channel with writeable := true}}

def disableWrite (s : Connection) : Connection :=
  updateEvent {s with channel := {s.channel with writeable := false}}

def remove (s : Connection) : Connection := {s with channel := {}, registered := false}

def cancelInactiveReleaseInLoop (s : Connection) : Connection :=
  match s.record with
  | none => {s with enableInactive := false}
  | some key => {s with
      enableInactive := false
      tasks := s.tasks.map fun task => if task.1 = key then (key,true) else task
      record := none}

def enableInactiveReleaseInLoop (s : Connection) : Connection :=
  match s.record with
  | some _ => {s with enableInactive := true}
  | none => {s with
      enableInactive := true
      tasks := (s.nextTask,false) :: s.tasks
      record := some s.nextTask
      nextTask := s.nextTask+1}

def serverClose (s : Connection) : Connection :=
  if s.serverCloseCb then {s with serverCloseCalls := s.serverCloseCalls+1} else s

def closeCallbacks (s : Connection) : Connection :=
  if s.closedCb then push (push {s with closedCalls := s.closedCalls+1} .serverClose) .closed
  else s.serverClose

def releaseInLoop (s : Connection) : Connection :=
  let closing := {s.remove with status := .disconnected, sockOpen := false, released := true}
  closeCallbacks (if closing.record.isSome then closing.cancelInactiveReleaseInLoop else closing)

-- `if (_in_buffer.ReadableSize() > 0) if (_mess_cb) _mess_cb(..)`
def messOnInput (s : Connection) : Connection :=
  if 0 < s.inBuffer.readableSize ∧ s.messCb = true then s.push (.mess false) else s

def sendInLoop (s : Connection) (message : Bytes) : Option Connection :=
  if s.status = .disconnected then some s
  else do
    let out ← s.outBuffer.writeAndPush message
    let queued := {s with outBuffer := out, sent := s.sent ++ message}
    return if queued.channel.writeable then queued else queued.enableWrite

def shutDownInLoop (s : Connection) : Connection :=
  messOnInput (push {s with status := .disconnecting} .shutDown)

def shutDownTail (s : Connection) : Connection :=
  if s.outBuffer.readableSize = 0 then s.releaseInLoop
  else if s.channel.writeable then s else s.enableWrite

def establishedInLoop (s : Connection) : Option Connection :=
  if s.status = .connecting then
    let reading := {s with status := .connected}.enableRead
    some (if reading.connCb then reading.push .conn else reading)
  else none

def handleRead (s : Connection) (received : RecvResult) : Option Connection :=
  if s.status = .disconnected then some s
  else match received with
  | .again => some s
  | .error | .eof => some s.shutDownInLoop
  | .data bytes =>
    if 1 ≤ bytes.length ∧ bytes.length ≤ 65536 then do
      let filled ← s.inBuffer.writeAndPush bytes
      return {s with inBuffer := filled}.messOnInput
    else none

-- All readable bytes are taken out of the buffer before send is called. A
-- closed descriptor makes send fail.
def handleWrite (s : Connection) (result : SendResult) : Option Connection := do
  let (str,out) ← s.outBuffer.readStringAndPop s.outBuffer.readableSize
  let popped := {s with outBuffer := out}
  match result with
  | .error => some (popped.push .handleWriteError).messOnInput
  | .again => if s.sockOpen then some (popped.push .handleWriteTail) else none
  | .count taken =>
    if s.sockOpen = true ∧ taken ≤ str.length then
      some ({popped with accepted := s.accepted ++ str.take taken}.push .handleWriteTail)
    else none

def handleWriteTail (s : Connection) : Connection :=
  if s.outBuffer.readableSize = 0 then
    let quiet := s.disableWrite
    if quiet.status = .disconnecting then quiet.releaseInLoop else quiet
  else s

def handleClose (s : Connection) : Connection := (s.push .handleClose).messOnInput

def handleAnyEvent (s : Connection) : Connection :=
  let left := s.push .handleAnyEvent
  if left.anyEventCb then left.push .anyEvent else left

-- The last reference to a task object is dropped: ~TimerTask calls
-- ReleaseInLoop unless the task was cancelled, then erases the registry entry.
def timerDestroy (s : Connection) (key : Nat) (cancelled : Bool) : Option Connection :=
  if (key,cancelled) ∈ s.tasks then
    let dropped := {s with tasks := s.tasks.erase (key,cancelled)}
    some (if cancelled then {dropped with record := none}
      else (dropped.push .timerRelease).releaseInLoop)
  else none

def resume (s : Connection) : Frame → Option Connection
  | .handleAnyEvent => some s
  | .handleWriteError => some (s.push .handleWriteTail).releaseInLoop
  | .handleWriteTail => some s.handleWriteTail
  | .handleClose => some s.releaseInLoop
  | .shutDown => some s.shutDownTail
  | .serverClose => some s.serverClose
  | .timerRelease => some {s with record := none}
  | .conn | .anyEvent | .closed | .mess _ => none

-- Handlers and destructors run when the loop has nothing else of this
-- connection on its stack; the public calls run there too (the loop's task
-- queue) or inside a callback; the last three drive what is on the stack.
inductive Action where
  | established
  | handleAnyEvent
  | handleRead (received : RecvResult)
  | handleWrite (result : SendResult)
  | handleClose
  | handleError
  | timerDestroy (key : Nat) (cancelled : Bool)
  | send (message : Bytes)
  | shutDown
  | enableInactiveRelease
  | cancelInactiveRelease
  | consume (size : Nat)
  | ret
  | resume
  deriving DecidableEq, Repr

def inLoop (s : Connection) : Bool :=
  match s.stack with
  | [] => true
  | frame :: _ => frame.isUser

def step (s : Connection) (action : Action) : Option Connection :=
  match action,s.stack with
  | .established,[] => s.establishedInLoop
  | .handleAnyEvent,[] => some s.handleAnyEvent
  | .handleRead received,[] => s.handleRead received
  | .handleWrite result,[] => s.handleWrite result
  | .handleClose,[] => some s.handleClose
  | .handleError,[] => some s.handleClose
  | .timerDestroy key cancelled,[] => s.timerDestroy key cancelled
  | .send message,_ => if s.inLoop then s.sendInLoop message else none
  | .shutDown,_ => if s.inLoop then some s.shutDownInLoop else none
  | .enableInactiveRelease,_ => if s.inLoop then some s.enableInactiveReleaseInLoop else none
  | .cancelInactiveRelease,_ => if s.inLoop then some s.cancelInactiveReleaseInLoop else none
  | .consume size,.mess _ :: rest => do
    let left ← s.inBuffer.moveReadOffset size
    return {s with inBuffer := left, stack := .mess true :: rest}
  | .ret,frame :: rest => if frame.isUser then some {s with stack := rest} else none
  | .resume,frame :: rest => resume {s with stack := rest} frame
  | _,_ => none

structure Fresh (s : Connection) : Prop where
  status : s.status = .connecting
  stack : s.stack = []
  released : s.released = false
  closedCalls : s.closedCalls = 0
  serverCloseCalls : s.serverCloseCalls = 0
  accepted : s.accepted = []
  sent : s.sent = []
  outEmpty : s.outBuffer.readable = []

end Connection
end LinuxOS.Muduo
