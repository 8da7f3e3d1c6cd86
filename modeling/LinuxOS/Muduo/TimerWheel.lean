import Mathlib.Algebra.Group.Nat.Defs
import LinuxOS.Machine
import Mathlib.Logic.Function.Basic

namespace LinuxOS.Muduo

-- A callback is known to the wheel by the ids on which it calls
-- RemoveTimerTask; Connection::ReleaseInLoop does so on its own timer id.
structure TimerTask where
  id : Nat
  timeout : Nat
  timerFunc : List Nat
  cancel : Bool
  deriving DecidableEq, Repr

-- Task objects are named by keys in the order make_shared built them. The
-- last three fields are history that no operation reads: the newest task made
-- for an id, the tasks whose callback was called, and the tasks that were
-- pending when RemoveTimerTask was called on their id.
structure TimerWheel where
  capacity : Nat := 60
  tick : Nat := 0
  timersRecord : Nat → Option Nat := fun _ => none
  wheels : Nat → List Nat := fun _ => []
  tasks : Nat → TimerTask := fun _ => ⟨0,0,[],false⟩
  next : Nat := 0
  accepted : Nat → Option Nat := fun _ => none
  ran : List Nat := []
  removed : List Nat := []

namespace TimerWheel
open Function (update)

-- A shared_ptr to the task is left in some slot, so weak_ptr::lock succeeds.
def alive (w : TimerWheel) (key : Nat) : Bool :=
  (List.range w.capacity).any fun slot => (w.wheels slot).contains key

def ifExists (w : TimerWheel) (id : Nat) : Bool := (w.timersRecord id).isSome

def lock (w : TimerWheel) (id : Nat) : Option Nat := (w.timersRecord id).filter w.alive

-- `_tick + timeout` is an int plus a uint32_t and wraps at 2^32.
def slotAfter (w : TimerWheel) (timeout : Nat) : Nat := (w.tick + timeout) % 2^32 % w.capacity

def pushFront (w : TimerWheel) (slot key : Nat) : TimerWheel :=
  {w with wheels := update w.wheels slot (key :: w.wheels slot)}

def pending (w : TimerWheel) (id : Nat) : Option Nat :=
  (w.accepted id).filter fun key => !w.ran.contains key && !w.removed.contains key

-- make_shared<TimerTask>: the object exists and is in no slot yet.
def makeTask (w : TimerWheel) (id timeout : Nat) (timerFunc : List Nat) : TimerWheel :=
  {w with
    tasks := update w.tasks w.next ⟨id,timeout,timerFunc,false⟩
    next := w.next+1
    accepted := update w.accepted id (some w.next)}

def setTimerTask (w : TimerWheel) (id timeout : Nat) (timerFunc : List Nat) : TimerWheel :=
  if w.ifExists id then w
  else
    let made := w.makeTask id timeout timerFunc
    let placed := made.pushFront (made.slotAfter timeout) w.next
    {placed with timersRecord := update placed.timersRecord id (some w.next)}

def refreshTimerTask (w : TimerWheel) (id : Nat) : TimerWheel :=
  if w.ifExists id then
    match w.lock id with
    | some key => w.pushFront (w.slotAfter (w.tasks key).timeout) key
    | none => w
  else w

def cancelTask (w : TimerWheel) (key : Nat) : TimerWheel :=
  {w with tasks := update w.tasks key {w.tasks key with cancel := true}}

def eraseRecord (w : TimerWheel) (id : Nat) : TimerWheel :=
  {w with timersRecord := update w.timersRecord id none}

def removeTimerTask (w : TimerWheel) (id : Nat) : TimerWheel :=
  let noted := {w with removed := (w.pending id).toList ++ w.removed}
  if noted.ifExists id then
    match noted.lock id with
    | some key => (noted.cancelTask key).eraseRecord id
    | none => noted.eraseRecord id
  else noted

def removeFromTimerWheel (w : TimerWheel) (id : Nat) : TimerWheel :=
  if w.ifExists id then w.eraseRecord id else w

-- ~TimerTask: the callback unless cancelled, then the release function, which
-- was bound to the id and not to the task.
def destroy (w : TimerWheel) (key : Nat) : TimerWheel :=
  let called := if (w.tasks key).cancel then w
    else (w.tasks key).timerFunc.foldl removeTimerTask {w with ran := key :: w.ran}
  called.removeFromTimerWheel (w.tasks key).id

def dropFront (w : TimerWheel) (slot : Nat) (rest : List Nat) : TimerWheel :=
  {w with wheels := update w.wheels slot rest}

-- list::clear drops one reference after the other; the last one destroys.
def clearSlot (slot : Nat) : List Nat → TimerWheel → TimerWheel
  | [],w => w
  | key :: rest,w =>
    let dropped := w.dropFront slot rest
    clearSlot slot rest (if dropped.alive key then dropped else dropped.destroy key)

def turn (w : TimerWheel) : TimerWheel := {w with tick := (w.tick+1) % w.capacity}

def tickNums : Nat → TimerWheel → TimerWheel
  | 0,w => w
  | nums+1,w => tickNums nums (clearSlot w.turn.tick (w.turn.wheels w.turn.tick) w.turn)

inductive Op where
  | setTimerTask (id timeout : Nat) (timerFunc : List Nat)
  | refreshTimerTask (id : Nat)
  | removeTimerTask (id : Nat)
  | tick (nums : Nat)
  deriving DecidableEq, Repr

def step (w : TimerWheel) : Op → Option TimerWheel
  | .setTimerTask id timeout timerFunc => some (w.setTimerTask id timeout timerFunc)
  | .refreshTimerTask id => some (w.refreshTimerTask id)
  | .removeTimerTask id => some (w.removeTimerTask id)
  | .tick nums => some (tickNums nums w)

end TimerWheel
end LinuxOS.Muduo
