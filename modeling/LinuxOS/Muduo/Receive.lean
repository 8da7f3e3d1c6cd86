import LinuxOS.Muduo.Connection

namespace LinuxOS.Muduo
variable {s next : Connection} {array bytes : Bytes}

namespace Socket

-- recv fills the array from its start with what the kernel delivers, which is at least one byte and
-- at most size; then Recv ends it with buffer[ret] = 0. Both are writes into the caller's array.
def recv (buffer : Bytes) (size : Nat) : RecvResult → Option (Int × Bytes)
  | .again => some (-2,buffer)
  | .error => some (-1,buffer)
  | .eof => some (0,buffer)
  | .data bytes =>
    if 1 ≤ bytes.length ∧ bytes.length ≤ size then do
      let filled ← buffer.store 0 bytes
      let ended ← filled.store bytes.length [0]
      return (bytes.length,ended)
    else none

def recvNonBlock (buffer : Bytes) (size : Nat) (received : RecvResult) : Option (Int × Bytes) :=
  recv buffer size received

end Socket

def bufferSize : Nat := 65536

namespace Connection

-- HandleRead with its local array, which holds whatever was on the stack before.
def handleReadArray (s : Connection) (buffer : Bytes) (received : RecvResult) : Option Connection :=
  if s.status = .disconnected then some s
  else do
    let (ret,buffer) ← Socket.recvNonBlock buffer bufferSize received
    if ret = -2 then return s
    else if ret = -1 then return s.shutDownInLoop
    else if ret = 0 then return s.shutDownInLoop
    else do
      let filled ← s.inBuffer.writeAndPush (buffer.take ret.toNat)
      return {s with inBuffer := filled}.messOnInput

end Connection

theorem recv_data (sized : array.length = bufferSize) (some_byte : 1 ≤ bytes.length) (room : bytes.length < bufferSize) :
    Socket.recvNonBlock array bufferSize (.data bytes) =
      some ((bytes.length : Int),(array.splice 0 bytes).splice bytes.length [0]) := by
  have inside : 0 + bytes.length ≤ array.length := by omega
  have kept : (array.splice 0 bytes).length = array.length := Bytes.splice_length inside
  have ending : bytes.length + [(0 : UInt8)].length ≤ (array.splice 0 bytes).length := by
    rw [kept,List.length_singleton]
    omega
  rw [Socket.recvNonBlock,Socket.recv,if_pos ⟨some_byte,Nat.le_of_lt room⟩,Bytes.store_fits inside,
    Option.bind_eq_bind,Option.bind_some,Bytes.store_fits ending]
  rfl

-- A read that fills the array leaves no cell for the terminator.
theorem recv_full (sized : array.length = bufferSize) (full : bytes.length = bufferSize) :
    Socket.recvNonBlock array bufferSize (.data bytes) = none := by
  have inside : 0 + bytes.length ≤ array.length := by omega
  have past : (array.splice 0 bytes).length < bytes.length + [(0 : UInt8)].length := by
    rw [Bytes.splice_length inside,List.length_singleton]
    omega
  have delivered : 1 ≤ bytes.length ∧ bytes.length ≤ bufferSize := by
    rw [full]
    exact ⟨by decide,Nat.le_refl _⟩
  rw [Socket.recvNonBlock,Socket.recv,if_pos delivered,Bytes.store_fits inside,
    Option.bind_eq_bind,Option.bind_some,Bytes.store_past past]
  rfl

theorem received_init (inside : bytes.length ≤ array.length) :
    ((array.splice 0 bytes).splice bytes.length [0]).take bytes.length = bytes := by
  have through := Bytes.splice_through array bytes (Nat.zero_le _)
  rw [Nat.zero_add,List.take_zero,List.nil_append] at through
  have covers : bytes.length ≤ (array.splice 0 bytes).length := by
    rw [Bytes.splice_length (by omega)]
    exact inside
  rw [Bytes.splice_before covers (Nat.le_refl _),through]

theorem handleReadArray_room (connected : s.status ≠ .disconnected) (sized : array.length = bufferSize)
    (some_byte : 1 ≤ bytes.length) (room : bytes.length < bufferSize) :
    s.handleReadArray array (.data bytes) =
      (s.inBuffer.writeAndPush bytes).map fun filled => {s with inBuffer := filled}.messOnInput := by
  have positive : (bytes.length : Int) ≠ -2 ∧ (bytes.length : Int) ≠ -1 ∧ (bytes.length : Int) ≠ 0 := by omega
  rw [Connection.handleReadArray,if_neg connected,recv_data sized some_byte room]
  simp only [Option.bind_eq_bind,Option.bind_some,if_neg positive.1,if_neg positive.2.1,if_neg positive.2.2,
    Int.toNat_natCast,received_init (by omega : bytes.length ≤ array.length)]
  cases s.inBuffer.writeAndPush bytes <;> rfl

theorem handleReadArray_full (connected : s.status ≠ .disconnected) (sized : array.length = bufferSize)
    (full : bytes.length = bufferSize) : s.handleReadArray array (.data bytes) = none := by
  rw [Connection.handleReadArray,if_neg connected,recv_full sized full]
  rfl

theorem handleReadArray_refines (sized : array.length = bufferSize)
    (ran : s.handleReadArray array received = some next) : s.handleRead received = some next := by
  by_cases gone : s.status = .disconnected
  · rw [Connection.handleReadArray,if_pos gone] at ran
    rw [Connection.handleRead.eq_def,if_pos gone,ran]
  · cases received with
    | again | error | eof =>
      simp only [Connection.handleReadArray,if_neg gone] at ran
      simp only [Connection.handleRead,if_neg gone]
      exact ran
    | data bytes =>
      by_cases delivered : 1 ≤ bytes.length ∧ bytes.length ≤ bufferSize
      · by_cases full : bytes.length = bufferSize
        · rw [handleReadArray_full gone sized full] at ran
          cases ran
        · rw [handleReadArray_room gone sized delivered.1 (by omega)] at ran
          simp only [bufferSize] at delivered
          simp only [Connection.handleRead,if_neg gone,if_pos delivered,← ran]
          cases s.inBuffer.writeAndPush bytes <;> rfl
      · rw [Connection.handleReadArray,if_neg gone,Socket.recvNonBlock,Socket.recv,if_neg delivered] at ran
        cases ran

theorem handleRead_inside_array_iff (s : Connection) (array bytes : Bytes) (connected : s.status ≠ .disconnected)
    (sized : array.length = bufferSize) (delivered : 1 ≤ bytes.length ∧ bytes.length ≤ bufferSize) :
    (∃ filled, s.handleReadArray array (.data bytes) = some {s with inBuffer := filled}.messOnInput ∧
      filled.readable = s.inBuffer.readable ++ bytes) ↔ bytes.length < bufferSize := by
  constructor
  · rintro ⟨filled,ran,_⟩
    by_cases full : bytes.length = bufferSize
    · rw [handleReadArray_full connected sized full] at ran
      cases ran
    · omega
  · intro room
    obtain ⟨filled,pushed,appended⟩ := s.inBuffer.writeAndPush_spec bytes
    refine ⟨filled,?_,appended⟩
    rw [handleReadArray_room connected sized delivered.1 room,pushed]
    rfl

theorem handleRead_inside_array_last_byte : ∃ filled : Buffer,
    ({status := .connected} : Connection).handleReadArray (List.replicate bufferSize 0) (.data (List.replicate 65535 7)) =
        some {({status := .connected} : Connection) with inBuffer := filled}.messOnInput ∧
      filled.readable = ({status := .connected} : Connection).inBuffer.readable ++ List.replicate 65535 7 :=
  (handleRead_inside_array_iff {status := .connected} (List.replicate bufferSize 0) (List.replicate 65535 7)
    (by decide) List.length_replicate (by rw [List.length_replicate,bufferSize]; decide)).mpr
    (by rw [List.length_replicate,bufferSize]; decide)

theorem full_read_overruns :
    ¬ ∀ (s : Connection) (array bytes : Bytes), s.status ≠ .disconnected → array.length = bufferSize →
      1 ≤ bytes.length ∧ bytes.length ≤ bufferSize →
      ∃ filled, s.handleReadArray array (.data bytes) = some {s with inBuffer := filled}.messOnInput ∧
        filled.readable = s.inBuffer.readable ++ bytes := by
  intro inside
  have sized : (List.replicate bufferSize (0 : UInt8)).length = bufferSize := List.length_replicate
  obtain ⟨filled,ran,_⟩ := inside {status := .connected} (List.replicate bufferSize 0) (List.replicate bufferSize 0)
    (by decide) sized (by rw [sized]; decide)
  rw [handleReadArray_full (by decide) sized sized] at ran
  cases ran

end LinuxOS.Muduo
