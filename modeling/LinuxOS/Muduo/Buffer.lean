import LinuxOS.Bytes

namespace LinuxOS.Muduo

def defaultSize : Nat := 1024

-- The two index facts that every method relies on are part of the value.
structure Buffer where
  buffer : Bytes := List.replicate defaultSize 0
  readIdx : Nat := 0
  writeIdx : Nat := 0
  ordered : readIdx ≤ writeIdx := by exact Nat.zero_le _
  inside : writeIdx ≤ buffer.length := by exact Nat.zero_le _

namespace Buffer

def getAfterSpace (b : Buffer) : Nat := b.buffer.length - b.writeIdx
def getFrontSpace (b : Buffer) : Nat := b.readIdx
def readableSize (b : Buffer) : Nat := b.writeIdx - b.readIdx

def readable (b : Buffer) : Bytes := (b.buffer.take b.writeIdx).drop b.readIdx

theorem readable_length (b : Buffer) : b.readable.length = b.readableSize := by
  have := b.inside
  simp [readable,readableSize]; omega

-- std::copy to the front, with the old bytes left behind the copied ones.
def compact (b : Buffer) : Buffer where
  buffer := b.buffer.splice 0 b.readable
  readIdx := 0
  writeIdx := b.readableSize
  ordered := Nat.zero_le _
  inside := by
    have := b.inside
    rw [Bytes.splice_length] <;> simp [readable_length,readableSize] <;> omega

-- resize(size() * 2 + size) keeps the old cells and zeroes the new ones.
def grow (b : Buffer) (size : Nat) : Buffer where
  buffer := b.buffer ++ List.replicate (b.buffer.length + size) 0
  readIdx := b.readIdx
  writeIdx := b.writeIdx
  ordered := b.ordered
  inside := by have := b.inside; simp; omega

def ensureAmpleWriteableSpace (b : Buffer) (size : Nat) : Buffer :=
  if size ≤ b.getAfterSpace then b
  else if size ≤ b.getFrontSpace + b.getAfterSpace then b.compact
  else b.grow size

def moveWriteOffset (b : Buffer) (size : Nat) : Option Buffer :=
  if fits : b.writeIdx + size ≤ b.buffer.length then
    some {b with writeIdx := b.writeIdx + size, ordered := Nat.le_add_right_of_le b.ordered, inside := fits}
  else none

def moveReadOffset (b : Buffer) (size : Nat) : Option Buffer :=
  if fits : b.readIdx + size ≤ b.writeIdx ∧ 0 < size then
    some {b with readIdx := b.readIdx + size, ordered := fits.1}
  else none

def write (b : Buffer) (data : Bytes) : Buffer :=
  let ample := b.ensureAmpleWriteableSpace data.length
  {ample with
    buffer := ample.buffer.splice ample.writeIdx data
    inside := Bytes.splice_inside ample.inside}

def writeAndPush (b : Buffer) (data : Bytes) : Option Buffer :=
  (b.write data).moveWriteOffset data.length

def readString (b : Buffer) (size : Nat) : Option Bytes :=
  if size ≤ b.readableSize then some (b.readable.take size) else none

def readStringAndPop (b : Buffer) (size : Nat) : Option (Bytes × Buffer) := do
  let taken ← b.readString size
  let next ← b.moveReadOffset size
  return (taken,next)

-- memchr for '\n' over the readable bytes, as an offset from the read index.
def findCRLF (b : Buffer) : Option Nat := b.readable.findIdx? (· == 10)

def getLine (b : Buffer) : Option Bytes :=
  match b.findCRLF with
  | none => some []
  | some ch => b.readString (ch + 1)

def getLineAndPop (b : Buffer) : Option (Bytes × Buffer) := do
  let line ← b.getLine
  let next ← b.moveReadOffset line.length
  return (line,next)

def clear (b : Buffer) : Buffer where
  buffer := b.buffer
  readIdx := 0
  writeIdx := 0
  ordered := Nat.le_refl _
  inside := Nat.zero_le _

def initial : Buffer := {}

@[simp] theorem readable_start : ({} : Buffer).readable = [] := by simp [readable]

@[simp] theorem readable_clear (b : Buffer) : b.clear.readable = [] := by simp [readable,clear]

theorem readable_compact (b : Buffer) : b.compact.readable = b.readable := by
  have through := Bytes.splice_through b.buffer b.readable (Nat.zero_le _)
  simp only [Nat.zero_add,List.take_zero,List.nil_append,readable_length] at through
  simpa [readable,compact] using through

theorem readable_grow (b : Buffer) (size : Nat) : (b.grow size).readable = b.readable := by
  simp [readable,grow,List.take_append_of_le_length b.inside]

theorem readable_ensure (b : Buffer) (size : Nat) :
    (b.ensureAmpleWriteableSpace size).readable = b.readable := by
  unfold ensureAmpleWriteableSpace
  split
  · rfl
  · split
    · exact b.readable_compact
    · exact b.readable_grow size

theorem ensure_ample (b : Buffer) (size : Nat) :
    (b.ensureAmpleWriteableSpace size).writeIdx + size ≤
      (b.ensureAmpleWriteableSpace size).buffer.length := by
  have ordered := b.ordered
  have inside := b.inside
  unfold ensureAmpleWriteableSpace
  split
  · rename_i after; simp only [getAfterSpace] at after; omega
  · split
    · rename_i both
      simp only [getAfterSpace,getFrontSpace] at both
      have length : b.compact.buffer.length = b.buffer.length := by
        simp only [compact]
        rw [Bytes.splice_length]
        simp [readable_length,readableSize]; omega
      simp only [compact,readableSize] at length ⊢
      omega
    · simp [grow]; omega

theorem moveWriteOffset_readable {b next : Buffer} (moved : b.moveWriteOffset size = some next) :
    next.readable = b.readable ++ (b.buffer.take (b.writeIdx + size)).drop b.writeIdx := by
  unfold moveWriteOffset at moved
  split at moved
  · cases moved
    have length : (b.buffer.take b.writeIdx).length = b.writeIdx := by simp [b.inside]
    have cut : b.buffer.take (b.writeIdx + size) = b.buffer.take b.writeIdx ++
        (b.buffer.take (b.writeIdx + size)).drop b.writeIdx := by
      have := List.take_append_drop b.writeIdx (b.buffer.take (b.writeIdx + size))
      rwa [List.take_take,Nat.min_eq_left (Nat.le_add_right _ _),eq_comm] at this
    simp only [readable]
    conv_lhs => rw [cut]
    exact List.drop_append_of_le_length (by rw [length]; exact b.ordered)
  · cases moved

theorem writeAndPush_spec (b : Buffer) (data : Bytes) :
    ∃ next, b.writeAndPush data = some next ∧ next.readable = b.readable ++ data := by
  let ample := b.ensureAmpleWriteableSpace data.length
  have room : ample.writeIdx + data.length ≤ ample.buffer.length := b.ensure_ample data.length
  have kept : ample.readable = b.readable := b.readable_ensure data.length
  have fits : (b.write data).writeIdx + data.length ≤ (b.write data).buffer.length := by
    show ample.writeIdx + data.length ≤ (ample.buffer.splice ample.writeIdx data).length
    rw [Bytes.splice_length room]; exact room
  have moved : b.writeAndPush data = some {b.write data with
      writeIdx := (b.write data).writeIdx + data.length
      ordered := Nat.le_add_right_of_le (b.write data).ordered, inside := fits} := by
    simp [writeAndPush,moveWriteOffset,fits]
  refine ⟨_,moved,?_⟩
  rw [moveWriteOffset_readable moved]
  have old : (b.write data).readable = b.readable := by
    rw [← kept]
    show (List.take ample.writeIdx (ample.buffer.splice ample.writeIdx data)).drop ample.readIdx = _
    rw [Bytes.splice_before ample.inside (Nat.le_refl _)]
    rfl
  have new : ((b.write data).buffer.take ((b.write data).writeIdx + data.length)).drop
      (b.write data).writeIdx = data := by
    show ((ample.buffer.splice ample.writeIdx data).take (ample.writeIdx + data.length)).drop
      ample.writeIdx = data
    rw [Bytes.splice_through _ _ ample.inside]
    exact List.drop_left' (by simp [ample.inside])
  rw [old,new]

theorem moveReadOffset_spec (b : Buffer) (fits : size ≤ b.readable.length) (positive : 0 < size) :
    ∃ next, b.moveReadOffset size = some next ∧ next.readable = b.readable.drop size := by
  rw [readable_length,readableSize] at fits
  have ordered := b.ordered
  have both : b.readIdx + size ≤ b.writeIdx ∧ 0 < size := ⟨by omega,positive⟩
  exact ⟨_,by rw [moveReadOffset,dif_pos both],by simp [readable,List.drop_drop]⟩

theorem readStringAndPop_spec (b : Buffer) (fits : size ≤ b.readable.length) (positive : 0 < size) :
    ∃ next, b.readStringAndPop size = some (b.readable.take size,next) ∧
      next.readable = b.readable.drop size := by
  obtain ⟨next,moved,rest⟩ := b.moveReadOffset_spec fits positive
  refine ⟨next,?_,rest⟩
  rw [readable_length] at fits
  simp [readStringAndPop,readString,fits,moved]

variable {b next : Buffer} {data taken : Bytes}

theorem compact_storage (b : Buffer) : b.compact.buffer.length = b.buffer.length := by
  have inside := b.inside
  simp only [compact]
  rw [Bytes.splice_length]
  rw [b.readable_length,readableSize]
  omega

theorem ensure_storage (b : Buffer) (size : Nat) :
    (b.ensureAmpleWriteableSpace size).buffer.length = b.buffer.length ∨
      b.buffer.length < b.readable.length + size ∧
        (b.ensureAmpleWriteableSpace size).buffer.length = 2 * b.buffer.length + size := by
  have ordered := b.ordered
  have inside := b.inside
  have length := b.readable_length
  unfold ensureAmpleWriteableSpace
  split
  · exact .inl rfl
  · split
    · exact .inl b.compact_storage
    · rename_i none
      simp only [getAfterSpace,getFrontSpace] at none
      simp only [readableSize] at length
      refine .inr ⟨by omega,?_⟩
      simp only [grow,List.length_append,List.length_replicate]
      omega

theorem writeAndPush_storage (written : b.writeAndPush data = some next) :
    next.buffer.length = b.buffer.length ∨
      b.buffer.length < b.readable.length + data.length ∧ next.buffer.length = 2 * b.buffer.length + data.length := by
  have room := b.ensure_ample data.length
  have storage := b.ensure_storage data.length
  unfold writeAndPush moveWriteOffset at written
  split at written
  · cases written
    simp only [write]
    rw [Bytes.splice_length room]
    exact storage
  · cases written

theorem moveReadOffset_storage (moved : b.moveReadOffset size = some next) : next.buffer = b.buffer := by
  unfold moveReadOffset at moved
  split at moved
  · cases moved; rfl
  · cases moved

theorem readStringAndPop_storage (popped : b.readStringAndPop size = some (taken,next)) : next.buffer = b.buffer := by
  obtain ⟨_,_,moved⟩ := Option.bind_eq_some_iff.mp popped
  obtain ⟨_,moved,equal⟩ := Option.bind_eq_some_iff.mp moved
  cases equal
  exact moveReadOffset_storage moved

theorem getLineAndPop_storage (popped : b.getLineAndPop = some (taken,next)) : next.buffer = b.buffer := by
  obtain ⟨_,_,moved⟩ := Option.bind_eq_some_iff.mp popped
  obtain ⟨_,moved,equal⟩ := Option.bind_eq_some_iff.mp moved
  cases equal
  exact moveReadOffset_storage moved

end Buffer
end LinuxOS.Muduo
