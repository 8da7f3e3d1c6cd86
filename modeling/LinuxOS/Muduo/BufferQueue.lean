import LinuxOS.Machine
import LinuxOS.Muduo.Buffer

namespace LinuxOS.Muduo
open Function (update)
variable {size : Nat}

namespace Buffer

def read (b : Buffer) (size : Nat) : Option Bytes := if size ≤ b.readableSize then some (b.readable.take size) else none

def readAndPop (b : Buffer) (size : Nat) : Option (Bytes × Buffer) := do
  let taken ← b.read size
  let next ← b.moveReadOffset size
  return (taken,next)

def writeStringAndPush (b : Buffer) (str : Bytes) : Option Buffer := b.writeAndPush str

def writeBufferAndPush (b other : Buffer) : Option Buffer := b.writeAndPush other.readable

end Buffer

inductive Call where
  | writeAndPush (b : Nat) (data : Bytes)
  | writeStringAndPush (b : Nat) (str : Bytes)
  | writeBufferAndPush (b other : Nat)
  | writeThenMove (b : Nat) (data : Bytes)
  | readAndPop (b size : Nat)
  | readStringAndPop (b size : Nat)
  | readString (b size : Nat)
  | getLine (b : Nat)
  | getLineAndPop (b : Nat)
  | swap (b other : Nat)
  | clear (b : Nat)
  deriving DecidableEq

structure Buffers where
  buffers : Nat → Buffer := fun _ => {}
  results : List Bytes := []

namespace Buffers

def put (s : Buffers) (b : Nat) (buffer : Buffer) : Buffers := {s with buffers := update s.buffers b buffer}

def return' (s : Buffers) (result : Bytes) : Buffers := {s with results := result :: s.results}

def step (s : Buffers) : Call → Option Buffers
  | .writeAndPush b data => ((s.buffers b).writeAndPush data).map (s.put b)
  | .writeStringAndPush b str => ((s.buffers b).writeStringAndPush str).map (s.put b)
  | .writeBufferAndPush b other => ((s.buffers b).writeBufferAndPush (s.buffers other)).map (s.put b)
  | .writeThenMove b data => (((s.buffers b).write data).moveWriteOffset data.length).map (s.put b)
  | .readAndPop b size => ((s.buffers b).readAndPop size).map fun r => (s.put b r.2).return' r.1
  | .readStringAndPop b size => ((s.buffers b).readStringAndPop size).map fun r => (s.put b r.2).return' r.1
  | .readString b size => ((s.buffers b).readString size).map s.return'
  | .getLine b => (s.buffers b).getLine.map s.return'
  | .getLineAndPop b => (s.buffers b).getLineAndPop.map fun r => (s.put b r.2).return' r.1
  | .swap b other => some ((s.put b (s.buffers other)).put other (s.buffers b))
  | .clear b => some (s.put b (s.buffers b).clear)

def Asserted (s : Buffers) : Call → Prop
  | .writeBufferAndPush b other => b ≠ other
  | .readAndPop b size => size ≤ (s.buffers b).readableSize ∧ 0 < size
  | .readStringAndPop b size => size ≤ (s.buffers b).readableSize ∧ 0 < size
  | .readString b size => size ≤ (s.buffers b).readableSize
  | .getLineAndPop b => (s.buffers b).findCRLF ≠ none
  | _ => True

instance : ∀ (s : Buffers) (call : Call), Decidable (s.Asserted call)
  | s,call => by cases call <;> unfold Asserted <;> infer_instance

end Buffers

-- What buffers are for: queues of bytes.
structure Queues where
  queues : Nat → Bytes := fun _ => []
  results : List Bytes := []

namespace Queues

def firstLine (queue : Bytes) : Bytes := queue.take (queue.idxOf 10 + 1)

def line (queue : Bytes) : Bytes := if 10 ∈ queue then firstLine queue else []

def append (q : Queues) (b : Nat) (data : Bytes) : Queues := {q with queues := update q.queues b (q.queues b ++ data)}

def peek (q : Queues) (result : Bytes) : Queues := {q with results := result :: q.results}

def pop (q : Queues) (b : Nat) (result : Bytes) : Queues where
  queues := update q.queues b ((q.queues b).drop result.length)
  results := result :: q.results

def step (q : Queues) : Call → Queues
  | .writeAndPush b data => q.append b data
  | .writeStringAndPush b str => q.append b str
  | .writeBufferAndPush b other => q.append b (q.queues other)
  | .writeThenMove b data => q.append b data
  | .readAndPop b size => q.pop b ((q.queues b).take size)
  | .readStringAndPop b size => q.pop b ((q.queues b).take size)
  | .readString b size => q.peek ((q.queues b).take size)
  | .getLine b => q.peek (line (q.queues b))
  | .getLineAndPop b => q.pop b (line (q.queues b))
  | .swap b other => {q with queues := update (update q.queues b (q.queues other)) other (q.queues b)}
  | .clear b => {q with queues := update q.queues b []}

def run (q : Queues) (calls : List Call) : Queues := calls.foldl step q

end Queues

structure Represents (s : Buffers) (q : Queues) : Prop where
  readable : ∀ b, (s.buffers b).readable = q.queues b
  results : s.results = q.results

variable {s : Buffers} {q : Queues} {b : Nat} {buffer next : Buffer} {data result : Bytes}

theorem represents_put (represents : Represents s q) (same : buffer.readable = data) :
    Represents (s.put b buffer) {q with queues := update q.queues b data} := by
  refine ⟨fun other => ?_,represents.results⟩
  by_cases equal : other = b
  · subst other
    simpa only [Buffers.put,Function.update_self] using same
  · simpa only [Buffers.put,Function.update_of_ne equal] using represents.readable other

theorem represents_peek (represents : Represents s q) : Represents (s.return' result) (q.peek result) :=
  ⟨represents.readable,congrArg (result :: ·) represents.results⟩

theorem represents_append (represents : Represents s q) (data : Bytes) :
    ∃ next, (s.buffers b).writeAndPush data = some next ∧ Represents (s.put b next) (q.append b data) := by
  obtain ⟨next,pushed,readable⟩ := (s.buffers b).writeAndPush_spec data
  refine ⟨next,pushed,represents_put represents ?_⟩
  rw [readable,represents.readable]

theorem represents_pop (represents : Represents s q) (popped : next.readable = (s.buffers b).readable.drop result.length) :
    Represents ((s.put b next).return' result) (q.pop b result) := by
  apply represents_peek (q := {q with queues := update q.queues b ((q.queues b).drop result.length)})
  apply represents_put represents
  rw [popped,represents.readable]

namespace Buffer

theorem readAndPop_spec (b : Buffer) (fits : size ≤ b.readableSize) (positive : 0 < size) :
    ∃ next, b.readAndPop size = some (b.readable.take size,next) ∧ b.readStringAndPop size = b.readAndPop size ∧
      next.readable = b.readable.drop (b.readable.take size).length := by
  rw [← readable_length] at fits
  obtain ⟨next,moved,rest⟩ := b.moveReadOffset_spec fits positive
  have length : (b.readable.take size).length = size := List.length_take_of_le fits
  rw [readable_length] at fits
  refine ⟨next,?_,rfl,by rw [rest,length]⟩
  simp only [readAndPop,read,if_pos fits,moved,Option.bind_eq_bind,Option.bind_some,Option.pure_def]

theorem findCRLF_none (b : Buffer) : b.findCRLF = none ↔ 10 ∉ b.readable := by
  simp only [findCRLF,List.findIdx?_eq_none_iff,beq_eq_false_iff_ne]
  exact ⟨fun absent found => absent 10 found rfl,fun absent x found same => absent (same ▸ found)⟩

theorem getLine_spec (b : Buffer) : b.getLine = some (Queues.line b.readable) := by
  unfold getLine Queues.line
  cases found : b.findCRLF with
  | none => rw [if_neg (b.findCRLF_none.mp found)]
  | some ch =>
    have present : 10 ∈ b.readable := by
      by_contra absent
      rw [b.findCRLF_none.mpr absent] at found; cases found
    obtain ⟨inside,_⟩ := List.findIdx?_eq_some_iff_getElem.mp found
    have index : b.readable.idxOf 10 = ch := (List.findIdx?_eq_some_iff_findIdx_eq.mp found).2
    rw [readable_length] at inside
    simp only [if_pos present,readString,if_pos (Nat.succ_le_of_lt inside),Queues.firstLine,index]

theorem getLineAndPop_spec (b : Buffer) (present : b.findCRLF ≠ none) : ∃ next,
    b.getLineAndPop = some (Queues.line b.readable,next) ∧
      next.readable = b.readable.drop (Queues.line b.readable).length := by
  have newline : 10 ∈ b.readable := by
    by_contra absent
    exact present (b.findCRLF_none.mpr absent)
  have below : b.readable.idxOf 10 < b.readable.length := List.idxOf_lt_length_of_mem newline
  have length : (Queues.line b.readable).length = b.readable.idxOf 10 + 1 := by
    rw [Queues.line,if_pos newline,Queues.firstLine,List.length_take_of_le below]
  have fits : (Queues.line b.readable).length ≤ b.readable.length := by rw [length]; exact below
  have positive : 0 < (Queues.line b.readable).length := by rw [length]; exact Nat.succ_pos _
  obtain ⟨next,moved,rest⟩ := b.moveReadOffset_spec fits positive
  refine ⟨next,?_,rest⟩
  simp only [getLineAndPop,getLine_spec,moved,Option.bind_eq_bind,Option.bind_some,Option.pure_def]

end Buffer

theorem step_represents (s : Buffers) (q : Queues) (call : Call) (represents : Represents s q)
    (asserted : s.Asserted call) : ∃ next, s.step call = some next ∧ Represents next (q.step call) := by
  cases call with
  | writeAndPush b data =>
    obtain ⟨next,pushed,represents⟩ := represents_append represents data
    exact ⟨_,by rw [Buffers.step,pushed]; rfl,represents⟩
  | writeStringAndPush b str =>
    obtain ⟨next,pushed,represents⟩ := represents_append represents str
    exact ⟨_,by rw [Buffers.step,Buffer.writeStringAndPush,pushed]; rfl,represents⟩
  | writeBufferAndPush b other =>
    obtain ⟨next,pushed,append⟩ := represents_append (b := b) represents (s.buffers other).readable
    rw [represents.readable] at append
    exact ⟨_,by rw [Buffers.step,Buffer.writeBufferAndPush,pushed]; rfl,append⟩
  | writeThenMove b data =>
    obtain ⟨next,pushed,represents⟩ := represents_append represents data
    rw [Buffer.writeAndPush] at pushed
    exact ⟨_,by rw [Buffers.step,pushed]; rfl,represents⟩
  | readAndPop b size =>
    obtain ⟨next,taken,_,rest⟩ := (s.buffers b).readAndPop_spec asserted.1 asserted.2
    refine ⟨_,by rw [Buffers.step,taken]; rfl,?_⟩
    rw [Queues.step,← represents.readable]
    exact represents_pop represents rest
  | readStringAndPop b size =>
    obtain ⟨next,taken,same,rest⟩ := (s.buffers b).readAndPop_spec asserted.1 asserted.2
    refine ⟨_,by rw [Buffers.step,same,taken]; rfl,?_⟩
    rw [Queues.step,← represents.readable]
    exact represents_pop represents rest
  | readString b size =>
    refine ⟨_,by rw [Buffers.step,Buffer.readString,if_pos (show size ≤ (s.buffers b).readableSize from asserted)]; rfl,?_⟩
    rw [Queues.step,← represents.readable]
    exact represents_peek represents
  | getLine b =>
    refine ⟨_,by rw [Buffers.step,Buffer.getLine_spec]; rfl,?_⟩
    rw [Queues.step,← represents.readable]
    exact represents_peek represents
  | getLineAndPop b =>
    obtain ⟨next,taken,rest⟩ := (s.buffers b).getLineAndPop_spec asserted
    refine ⟨_,by rw [Buffers.step,taken]; rfl,?_⟩
    rw [Queues.step,← represents.readable]
    exact represents_pop represents rest
  | swap b other =>
    have first := represents_put (b := b) represents (represents.readable other)
    exact ⟨_,rfl,represents_put (b := other) first (represents.readable b)⟩
  | clear b =>
    exact ⟨_,rfl,represents_put represents (s.buffers b).readable_clear⟩

structure InBounds (b : Buffer) : Prop where
  ordered : b.readIdx ≤ b.writeIdx
  inside : b.writeIdx ≤ b.buffer.length
  writes : ∀ size, (b.ensureAmpleWriteableSpace size).writeIdx + size ≤
    (b.ensureAmpleWriteableSpace size).buffer.length

theorem buffers_refine_queues (calls : List Call) (asserted : Machine.Throughout Buffers.step Buffers.Asserted {} calls) :
    ∃ s, Machine.run Buffers.step {} calls = some s ∧ Represents s (Queues.run {} calls) ∧
      ∀ b, InBounds (s.buffers b) := by
  have start : Represents {} {} := ⟨fun _ => Buffer.readable_start,rfl⟩
  obtain ⟨s,ran,represents⟩ := Machine.run_simulates step_represents start asserted
  exact ⟨s,ran,represents,fun b => ⟨(s.buffers b).ordered,(s.buffers b).inside,(s.buffers b).ensure_ample⟩⟩

theorem buffers_refine_queues_lines : ∃ s, Machine.run Buffers.step {} [.writeAndPush 0 [97,10,98],.getLineAndPop 0,
    .writeBufferAndPush 1 0,.swap 0 1,.writeStringAndPush 0 [10],.getLine 0,.readAndPop 1 1,.clear 0] = some s ∧
      Represents s (Queues.run {} [.writeAndPush 0 [97,10,98],.getLineAndPop 0,.writeBufferAndPush 1 0,.swap 0 1,
        .writeStringAndPush 0 [10],.getLine 0,.readAndPop 1 1,.clear 0]) ∧ ∀ b, InBounds (s.buffers b) :=
  buffers_refine_queues _ (by decide +kernel)

end LinuxOS.Muduo
