import LinuxOS.Bytes
import LinuxOS.Machine

namespace LinuxOS.Files
open Machine

def bufferSize : Nat := 1024

inductive FlushMod where
  | lineFlush | fullFlush
  deriving DecidableEq, Repr

-- `out` are the bytes that write() was given.
structure MyFile where
  flushMod : FlushMod
  buf : Bytes
  capacity : Nat := bufferSize
  pos : Nat := 0
  out : Bytes := []
  sized : buf.length = bufferSize

namespace MyFile

-- malloc leaves the buffer with whatever bytes were there.
def myopen (flushMod : FlushMod) (garbage : Bytes) (sized : garbage.length = bufferSize) : MyFile where
  flushMod := flushMod
  buf := garbage
  sized := sized

-- write(fd, buf, SIZE): the whole buffer.
def myflush (f : MyFile) : MyFile := if f.pos ≠ 0 then {f with out := f.out ++ f.buf, pos := 0} else f

-- memcpy goes to the start of the buffer.
def copy (f : MyFile) (data : Bytes) (fits : data.length ≤ bufferSize) : MyFile :=
  {f with
    buf := f.buf.splice 0 data
    pos := f.pos + data.length
    sized := by
      have sized := f.sized
      rw [Bytes.splice_length (by omega)]
      exact sized}

def full (f : MyFile) : Bool :=
  match f.flushMod with
  | .lineFlush => f.buf[f.pos - 1]? = some 10
  | .fullFlush => f.pos = f.capacity

-- Only while the copy and the byte that is tested lie in the buffer.
def mywrite (f : MyFile) (data : Bytes) : Option MyFile :=
  if inside : 0 < f.pos + data.length ∧ f.pos + data.length ≤ bufferSize then
    let copied := f.copy data (Nat.le_trans (Nat.le_add_left _ _) inside.2)
    some (if copied.full then copied.myflush else copied)
  else none

inductive Call where
  | mywrite (data : Bytes)
  | myflush

def step (f : MyFile) : Call → Option MyFile
  | .mywrite data => f.mywrite data
  | .myflush => some f.myflush

def myfclose (f : MyFile) : Bytes := f.myflush.out

end MyFile

open MyFile

def given : List Call → Bytes
  | [] => []
  | .mywrite data :: rest => data ++ given rest
  | .myflush :: rest => given rest

def latest : List Bytes → Nat → Option UInt8
  | [],_ => none
  | data :: older,p => if p < data.length then data[p]? else latest older p

-- Nothing has been written since the last flush, or exactly a buffer full, of which each
-- byte is the last one that was copied to its place.
def Whole (history : List Bytes) (group : Bytes) : Prop :=
  group = [] ∨ group.length = bufferSize ∧ ∀ p < bufferSize, latest history p = group[p]?

def flushes (flushMod : FlushMod) (history : List Bytes) (group : Bytes) : Bool :=
  match flushMod with
  | .lineFlush => latest history (group.length - 1) = some 10
  | .fullFlush => group.length = bufferSize

-- Every flush, asked for, by a full buffer or a line end, or by the close, finds what was
-- written since the last one whole. `history` are all writes so far, the last one first.
def AllWhole (flushMod : FlushMod) : List Bytes → Bytes → List Call → Prop
  | history,group,[] => Whole history group
  | history,group,.myflush :: rest => Whole history group ∧ AllWhole flushMod history [] rest
  | history,group,.mywrite data :: rest =>
    if flushes flushMod (data :: history) (group ++ data) then
      Whole (data :: history) (group ++ data) ∧ AllWhole flushMod (data :: history) [] rest
    else AllWhole flushMod (data :: history) (group ++ data) rest

structure Follows (f : MyFile) (flushMod : FlushMod) (history : List Bytes) (group : Bytes) : Prop where
  mode : f.flushMod = flushMod
  capacity : f.capacity = bufferSize
  counted : f.pos = group.length
  bounded : f.pos ≤ bufferSize
  overlaid : ∀ p < bufferSize, f.buf[p]? = latest history p

def Accounts (f : MyFile) (final due : Bytes) (condition : Prop) : Prop :=
  ∃ rest, final = f.out ++ rest ∧ due.length ≤ rest.length ∧ (rest = due ↔ condition)

variable {f last : MyFile} {flushMod : FlushMod} {history : List Bytes} {group data due final garbage : Bytes}
variable {condition : Prop} {calls : List Call}

theorem open_follows (sized : garbage.length = bufferSize) :
    Follows (myopen flushMod garbage sized) flushMod [garbage] [] := by
  refine ⟨rfl,rfl,rfl,Nat.zero_le _,fun p below => ?_⟩
  rw [latest,if_pos (by omega)]
  rfl

theorem Follows.whole_iff (follows : Follows f flushMod history group) (some_byte : f.pos ≠ 0) :
    f.buf = group ↔ Whole history group := by
  have nonempty : group ≠ [] := by
    rintro rfl
    exact some_byte follows.counted
  constructor
  · intro same
    refine .inr ⟨by rw [← same]; exact f.sized,fun p below => ?_⟩
    rw [← follows.overlaid p below,same]
  · rintro (empty | ⟨length,bytes⟩)
    · exact absurd empty nonempty
    · apply List.ext_getElem?
      intro p
      by_cases below : p < bufferSize
      · rw [follows.overlaid p below,bytes p below]
      · rw [List.getElem?_eq_none (by rw [f.sized]; omega),List.getElem?_eq_none (by omega)]

theorem Follows.flush (follows : Follows f flushMod history group) : Follows f.myflush flushMod history [] := by
  unfold myflush
  split
  · exact ⟨follows.mode,follows.capacity,rfl,Nat.zero_le _,follows.overlaid⟩
  · rename_i empty
    have zero : f.pos = 0 := by simpa using empty
    exact ⟨follows.mode,follows.capacity,zero,follows.bounded,follows.overlaid⟩

theorem Follows.copy (follows : Follows f flushMod history group) (fits : f.pos + data.length ≤ bufferSize)
    (fits' : data.length ≤ bufferSize) : Follows (f.copy data fits') flushMod (data :: history) (group ++ data) := by
  refine ⟨follows.mode,follows.capacity,?_,fits,fun p below => ?_⟩
  · show f.pos + data.length = _
    rw [List.length_append,follows.counted]
  · have old := follows.overlaid p below
    have sized := f.sized
    show (f.buf.splice 0 data)[p]? = latest (data :: history) p
    rw [latest,Bytes.splice,List.take_zero,List.nil_append,Nat.zero_add]
    split
    · rename_i new
      rw [List.getElem?_append_left new]
    · rename_i kept
      rw [List.getElem?_append_right (by omega),List.getElem?_drop,← old]
      congr 1
      omega

theorem Follows.full_iff (follows : Follows f flushMod history group) (some_byte : group ≠ []) :
    f.full = flushes flushMod history group := by
  have length := List.length_pos_of_ne_nil some_byte
  have bounded := follows.bounded
  have counted := follows.counted
  unfold full flushes
  rw [follows.mode]
  cases flushMod with
  | lineFlush =>
    have byte := follows.overlaid (f.pos - 1) (by omega)
    rw [counted] at byte
    simp only [byte,counted]
  | fullFlush => simp only [counted,follows.capacity]

theorem Accounts.flush (follows : Follows f flushMod history group) (later : Accounts f.myflush final due condition) :
    Accounts f final (group ++ due) (Whole history group ∧ condition) := by
  obtain ⟨rest,shape,enough,exact'⟩ := later
  have bounded := follows.bounded
  have counted := follows.counted
  by_cases empty : f.pos = 0
  · have nothing : group = [] := List.eq_nil_of_length_eq_zero (by omega)
    have same : f.myflush = f := if_neg (by simp [empty])
    rw [same] at shape
    refine ⟨rest,shape,by rw [nothing]; exact enough,?_⟩
    rw [nothing,List.nil_append,exact']
    exact ⟨fun holds => ⟨.inl rfl,holds⟩,fun holds => holds.2⟩
  · have written : f.myflush.out = f.out ++ f.buf := by rw [myflush,if_pos empty]
    have sized := f.sized
    rw [written,List.append_assoc] at shape
    refine ⟨f.buf ++ rest,shape,?_,?_⟩
    · rw [List.length_append,List.length_append]
      omega
    · rw [← follows.whole_iff empty,← exact']
      constructor
      · intro same
        have lengths := congrArg List.length same
        rw [List.length_append,List.length_append] at lengths
        exact List.append_inj same (by omega)
      · rintro ⟨rfl,rfl⟩
        rfl

theorem run_accounts (calls : List Call) (follows : Follows f flushMod history group)
    (some_bytes : ∀ data, .mywrite data ∈ calls → data ≠ []) (ran : run step f calls = some last) :
    Accounts f last.myfclose (group ++ given calls) (AllWhole flushMod history group calls) := by
  induction calls generalizing f history group with
  | nil =>
    cases ran
    have closed : Accounts last.myflush last.myfclose [] True := ⟨[],by simp [myfclose],Nat.le_refl _,by simp⟩
    have flushed := closed.flush follows
    rwa [and_true] at flushed
  | cons call calls ih =>
    obtain ⟨middle,taken,rest⟩ := Option.bind_eq_some_iff.mp ran
    have later : ∀ data, .mywrite data ∈ calls → data ≠ [] := fun data found => some_bytes data (List.mem_cons_of_mem _ found)
    cases call with
    | myflush =>
      cases taken
      exact (ih follows.flush later rest).flush follows
    | mywrite data =>
      have some_byte := some_bytes data List.mem_cons_self
      simp only [step,MyFile.mywrite] at taken
      split at taken
      · rename_i inside
        have fits' : data.length ≤ bufferSize := Nat.le_trans (Nat.le_add_left _ _) inside.2
        have copied : Follows (f.copy data fits') flushMod (data :: history) (group ++ data) := follows.copy inside.2 fits'
        have decided := copied.full_iff (by simp [some_byte])
        have owed : group ++ given (.mywrite data :: calls) = (group ++ data) ++ given calls := by
          rw [given,List.append_assoc]
        cases taken
        rw [owed,AllWhole,← decided]
        show Accounts (f.copy data fits') _ _ _
        split at rest
        · rename_i full
          rw [if_pos full]
          exact (ih copied.flush later rest).flush copied
        · rename_i more
          rw [if_neg more]
          exact ih copied later rest
      · cases taken

theorem step_fits {call : Call} (fits : f.pos ≤ f.capacity ∧ f.capacity = bufferSize) (taken : step f call = some last) :
    last.pos ≤ last.capacity ∧ last.capacity = bufferSize := by
  have flushed : ∀ g : MyFile, g.pos ≤ g.capacity ∧ g.capacity = bufferSize →
      g.myflush.pos ≤ g.myflush.capacity ∧ g.myflush.capacity = bufferSize := by
    intro g fits
    unfold MyFile.myflush
    split
    · exact ⟨Nat.zero_le _,fits.2⟩
    · exact fits
  cases call with
  | myflush => cases taken; exact flushed f fits
  | mywrite data =>
    simp only [step,MyFile.mywrite] at taken
    split at taken
    · rename_i inside
      have copied : ∀ fits', (f.copy data fits').pos ≤ (f.copy data fits').capacity ∧
          (f.copy data fits').capacity = bufferSize := fun _ => ⟨by rw [← fits.2] at inside; exact inside.2,fits.2⟩
      cases taken
      split
      · exact flushed _ (copied _)
      · exact copied _
    · cases taken

-- The bytes that reach the descriptor are the given ones exactly if every flush finds
-- its group whole; the position stays within the capacity in any case.
theorem myfclose_exact (flushMod : FlushMod) (garbage : Bytes) (sized : garbage.length = bufferSize) (calls : List Call)
    (some_bytes : ∀ data, .mywrite data ∈ calls → data ≠ [])
    (ran : run step (myopen flushMod garbage sized) calls = some last) :
    (last.myfclose = given calls ∧ ∀ front middle, front <+: calls →
      run step (myopen flushMod garbage sized) front = some middle → middle.pos ≤ middle.capacity) ↔
        AllWhole flushMod [garbage] [] calls := by
  obtain ⟨rest,shape,_,exact'⟩ := run_accounts calls (open_follows sized) some_bytes ran
  have within : ∀ front middle, front <+: calls → run step (myopen flushMod garbage sized) front = some middle →
      middle.pos ≤ middle.capacity := fun front middle _ ran =>
    (run_invariant (motive := fun f => f.pos ≤ f.capacity ∧ f.capacity = bufferSize)
      (fun _ _ _ fits taken => step_fits fits taken) ⟨Nat.zero_le _,rfl⟩ ran).1
  have all : last.myfclose = rest := shape
  rw [all,← exact',List.nil_append]
  exact ⟨fun holds => holds.1,fun holds => ⟨holds,within⟩⟩

def hello : List Call := [.mywrite (ascii "hello world\n"),.myflush]

def zeros : Bytes := List.replicate bufferSize 0

theorem zeros_sized : zeros.length = bufferSize := List.length_replicate

theorem myfclose_exact_hello : ∃ last, run step (myopen .fullFlush zeros zeros_sized) hello = some last ∧
    ((last.myfclose = given hello ∧ ∀ front middle, front <+: hello →
      run step (myopen .fullFlush zeros zeros_sized) front = some middle → middle.pos ≤ middle.capacity) ↔
        AllWhole .fullFlush [zeros] [] hello) := by
  refine ⟨_,rfl,?_⟩
  exact myfclose_exact .fullFlush zeros zeros_sized hello (by simp [hello,ascii]) rfl

-- The repository's own test: a line, a flush and the close write 1024 bytes.
theorem myfclose_hello : ¬∀ (flushMod : FlushMod) (garbage : Bytes) (sized : garbage.length = bufferSize) (calls : List Call)
    (last : MyFile), (∀ data, .mywrite data ∈ calls → data ≠ []) →
    run step (myopen flushMod garbage sized) calls = some last → last.myfclose = given calls := by
  intro holds
  have same := holds .fullFlush zeros zeros_sized hello _ (by simp [hello,ascii]) rfl
  exact absurd (congrArg List.length same) (by decide +kernel)

end LinuxOS.Files
