import LinuxOS.Machine
import LinuxOS.Cells
import Mathlib.Algebra.Group.Int.Defs

namespace LinuxOS.Pool
open Function (update)
open Machine Links Words Cells

-- An ObjectPool with the memory that its objects live in. `chunks` is what SystemAlloc gave, `live`
-- the objects that New returned and Delete has not got back, `returned` every pointer that New ever
-- returned, `linked` every pointer that Delete wrote a link word to. `_remain_size` is an int.
structure ObjectPool where
  bytes : Nat → UInt8
  freeList : Nat := 0
  memory : Nat := 0
  remainSize : Int := 0
  chunks : List Nat := []
  live : List Nat := []
  returned : List Nat := []
  linked : List Nat := []

-- `answer` is where SystemAlloc(1) places the chunk if it is called; at none it throws.
inductive PoolAction where
  | new (answer : Option Nat)
  | delete (ptr : Nat)
  | write (addr : Nat) (value : UInt8)

namespace ObjectPool
variable (size : Nat) (s : ObjectPool)

def chunkSize : Nat := 8192

def objSize : Nat := if size < 8 then 8 else size

-- `_remain_size < obj_size`: the int is converted to size_t.
def short : Prop := (s.remainSize % 2^64).toNat < objSize size

instance : Decidable (short size s) := inferInstanceAs (Decidable (_ < _))

def handOut (obj : Nat) : ObjectPool := {s with live := obj :: s.live, returned := obj :: s.returned}

-- `_remain_size -= sizeof(T)` is computed on size_t and stored in the int.
def carve : ObjectPool := handOut {s with
  remainSize := Int.bmod (s.remainSize - size) (2^32)
  memory := s.memory + size} s.memory

-- `_remain_size` is set before SystemAlloc is called, so it stays set when that throws.
def new (answer : Option Nat) : ObjectPool :=
  if s.freeList ≠ 0 then handOut {s with freeList := load s.bytes s.freeList 8} s.freeList
  else if short size s then
    match answer with
    | some chunk => carve size {s with remainSize := 8192, memory := chunk, chunks := chunk :: s.chunks}
    | none => {s with remainSize := 8192}
  else carve size s

def delete (ptr : Nat) : ObjectPool := {s with
  bytes := store s.bytes ptr s.freeList 8
  freeList := ptr
  live := s.live.erase ptr
  linked := ptr :: s.linked}

def step : PoolAction → Option ObjectPool
  | .new answer => some (new size s answer)
  | .delete ptr => some (delete s ptr)
  | .write addr value => some {s with bytes := update s.bytes addr value}

-- mmap returns a chunk of its own; Delete gets outstanding objects, and the program (the
-- constructors that New runs included) writes only inside outstanding objects.
def Admitted : PoolAction → Prop
  | .new answer => ∀ chunk, answer = some chunk → Fresh chunkSize s.chunks chunk
  | .delete ptr => ptr ∈ s.live
  | .write addr _ => ∃ a ∈ s.live, a ≤ addr ∧ addr < a + size

-- An object is no larger than a chunk, a deleted one has room for a link, and no SystemAlloc fails.
def Fits : PoolAction → Prop
  | .new answer => size ≤ chunkSize ∧ (answer = none → s.freeList ≠ 0 ∨ ¬short size s)
  | .delete _ => 8 ≤ size
  | .write _ _ => True

def Guarded (action : PoolAction) : Prop := Admitted size s action ∧ Fits size s action

structure Served : Prop where
  inside : ∀ a ∈ s.returned, Inside chunkSize s.chunks size a
  disjoint : s.live.Pairwise (Apart size)
  links : ∀ a ∈ s.linked, ∀ x, a ≤ x → x < a + 8 → x < a + size

def arena : Arena where
  bytes := s.bytes
  freeList := s.freeList
  next := s.memory
  remain := s.remainSize.toNat
  blocks := s.chunks
  live := s.live

structure Kept (free : List Nat) : Prop where
  sound : Sound size chunkSize s.arena free
  known : ∀ a ∈ s.returned, a ∈ free ++ s.live
  remain : 0 ≤ s.remainSize ∧ s.remainSize ≤ chunkSize
  links : s.linked = [] ∨ 8 ≤ size

variable {size s} {next : ObjectPool} {action : PoolAction} {ptr addr : Nat} {answer : Option Nat} {free : List Nat}

theorem objSize_bounds (size : Nat) : 8 ≤ objSize size ∧ size ≤ objSize size := by
  unfold objSize
  split <;> omega

theorem Kept.served (kept : Kept size s free) : Served size s := by
  refine ⟨fun a member => kept.sound.inside a (kept.known a member),(List.pairwise_append.mp kept.sound.apart).2.1,?_⟩
  intro a member x low high
  have room := kept.links.resolve_left (List.ne_nil_of_mem member)
  omega

theorem kept_start (positive : 1 ≤ size) (bytes : Nat → UInt8) : Kept size {bytes} [] :=
  ⟨sound_start positive bytes,by simp,by simp,.inl rfl⟩

theorem Kept.short_iff (kept : Kept size s free) : short size s ↔ s.remainSize.toNat < objSize size := by
  obtain ⟨low,high⟩ := kept.remain
  rw [chunkSize] at high
  rw [short,Int.emod_eq_of_lt low (by omega)]

theorem Kept.carve (kept : Kept size s free) (room : objSize size ≤ s.remainSize.toNat) (fits : size ≤ chunkSize) :
    Kept size (carve size s) free := by
  obtain ⟨low,high⟩ := kept.remain
  obtain ⟨_,wide⟩ := objSize_bounds size
  rw [chunkSize] at high fits
  have rest : Int.bmod (s.remainSize - size) (2^32) = s.remainSize - size := by
    apply Int.bmod_eq_of_le <;> omega
  have part : (s.remainSize - size).toNat = s.remainSize.toNat - size := by omega
  have carved := kept.sound.carve (show size ≤ s.arena.remain from Nat.le_trans wide room)
  refine ⟨?_,?_,?_,kept.links⟩
  · simp only [ObjectPool.carve,handOut,arena,rest,part]
    exact carved
  · simp only [ObjectPool.carve,handOut]
    intro a member
    rcases List.mem_cons.mp member with rfl | old
    · exact List.mem_append_right _ List.mem_cons_self
    · exact (List.mem_append.mp (kept.known a old)).elim (List.mem_append_left _)
        fun live => List.mem_append_right _ (List.mem_cons_of_mem _ live)
  · simp only [ObjectPool.carve,handOut,rest,chunkSize]
    omega

theorem Kept.pop (kept : Kept size s free) (some_cell : s.freeList ≠ 0) :
    ∃ rest, Kept size (handOut {s with freeList := load s.bytes s.freeList 8} s.freeList) rest := by
  obtain ⟨rest,rfl⟩ := kept.sound.head some_cell
  have popped := kept.sound.pop
  refine ⟨rest,?_,?_,?_,?_⟩ <;> simp only [handOut]
  · simp only [arena]
    exact popped
  · intro a member
    rcases List.mem_cons.mp member with rfl | old
    · exact List.mem_append_right _ List.mem_cons_self
    · exact List.perm_middle.mem_iff.mpr (kept.known a old)
  · exact kept.remain
  · exact kept.links

theorem Kept.new (kept : Kept size s free) (guarded : Guarded size s (.new answer)) :
    ∃ free, Kept size (new size s answer) free := by
  obtain ⟨granted,fits,given⟩ := guarded
  unfold ObjectPool.new
  split
  · rename_i some_cell
    exact kept.pop some_cell
  · rename_i none'
    split
    · rename_i short
      cases answer with
      | none => exact absurd ((given rfl).resolve_left none') (fun long => long short)
      | some chunk =>
        have refilled : Kept size {s with remainSize := 8192, memory := chunk, chunks := chunk :: s.chunks} free :=
          ⟨kept.sound.refill (granted chunk rfl),kept.known,by simp [chunkSize],kept.links⟩
        refine ⟨free,refilled.carve ?_ fits⟩
        change objSize size ≤ 8192
        unfold objSize
        split
        · decide
        · exact fits
    · rename_i long
      exact ⟨free,kept.carve (Nat.not_lt.mp (mt kept.short_iff.mpr long)) fits⟩

theorem Kept.delete (kept : Kept size s free) (room : 8 ≤ size) (user : ptr ∈ s.live) :
    Kept size (delete s ptr) (ptr :: free) := by
  refine ⟨kept.sound.push room user,fun a member => ?_,kept.remain,.inr room⟩
  exact (perm_freed free user).mem_iff.mp (kept.known a member)

theorem step_kept (kept : ∃ free, Kept size s free) (guarded : Guarded size s action) :
    ∃ next, step size s action = some next ∧ ∃ free, Kept size next free := by
  obtain ⟨free,kept⟩ := kept
  cases action with
  | new answer => exact ⟨_,rfl,kept.new guarded⟩
  | delete ptr => exact ⟨_,rfl,_,kept.delete guarded.2 guarded.1⟩
  | write addr value =>
    obtain ⟨a,user,low,high⟩ := guarded.1
    exact ⟨_,rfl,free,kept.sound.scribble user low high value,kept.known,kept.remain,kept.links⟩

theorem objects_inside_chunks (size : Nat) (positive : 1 ≤ size) (bytes : Nat → UInt8) (actions : List PoolAction)
    (guarded : Throughout (step size) (Guarded size) {bytes} actions) :
    ∃ s, run (step size) {bytes} actions = some s ∧ Served size s := by
  obtain ⟨s,ran,_,kept⟩ := run_succeeds (fun s action => step_kept) ⟨[],kept_start positive bytes⟩ guarded
  exact ⟨s,ran,kept.served⟩

instance : DecidablePred (Admitted size s)
  | .new none => .isTrue fun _ => by simp
  | .new (some chunk) => decidable_of_iff (Fresh chunkSize s.chunks chunk) (by simp [Admitted])
  | .delete ptr => inferInstanceAs (Decidable (ptr ∈ s.live))
  | .write addr _ => inferInstanceAs (Decidable (∃ a ∈ s.live, a ≤ addr ∧ addr < a + size))

instance : DecidablePred (Fits size s)
  | .new answer => inferInstanceAs (Decidable (_ ∧ (answer = none → _)))
  | .delete _ => inferInstanceAs (Decidable (8 ≤ size))
  | .write _ _ => .isTrue trivial

instance : DecidablePred (Guarded size s) := fun action => inferInstanceAs (Decidable (Admitted size s action ∧ Fits size s action))

theorem objects_inside_chunks_spans : ∃ s, run (step 56) {bytes := fun _ => 255}
    [.new (some 65536),.new none,.delete 65536,.write 65600 7,.new none] = some s ∧ Served 56 s :=
  objects_inside_chunks 56 (by decide) (fun _ => 255) _ (by decide +kernel)

theorem served_sizes (served : Served size s) :
    (s.returned ≠ [] → size ≤ chunkSize) ∧ (s.linked ≠ [] → 8 ≤ size) := by
  constructor
  · intro some_object
    obtain ⟨a,member⟩ := List.exists_mem_of_ne_nil _ some_object
    obtain ⟨b,_,low,high⟩ := served.inside a member
    omega
  · intro some_link
    obtain ⟨a,member⟩ := List.exists_mem_of_ne_nil _ some_link
    have last := served.links a member (a + 7) (by omega) (by omega)
    omega

-- A refused chunk leaves 8192 bytes that are not there: the next New takes its object from wherever
-- `_memory` points, which is null in a new pool and past the last object otherwise.
theorem refused_chunk_overruns (fits : size ≤ chunkSize) (empty : s.freeList = 0) (spent : short size s)
    (stale : ¬Inside chunkSize s.chunks size s.memory) (answer : Option Nat) :
    ¬Served size (new size (new size s none) answer) := by
  intro served
  have refused : new size s none = {s with remainSize := 8192} := by
    rw [ObjectPool.new.eq_def,if_neg (not_not.mpr empty),if_pos spent]
  have stocked : ¬short size {s with remainSize := 8192} := by
    change ¬8192 < objSize size
    rw [chunkSize] at fits
    unfold objSize
    split <;> omega
  have taken : new size {s with remainSize := 8192} answer = carve size {s with remainSize := 8192} := by
    rw [ObjectPool.new.eq_def,if_neg (not_not.mpr empty),if_neg stocked]
  rw [refused,taken] at served
  exact stale (served.inside s.memory List.mem_cons_self)

-- CentralCache has 209 lists of 48 bytes, its pool chunks of 8192.
theorem central_cache_overruns : ¬ ∀ (size : Nat) (bytes : Nat → UInt8) (actions : List PoolAction), 1 ≤ size →
    Throughout (step size) (Admitted size) {bytes} actions →
    ∃ s, run (step size) {bytes} actions = some s ∧ Served size s := by
  intro claimed
  obtain ⟨s,ran,served⟩ := claimed (209 * 48) (fun _ => 0) [.new (some 65536)] (by decide) (by decide +kernel)
  have returned : (run (step (209 * 48)) {bytes := fun _ => 0} [.new (some 65536)]).map (·.returned) = some [65536] := by
    decide +kernel
  rw [ran] at returned
  have some_object : s.returned ≠ [] := by
    have same : s.returned = [65536] := Option.some.inj returned
    rw [same]
    exact List.cons_ne_nil _ _
  exact absurd ((served_sizes served).1 some_object) (by decide)

end ObjectPool
end LinuxOS.Pool
