import LinuxOS.Machine
import LinuxOS.Cells

namespace LinuxOS.Concurrent
open Function (update)
open Machine Links Words Cells

-- An ObjectPool with the memory that its objects live in. `blocks` is what malloc gave, `live` the
-- objects that New returned and Delete has not got back, `deleted` those that Delete has and New has
-- not returned again; `returned` is every pointer that New ever returned. `underflow` says whether
-- `_remain_size -= obj_size` ever wrapped.
structure ObjectPool where
  bytes : Nat → UInt8
  memory : Nat := 0
  freeList : Nat := 0
  remainSize : Nat := 0
  blocks : List Nat := []
  live : List Nat := []
  deleted : List Nat := []
  returned : List Nat := []
  underflow : Bool := false

-- `answer` is what malloc returns if it is called, none for the null pointer.
inductive PoolAction where
  | new (answer : Option Nat)
  | delete (ptr : Nat)
  | write (addr : Nat) (value : UInt8)

namespace ObjectPool
variable (size : Nat) (s : ObjectPool)

-- sizeof(T), or the size of a pointer where that is larger.
def objSize : Nat := if 8 < size then size else 8

def blockSize : Nat := max (4 * 1024) (objSize size)

def handOut (cur : Nat) : ObjectPool :=
  {s with live := cur :: s.live, deleted := s.deleted.erase cur, returned := cur :: s.returned}

-- `_memory += obj_size; _remain_size -= obj_size`, the second on size_t.
def carve : ObjectPool := handOut {s with
  memory := s.memory + objSize size
  remainSize := (s.remainSize + 2^64 - objSize size) % 2^64
  underflow := s.underflow || s.remainSize < objSize size} s.memory

-- bad_alloc leaves the pool as it is.
def new (answer : Option Nat) : ObjectPool :=
  if s.freeList ≠ 0 then handOut {s with freeList := load s.bytes s.freeList 8} s.freeList
  else if s.remainSize < objSize size then
    match answer with
    | some tmp => carve size {s with memory := tmp, remainSize := blockSize size, blocks := tmp :: s.blocks}
    | none => s
  else carve size s

def delete (ptr : Nat) : ObjectPool := {s with
  bytes := store s.bytes ptr s.freeList 8
  freeList := ptr
  live := s.live.erase ptr
  deleted := ptr :: s.deleted}

def step : PoolAction → Option ObjectPool
  | .new answer => some (new size s answer)
  | .delete ptr => some (delete s ptr)
  | .write addr value => some {s with bytes := update s.bytes addr value}

-- malloc returns a block of its own; Delete gets outstanding objects, and the program (the
-- constructors that New runs included) writes only inside outstanding objects.
def Admitted : PoolAction → Prop
  | .new answer => ∀ tmp, answer = some tmp → Fresh (blockSize size) s.blocks tmp
  | .delete ptr => ptr ∈ s.live
  | .write addr _ => ∃ a ∈ s.live, a ≤ addr ∧ addr < a + size

structure Served : Prop where
  inside : ∀ a ∈ s.returned, Inside (blockSize size) s.blocks (objSize size) a
  disjoint : s.live.Pairwise (Apart (objSize size))
  free : Chain (Words.link s.bytes) (pointer s.freeList) s.deleted ∧ s.deleted.Nodup
  remain : s.underflow = false

def arena : Arena where
  bytes := s.bytes
  freeList := s.freeList
  next := s.memory
  remain := s.remainSize
  blocks := s.blocks
  live := s.live

structure Kept : Prop where
  sound : Sound (objSize size) (blockSize size) s.arena s.deleted
  known : ∀ a ∈ s.returned, a ∈ s.deleted ++ s.live
  whole : s.underflow = false

variable {size s} {next : ObjectPool} {action : PoolAction} {ptr addr : Nat} {answer : Option Nat}

theorem objSize_bounds (size : Nat) : 8 ≤ objSize size ∧ size ≤ objSize size ∧ objSize size ≤ blockSize size := by
  refine ⟨?_,?_,Nat.le_max_right ..⟩ <;> unfold objSize <;> split <;> omega

theorem Kept.served (kept : Kept size s) : Served size s := by
  have apart := List.pairwise_append.mp kept.sound.apart
  refine ⟨fun a member => kept.sound.inside a (kept.known a member),apart.2.1,⟨kept.sound.chain,?_⟩,kept.whole⟩
  exact (List.nodup_append.mp kept.sound.distinct).1

theorem kept_start (size : Nat) (bytes : Nat → UInt8) : Kept size {bytes} := by
  obtain ⟨word,_⟩ := objSize_bounds size
  exact ⟨sound_start (by omega) bytes,by simp,rfl⟩

theorem erase_fresh {live : List Nat} (distinct : (s.deleted ++ ptr :: live).Nodup) : s.deleted.erase ptr = s.deleted :=
  List.erase_of_not_mem fun member => (List.nodup_append.mp distinct).2.2 ptr member ptr List.mem_cons_self rfl

theorem known_handOut {pool : ObjectPool} (known : ∀ a ∈ pool.returned, a ∈ pool.deleted ++ pool.live) (cur : Nat) :
    ∀ a ∈ (handOut pool cur).returned, a ∈ (handOut pool cur).deleted ++ (handOut pool cur).live := by
  intro a member
  simp only [handOut] at member ⊢
  by_cases same : a = cur
  · rw [same]; exact List.mem_append_right _ List.mem_cons_self
  · rcases List.mem_append.mp (known a ((List.mem_cons.mp member).resolve_left same)) with old | old
    · exact List.mem_append_left _ ((List.mem_erase_of_ne same).mpr old)
    · exact List.mem_append_right _ (List.mem_cons_of_mem _ old)

theorem Kept.carve (kept : Kept size s) (room : objSize size ≤ s.remainSize) : Kept size (carve size s) := by
  have carved := kept.sound.carve room
  have word : s.remainSize < 2^64 := kept.sound.remain_lt
  have rest : (s.remainSize + 2^64 - objSize size) % 2^64 = s.remainSize - objSize size := by
    have exact' : s.remainSize + 2^64 - objSize size = s.remainSize - objSize size + 2^64 := by omega
    rw [exact',Nat.add_mod_right,Nat.mod_eq_of_lt (by omega)]
  have fresh : s.deleted.erase s.memory = s.deleted := erase_fresh carved.distinct
  refine ⟨?_,known_handOut kept.known s.memory,?_⟩
  · simp only [ObjectPool.carve,handOut,arena,rest,fresh]
    exact carved
  · simp only [ObjectPool.carve,handOut,kept.whole,Bool.false_or]
    exact decide_eq_false (Nat.not_lt.mpr room)

theorem Kept.pop (kept : Kept size s) (some_cell : s.freeList ≠ 0) :
    Kept size (handOut {s with freeList := load s.bytes s.freeList 8} s.freeList) := by
  obtain ⟨rest,deleted⟩ := kept.sound.head some_cell
  have popped := kept.sound
  rw [deleted] at popped
  refine ⟨?_,?_,?_⟩
  · simp only [handOut,arena,deleted]
    rw [List.erase_cons_head]
    exact popped.pop
  · apply known_handOut
    exact kept.known
  · simp only [handOut]
    exact kept.whole

theorem Kept.new (kept : Kept size s) (granted : ∀ tmp, answer = some tmp → Fresh (blockSize size) s.blocks tmp) :
    Kept size (new size s answer) := by
  unfold ObjectPool.new
  split
  · rename_i some_cell
    exact kept.pop some_cell
  · split
    · cases answer with
      | none => exact kept
      | some tmp =>
        have refilled : Kept size {s with memory := tmp, remainSize := blockSize size, blocks := tmp :: s.blocks} :=
          ⟨kept.sound.refill (granted tmp rfl),kept.known,kept.whole⟩
        exact refilled.carve (objSize_bounds size).2.2
    · rename_i room
      exact kept.carve (Nat.not_lt.mp room)

theorem Kept.delete (kept : Kept size s) (user : ptr ∈ s.live) : Kept size (delete s ptr) := by
  refine ⟨kept.sound.push (objSize_bounds size).1 user,fun a member => ?_,kept.whole⟩
  exact (perm_freed s.deleted user).mem_iff.mp (kept.known a member)

theorem step_kept (kept : Kept size s) (admitted : Admitted size s action) :
    ∃ next, step size s action = some next ∧ Kept size next := by
  cases action with
  | new answer => exact ⟨_,rfl,kept.new admitted⟩
  | delete ptr => exact ⟨_,rfl,kept.delete admitted⟩
  | write addr value =>
    obtain ⟨a,user,low,high⟩ := admitted
    have wide := (objSize_bounds size).2.1
    exact ⟨_,rfl,kept.sound.scribble user low (by omega) value,kept.known,kept.whole⟩

theorem objects_disjoint (size : Nat) (bytes : Nat → UInt8) (actions : List PoolAction)
    (admitted : Throughout (step size) (Admitted size) {bytes} actions) :
    ∃ s, run (step size) {bytes} actions = some s ∧ Served size s := by
  obtain ⟨s,ran,kept⟩ := run_succeeds (fun s action => step_kept) (kept_start size bytes) admitted
  exact ⟨s,ran,kept.served⟩

instance : DecidablePred (Admitted size s)
  | .new none => .isTrue fun _ => by simp
  | .new (some tmp) => decidable_of_iff (Fresh (blockSize size) s.blocks tmp) (by simp [Admitted])
  | .delete ptr => inferInstanceAs (Decidable (ptr ∈ s.live))
  | .write addr _ => inferInstanceAs (Decidable (∃ a ∈ s.live, a ≤ addr ∧ addr < a + size))

theorem objects_disjoint_bytes : ∃ s, run (step 1) {bytes := fun _ => 255}
    [.new (some 65536),.new none,.delete 65536,.delete 65544,.new none,.write 65544 7,.new none] = some s ∧ Served 1 s :=
  objects_disjoint 1 (fun _ => 255) _ (by decide +kernel)

end ObjectPool
end LinuxOS.Concurrent
