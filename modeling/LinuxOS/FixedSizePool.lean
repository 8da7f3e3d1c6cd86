import LinuxOS.Machine
import LinuxOS.Cells
import Mathlib.Algebra.Group.Int.Defs

namespace LinuxOS.FixedSizePool
open Function (update)
open Machine Links Words Cells

-- The ObjectPool of FixedSizePool.h with the memory that its objects live in. `blocks` is what
-- malloc gave, `live` the objects that New returned and Delete has not got back, `returned`
-- every pointer that New ever returned. `_remain_size` is an int.
structure ObjectPool where
  bytes : Nat → UInt8
  memory : Nat := 0
  freeList : Nat := 0
  remainSize : Int := 0
  blocks : List Nat := []
  live : List Nat := []
  returned : List Nat := []

-- `answer` is what malloc returns if it is called, none for the null pointer.
inductive Action where
  | new (answer : Option Nat)
  | delete (ptr : Nat)
  | write (addr : Nat) (value : UInt8)

namespace ObjectPool
variable (size : Nat) (s : ObjectPool)

def blockSize : Nat := 4 * 1024

-- sizeof(T), or the size of a pointer where that is larger.
def objSize : Nat := if 8 < size then size else 8

-- `_remain_size < sizeof(T)`, not obj_size: the int is converted to size_t.
def short : Prop := (s.remainSize % 2^64).toNat < size

instance : Decidable (short size s) := inferInstanceAs (Decidable (_ < _))

def handOut (cur : Nat) : ObjectPool := {s with live := cur :: s.live, returned := cur :: s.returned}

def carve : ObjectPool := handOut {s with
  memory := s.memory + objSize size
  remainSize := Int.bmod (s.remainSize - objSize size) (2^32)} s.memory

-- `_remain_size` is set before malloc is called, so it stays set at bad_alloc.
def new (answer : Option Nat) : ObjectPool :=
  if s.freeList ≠ 0 then handOut {s with freeList := load s.bytes s.freeList 8} s.freeList
  else if short size s then
    match answer with
    | some tmp => carve size {s with remainSize := 4 * 1024, memory := tmp, blocks := tmp :: s.blocks}
    | none => {s with remainSize := 4 * 1024}
  else carve size s

def delete (ptr : Nat) : ObjectPool := {s with
  bytes := store s.bytes ptr s.freeList 8
  freeList := ptr
  live := s.live.erase ptr}

def step : Action → Option ObjectPool
  | .new answer => some (new size s answer)
  | .delete ptr => some (delete s ptr)
  | .write addr value => some {s with bytes := update s.bytes addr value}

-- malloc returns a block of its own, and never null; Delete gets outstanding objects, and the
-- program (the constructors that New runs included) writes only inside outstanding objects.
def Admitted : Action → Prop
  | .new answer => (∀ tmp, answer = some tmp → Fresh blockSize s.blocks tmp) ∧
      (answer = none → s.freeList ≠ 0 ∨ ¬short size s)
  | .delete ptr => ptr ∈ s.live
  | .write addr _ => ∃ a ∈ s.live, a ≤ addr ∧ addr < a + size

instance : DecidablePred (Admitted size s)
  | .new none => decidable_of_iff (s.freeList ≠ 0 ∨ ¬short size s) (by simp [Admitted])
  | .new (some tmp) => decidable_of_iff (Fresh blockSize s.blocks tmp) (by simp [Admitted])
  | .delete ptr => inferInstanceAs (Decidable (ptr ∈ s.live))
  | .write addr _ => inferInstanceAs (Decidable (∃ a ∈ s.live, a ≤ addr ∧ addr < a + size))

structure Served : Prop where
  inside : ∀ a ∈ s.returned, Inside blockSize s.blocks size a
  disjoint : s.live.Pairwise (Apart size)

def arena : Arena where
  bytes := s.bytes
  freeList := s.freeList
  next := s.memory
  remain := s.remainSize.toNat
  blocks := s.blocks
  live := s.live

-- `free` is what the free list has. What a small type leaves of a block is a multiple of what it takes.
structure Kept (free : List Nat) : Prop where
  sound : Sound (objSize size) blockSize s.arena free
  known : ∀ a ∈ s.returned, a ∈ free ++ s.live
  remain : 0 ≤ s.remainSize ∧ s.remainSize ≤ blockSize
  whole : size ≤ 8 → s.remainSize % 8 = 0

variable {size s} {action : Action} {ptr : Nat} {answer : Option Nat} {free : List Nat}

theorem objSize_bounds (size : Nat) : 8 ≤ objSize size ∧ size ≤ objSize size := by
  unfold objSize
  split <;> omega

theorem Kept.served (kept : Kept size s free) : Served size s := by
  have wide := (objSize_bounds size).2
  refine ⟨fun a member => ?_,(List.pairwise_append.mp kept.sound.apart).2.1.imp fun apart => ?_⟩
  · obtain ⟨b,given,low,high⟩ := kept.sound.inside a (kept.known a member)
    exact ⟨b,given,low,by omega⟩
  · rcases apart with before | before
    · exact .inl (by omega)
    · exact .inr (by omega)

theorem kept_start (size : Nat) (bytes : Nat → UInt8) : Kept size {bytes} [] := by
  have word := (objSize_bounds size).1
  exact ⟨sound_start (by omega) bytes,by simp,by simp,by simp⟩

theorem Kept.room (kept : Kept size s free) (positive : 1 ≤ size) (long : ¬short size s) :
    (objSize size : Int) ≤ s.remainSize := by
  obtain ⟨low,high⟩ := kept.remain
  have whole := kept.whole
  rw [blockSize] at high
  rw [short,Int.emod_eq_of_lt low (by omega)] at long
  unfold objSize
  split
  · omega
  · have multiple := whole (by omega)
    omega

theorem Kept.carve (kept : Kept size s free) (room : (objSize size : Int) ≤ s.remainSize) : Kept size (carve size s) free := by
  obtain ⟨low,high⟩ := kept.remain
  have word := (objSize_bounds size).1
  rw [blockSize] at high
  have rest : Int.bmod (s.remainSize - objSize size) (2^32) = s.remainSize - objSize size := by
    apply Int.bmod_eq_of_le <;> omega
  have part : (s.remainSize - objSize size).toNat = s.remainSize.toNat - objSize size := by omega
  have carved := kept.sound.carve (show objSize size ≤ s.remainSize.toNat by omega)
  refine ⟨?_,?_,?_,?_⟩
  · simp only [ObjectPool.carve,handOut,arena,rest,part]
    exact carved
  · intro a member
    rcases List.mem_cons.mp member with rfl | old
    · exact List.mem_append_right _ List.mem_cons_self
    · exact (List.mem_append.mp (kept.known a old)).elim (List.mem_append_left _)
        fun live => List.mem_append_right _ (List.mem_cons_of_mem _ live)
  · simp only [ObjectPool.carve,handOut,rest,blockSize]
    omega
  · intro small
    have whole := kept.whole small
    simp only [ObjectPool.carve,handOut,rest]
    rw [objSize,if_neg (by omega)]
    omega

theorem Kept.new (kept : Kept size s free) (positive : 1 ≤ size) (fits : size ≤ blockSize)
    (admitted : Admitted size s (.new answer)) :
    ∃ free, Kept size (new size s answer) free := by
  obtain ⟨granted,given⟩ := admitted
  unfold ObjectPool.new
  split
  · rename_i some_cell
    obtain ⟨rest,rfl⟩ := kept.sound.head some_cell
    have popped := kept.sound.pop
    refine ⟨rest,?_,?_,?_,?_⟩ <;> simp only [handOut]
    · simp only [arena]
      exact popped
    · intro a member
      rcases List.mem_cons.mp member with rfl | old
      · exact List.mem_append_right _ List.mem_cons_self
      · exact List.perm_middle.mem_iff.mpr (kept.known a old)
    · exact kept.remain
    · exact kept.whole
  · rename_i none'
    split
    · rename_i short
      cases answer with
      | none => exact absurd ((given rfl).resolve_left none') (fun long => long short)
      | some tmp =>
        have refilled : Kept size {s with remainSize := 4 * 1024, memory := tmp, blocks := tmp :: s.blocks} free :=
          ⟨kept.sound.refill (granted tmp rfl),kept.known,by simp [blockSize],by simp⟩
        refine ⟨free,refilled.carve ?_⟩
        change (objSize size : Int) ≤ 4 * 1024
        rw [blockSize] at fits
        unfold objSize
        split <;> omega
    · rename_i long
      exact ⟨free,kept.carve (kept.room positive long)⟩

theorem Kept.delete (kept : Kept size s free) (user : ptr ∈ s.live) : Kept size (delete s ptr) (ptr :: free) := by
  refine ⟨kept.sound.push (objSize_bounds size).1 user,fun a member => ?_,kept.remain,kept.whole⟩
  exact (perm_freed free user).mem_iff.mp (kept.known a member)

theorem step_kept (positive : 1 ≤ size) (fits : size ≤ blockSize) (s : ObjectPool) (action : Action)
    (kept : ∃ free, Kept size s free)
    (admitted : Admitted size s action) : ∃ next, step size s action = some next ∧ ∃ free, Kept size next free := by
  obtain ⟨free,kept⟩ := kept
  cases action with
  | new answer => exact ⟨_,rfl,kept.new positive fits admitted⟩
  | delete ptr => exact ⟨_,rfl,_,kept.delete admitted⟩
  | write addr value =>
    obtain ⟨a,user,low,high⟩ := admitted
    have wide := (objSize_bounds size).2
    exact ⟨_,rfl,free,kept.sound.scribble user low (by omega) value,kept.known,kept.remain,kept.whole⟩

-- A type that is larger than a block gets memory past its end at once.
theorem large_overruns (large : blockSize < size) (bytes : Nat → UInt8) : ¬Served size (new size {bytes} (some 65536)) := by
  intro served
  have spent : short size {bytes} := by
    rw [short]
    exact Nat.lt_of_le_of_lt (Nat.zero_le _) large
  have taken : new size {bytes} (some 65536) =
      carve size {bytes := bytes, remainSize := 4 * 1024, memory := 65536, blocks := [65536]} := by
    rw [new,if_neg (by simp),if_pos spent]
  rw [taken] at served
  obtain ⟨b,given,low,high⟩ := served.inside 65536 List.mem_cons_self
  have same : b = 65536 := by simpa [carve,handOut] using given
  omega

theorem objects_served_iff (size : Nat) (positive : 1 ≤ size) : (∀ (bytes : Nat → UInt8) (actions : List Action),
    Throughout (step size) (Admitted size) {bytes} actions → ∃ s, run (step size) {bytes} actions = some s ∧ Served size s) ↔
      size ≤ 4 * 1024 := by
  constructor
  · intro claimed
    by_contra large
    have admitted : Throughout (step size) (Admitted size) {bytes := fun _ => 0} [.new (some 65536)] := by
      refine ⟨⟨fun tmp same => ?_,nofun⟩,trivial⟩
      cases same
      exact ⟨by decide,by decide,nofun⟩
    obtain ⟨s,ran,served⟩ := claimed (fun _ => 0) _ admitted
    cases ran
    exact large_overruns (Nat.lt_of_not_le large) _ served
  · intro fits bytes actions admitted
    obtain ⟨s,ran,_,kept⟩ := run_succeeds (step_kept positive fits) ⟨[],kept_start size bytes⟩ admitted
    exact ⟨s,ran,kept.served⟩

theorem objects_served_iff_byte : (∀ (bytes : Nat → UInt8) (actions : List Action),
    Throughout (step 1) (Admitted 1) {bytes} actions → ∃ s, run (step 1) {bytes} actions = some s ∧ Served 1 s) ↔
      1 ≤ 4 * 1024 :=
  objects_served_iff 1 (by decide)

end ObjectPool
end LinuxOS.FixedSizePool
