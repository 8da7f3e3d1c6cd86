import LinuxOS.Machine
import LinuxOS.Radix

namespace LinuxOS.Concurrent
open Function (update)
open Machine Arrays Radix

-- `_root(NewNode())` runs before the constructors of the two pools, which is harmless: the one page cache
-- is static, so that their memory is zero by then. New returns memory that no other object has, and
-- memset zeroes it: a new node and a new leaf are new arrays of null pointers.
structure TCMallocPageMap3 (bits : Nat) where
  _root : Nat
  arrays : Store

namespace TCMallocPageMap3

def interiorBits (bits : Nat) : Nat := (bits + 2) / 3

def interiorLength (bits : Nat) : Nat := 1 <<< interiorBits bits

def leafBits (bits : Nat) : Nat := bits - 2 * interiorBits bits

def leafLength (bits : Nat) : Nat := 1 <<< leafBits bits

def i1 (bits k : Nat) : Nat := k >>> (leafBits bits + interiorBits bits)

def i2 (bits k : Nat) : Nat := (k >>> leafBits bits) &&& (interiorLength bits - 1)

def i3 (bits k : Nat) : Nat := k &&& (leafLength bits - 1)

variable {bits : Nat}

def initial (bits : Nat) : TCMallocPageMap3 bits :=
  let (arrays,root) := Store.alloc {} (interiorLength bits)
  {_root := root,arrays}

-- The second component is the address of the leaf.
def ensureLeaf (t : TCMallocPageMap3 bits) (k : Nat) : Option (TCMallocPageMap3 bits × Nat) := do
  guard (k >>> bits = 0)
  let arrays ← t.arrays.grow t._root (i1 bits k) (interiorLength bits)
  let second ← arrays.load t._root (i1 bits k)
  let arrays ← arrays.grow second (i2 bits k) (leafLength bits)
  let leaf ← arrays.load second (i2 bits k)
  some ({t with arrays},leaf)

def get (t : TCMallocPageMap3 bits) (k : Nat) : Option Nat :=
  if k >>> bits ≠ 0 then some 0
  else t.arrays.find t._root (i1 bits k) (i2 bits k) (i3 bits k)

def set (t : TCMallocPageMap3 bits) (k v : Nat) : Option (TCMallocPageMap3 bits) := do
  let (t,leaf) ← t.ensureLeaf k
  let arrays ← t.arrays.store leaf (i3 bits k) v
  some {t with arrays}

def erase (t : TCMallocPageMap3 bits) (k : Nat) : Option (TCMallocPageMap3 bits) :=
  if k >>> bits ≠ 0 then some t
  else do
    let arrays ← t.arrays.clear t._root (i1 bits k) (i2 bits k) (i3 bits k)
    some {t with arrays}

inductive Call where
  | set (k v : Nat)
  | erase (k : Nat)

def step (t : TCMallocPageMap3 bits) : Call → Option (TCMallocPageMap3 bits)
  | .set k v => t.set k v
  | .erase k => t.erase k

def Call.Inside (bits : Nat) : Call → Prop
  | .set k _ => k < 2^bits
  | .erase _ => True

def record (m : Nat → Nat) : Call → Nat → Nat
  | .set k v => update m k v
  | .erase k => update m k 0

def recorded (calls : List Call) : Nat → Nat := calls.foldl record fun _ => 0

def Tells (t : TCMallocPageMap3 bits) (m : Nat → Nat) : Prop :=
  Radix.Tells bits (interiorBits bits) (leafBits bits) t.arrays t._root m

variable {t : TCMallocPageMap3 bits} {m : Nat → Nat} {k : Nat}

theorem index_lt (wide : 2 * interiorBits bits ≤ bits) (small : k < 2^bits) :
    i1 bits k < interiorLength bits ∧ i2 bits k < interiorLength bits ∧ i3 bits k < leafLength bits :=
  ⟨high_lt (within_digits wide small),middle_lt ..,low_lt ..⟩

theorem get_told (wide : 2 * interiorBits bits ≤ bits) (told : t.Tells m) (k : Nat) : t.get k = some (m k) :=
  told.find wide Iff.rfl

theorem set_told (wide : 2 * interiorBits bits ≤ bits) (told : t.Tells m) (small : k < 2^bits) (v : Nat) :
    ∃ t', t.set k v = some t' ∧ t'.Tells (update m k v) := by
  obtain ⟨place,shown⟩ := told.shown
  obtain ⟨middle,second,grown,leaf,arrays,place,inner,loaded,outer,found,stored,shown⟩ :=
    shown.grow_store (k := k) (within_digits wide small) v
  refine ⟨{t with arrays},?_,told.update small shown⟩
  have inner : t.arrays.grow t._root (i1 bits k) (interiorLength bits) = some middle := inner
  have loaded : middle.load t._root (i1 bits k) = some second := loaded
  have outer : middle.grow second (i2 bits k) (leafLength bits) = some grown := outer
  have found : grown.load second (i2 bits k) = some leaf := found
  have stored : grown.store leaf (i3 bits k) v = some arrays := stored
  rw [set,ensureLeaf,guard,if_pos (shiftRight_eq_zero.mpr small)]
  simp [inner,loaded,outer,found,stored]

-- The word of a page that is not in the tree is not touched, and nothing is allocated for it.
theorem erase_told (wide : 2 * interiorBits bits ≤ bits) (told : t.Tells m) (k : Nat) :
    ∃ t', t.erase k = some t' ∧ t'.Tells (update m k 0) ∧ t'.arrays.count = t.arrays.count := by
  by_cases small : k < 2^bits
  · obtain ⟨place,shown⟩ := told.shown
    obtain ⟨arrays,cleared,shown,count⟩ := shown.clear (k := k) (within_digits wide small)
    have cleared : t.arrays.clear t._root (i1 bits k) (i2 bits k) (i3 bits k) = some arrays := cleared
    refine ⟨{t with arrays},?_,told.update small shown,count⟩
    simp [erase,shiftRight_eq_zero.mpr small,cleared]
  · have same : update m k 0 = m := Function.update_eq_self_iff.mpr (told.outside k (Nat.not_lt.mp small)).symm
    exact ⟨t,if_pos fun zero => small (shiftRight_eq_zero.mp zero),by rwa [same],rfl⟩

theorem step_told (wide : 2 * interiorBits bits ≤ bits) (told : t.Tells m) (call : Call) (inside : call.Inside bits) :
    ∃ t', t.step call = some t' ∧ t'.Tells (record m call) := by
  cases call with
  | set k v => exact set_told wide told inside v
  | erase k =>
    obtain ⟨t',erased,told,-⟩ := erase_told wide told k
    exact ⟨t',erased,told⟩

theorem refines_map_with_erase (calls : List Call) (inside : ∀ call ∈ calls, call.Inside 51) :
    ∃ t, run step (initial 51) calls = some t ∧ (∀ k, t.get k = some (recorded calls k)) ∧
      (∀ k < 2^51, i1 51 k < interiorLength 51 ∧ i2 51 k < interiorLength 51 ∧ i3 51 k < leafLength 51) ∧
      ∀ k, ∃ t', t.erase k = some t' ∧ t'.arrays.count = t.arrays.count ∧ ∀ q ≠ k, t'.get q = t.get q := by
  have wide : 2 * interiorBits 51 ≤ 51 := by decide
  obtain ⟨t,ran,told⟩ : ∃ t, run step (initial 51) calls = some t ∧ t.Tells (recorded calls) :=
    run_simulates_each (fun _ _ call told inside => step_told wide told call inside) (tells_alloc 51 _ _ {}) inside
  refine ⟨t,ran,get_told wide told,fun k => index_lt wide,fun k => ?_⟩
  obtain ⟨t',erased,told',count⟩ := erase_told wide told k
  refine ⟨t',erased,count,fun q other => ?_⟩
  rw [get_told wide told',get_told wide told,Function.update_of_ne other]

theorem refines_map_with_erase_thrice : ∃ t, run step (initial 51) [.set 5 24,.erase 5,.erase (2^63)] = some t ∧
    (∀ k, t.get k = some (recorded [.set 5 24,.erase 5,.erase (2^63)] k)) ∧
      (∀ k < 2^51, i1 51 k < interiorLength 51 ∧ i2 51 k < interiorLength 51 ∧ i3 51 k < leafLength 51) ∧
      ∀ k, ∃ t', t.erase k = some t' ∧ t'.arrays.count = t.arrays.count ∧ ∀ q ≠ k, t'.get q = t.get q :=
  refines_map_with_erase _ (by simp [Call.Inside])

end TCMallocPageMap3
end LinuxOS.Concurrent
