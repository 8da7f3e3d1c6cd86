import LinuxOS.Machine
import LinuxOS.Radix

namespace LinuxOS.Pool
open Function (update)
open Machine Arrays Radix

-- Every call of SystemAlloc in this class succeeds, and memset zeroes what it returns: a new node and
-- a new leaf are new arrays of null pointers.
structure TCMallocPageMap3 (bits : Nat) where
  root_ : Nat
  arrays : Store

namespace TCMallocPageMap3

def interiorBits (bits : Nat) : Nat := (bits + 2) / 3

def interiorLength (bits : Nat) : Nat := 1 <<< interiorBits bits

def leafBits (bits : Nat) : Nat := bits - 2 * interiorBits bits

def leafLength (bits : Nat) : Nat := 1 <<< leafBits bits

def i1 (bits k : Nat) : Nat := k >>> (leafBits bits + interiorBits bits)

def i2 (bits k : Nat) : Nat := (k >>> leafBits bits) &&& (interiorLength bits - 1)

def i3 (bits k : Nat) : Nat := k &&& (leafLength bits - 1)

variable {bits : Nat}

def initial (bits : Nat) : TCMallocPageMap3 bits :=
  let (arrays,root) := Store.alloc {} (interiorLength bits)
  {root_ := root,arrays}

def get (t : TCMallocPageMap3 bits) (k : Nat) : Option Nat :=
  if k >>> bits > 0 then some 0
  else t.arrays.find t.root_ (i1 bits k) (i2 bits k) (i3 bits k)

-- The loop of Ensure, with fuel. `key` and `last` are numbers of 64 bits.
def ensureFrom (last : Nat) : Nat → Nat → TCMallocPageMap3 bits → Option (Bool × TCMallocPageMap3 bits)
  | 0,_,_ => none
  | fuel+1,key,t =>
    if key ≤ last then
      if i1 bits key ≥ interiorLength bits ∨ i2 bits key ≥ interiorLength bits then some (false,t)
      else do
        let arrays ← t.arrays.plant t.root_ (i1 bits key) (i2 bits key) (interiorLength bits) (leafLength bits)
        ensureFrom last fuel ((((key >>> leafBits bits) + 1) <<< leafBits bits) % 2^64) {t with arrays}
    else some (true,t)

def ensure (t : TCMallocPageMap3 bits) (fuel start n : Nat) : Option (Bool × TCMallocPageMap3 bits) :=
  ensureFrom ((start + n + (2^64 - 1)) % 2^64) fuel start t

-- Ensure(k,1) looks at its condition twice.
def set (t : TCMallocPageMap3 bits) (k v : Nat) : Option (TCMallocPageMap3 bits) := do
  guard (k >>> bits = 0)
  let (_,t) ← t.ensure 2 k 1
  let arrays ← t.arrays.put t.root_ (i1 bits k) (i2 bits k) (i3 bits k) v
  some {t with arrays}

inductive Call where
  | set (k v : Nat)
  | ensure (start n : Nat)

-- Ensure gets fuel for one turn a page.
def step (t : TCMallocPageMap3 bits) : Call → Option (TCMallocPageMap3 bits)
  | .set k v => t.set k v
  | .ensure start n => (t.ensure (n+1) start n).map Prod.snd

def Call.Inside (bits : Nat) : Call → Prop
  | .set k _ => k < 2^bits
  | .ensure start n => 1 ≤ n ∧ start + n ≤ 2^bits

def record (m : Nat → Nat) : Call → Nat → Nat
  | .set k v => update m k v
  | .ensure .. => m

def recorded (calls : List Call) : Nat → Nat := calls.foldl record fun _ => 0

def HasLeaf (t : TCMallocPageMap3 bits) (page : Nat) : Prop :=
  ∃ node leaf, t.arrays.load t.root_ (i1 bits page) = some node ∧ t.arrays.load node (i2 bits page) = some leaf ∧
    t.arrays.Has leaf (leafLength bits)

def Tells (t : TCMallocPageMap3 bits) (m : Nat → Nat) : Prop :=
  Radix.Tells bits (interiorBits bits) (leafBits bits) t.arrays t.root_ m

variable {t : TCMallocPageMap3 bits} {m : Nat → Nat} {k n start fuel last : Nat}

theorem get_told (wide : 2 * interiorBits bits ≤ bits) (told : t.Tells m) (k : Nat) : t.get k = some (m k) :=
  told.find wide Nat.pos_iff_ne_zero

def Reaches (t : TCMallocPageMap3 bits) (page : Nat) : Prop :=
  Arrays.HasLeaf t.arrays t.root_ (i1 bits page) (i2 bits page)

theorem Tells.hasLeaf (wide : 2 * interiorBits bits ≤ bits) (told : t.Tells m) (small : k < 2^bits)
    (reaches : t.Reaches k) : t.HasLeaf k := by
  obtain ⟨place,shown⟩ := told.shown
  exact shown.hasBlock (within_digits wide small) reaches

theorem plant_told (wide : 2 * interiorBits bits ≤ bits) (told : t.Tells m) (small : k < 2^bits) : ∃ arrays,
    t.arrays.plant t.root_ (i1 bits k) (i2 bits k) (interiorLength bits) (leafLength bits) = some arrays ∧
      ({t with arrays} : TCMallocPageMap3 bits).Tells m ∧
      (∀ page < 2^bits, t.Reaches page → ({t with arrays} : TCMallocPageMap3 bits).Reaches page) ∧
      ∀ page, page >>> leafBits bits = k >>> leafBits bits → ({t with arrays} : TCMallocPageMap3 bits).Reaches page := by
  obtain ⟨place,shown⟩ := told.shown
  obtain ⟨arrays,place,planted,shown,extended,block⟩ := shown.plant (k := k) (within_digits wide small)
  refine ⟨arrays,planted,⟨⟨place,shown⟩,told.outside⟩,fun page small reaches => ?_,block⟩
  exact extended.kept _ (high_lt (within_digits wide small)) _ (middle_lt ..) reaches

theorem index_lt (wide : 2 * interiorBits bits ≤ bits) (small : k < 2^bits) :
    ¬(i1 bits k ≥ interiorLength bits ∨ i2 bits k ≥ interiorLength bits) := by
  have first : i1 bits k < interiorLength bits := high_lt (within_digits wide small)
  have second : i2 bits k < interiorLength bits := middle_lt ..
  omega

-- From `key` on the loop reaches every page up to `last`; no page changes what it tells.
theorem ensureFrom_reaches (wide : 2 * interiorBits bits ≤ bits) (narrow : bits < 64) (inside : last < 2^bits)
    (told : t.Tells m) (fuelled : 0 < fuel) (enough : last + 1 < k + fuel) :
    ∃ t', ensureFrom last fuel k t = some (true,t') ∧ t'.Tells m ∧
      (∀ page < 2^bits, t.Reaches page → t'.Reaches page) ∧ ∀ page, k ≤ page → page ≤ last → t'.Reaches page := by
  induction fuel generalizing k t with
  | zero => cases fuelled
  | succ fuel ih =>
    rw [ensureFrom]
    by_cases ends : last < k
    · rw [if_neg (by omega)]
      exact ⟨t,rfl,told,fun _ _ reaches => reaches,fun page _ _ => by omega⟩
    · have small : k < 2^bits := by omega
      rw [if_pos (by omega),if_neg (index_lt wide small)]
      obtain ⟨arrays,planted,told,kept,block⟩ := plant_told wide told small
      have after := lt_nextBlock (leafBits bits) k
      have fits : nextBlock (leafBits bits) k < 2^64 :=
        Nat.lt_of_le_of_lt (nextBlock_le (Nat.sub_le ..) small) (Nat.pow_lt_pow_right (by decide) narrow)
      obtain ⟨t',ran,told,later,rest⟩ := ih (k := nextBlock (leafBits bits) k) told (by omega) (by omega)
      refine ⟨t',?_,told,fun page small reaches => later page small (kept page small reaches),?_⟩
      · rw [planted,Option.bind_eq_bind,Option.bind_some]
        rwa [← nextBlock,Nat.mod_eq_of_lt fits]
      · intro page above below
        by_cases here : page < nextBlock (leafBits bits) k
        · exact later page (by omega) (block page (same_block above here))
        · exact rest page (by omega) below

theorem ensure_reaches (wide : 2 * interiorBits bits ≤ bits) (narrow : bits < 64) (told : t.Tells m) (some_page : 1 ≤ n)
    (inside : start + n ≤ 2^bits) (enough : n < fuel) : ∃ t', t.ensure fuel start n = some (true,t') ∧ t'.Tells m ∧
      ∀ page, start ≤ page → page < start + n → t'.Reaches page := by
  have bound : 2^bits < 2^64 := Nat.pow_lt_pow_right (by decide) narrow
  have last : (start + n + (2^64 - 1)) % 2^64 = start + n - 1 := by omega
  rw [ensure,last]
  have turns : start + n - 1 + 1 < start + fuel := by omega
  obtain ⟨t',ran,told,-,reached⟩ := ensureFrom_reaches wide narrow (by omega) told (Nat.zero_lt_of_lt enough) turns
  exact ⟨t',ran,told,fun page above below => reached page above (by omega)⟩

theorem set_told (wide : 2 * interiorBits bits ≤ bits) (narrow : bits < 64) (told : t.Tells m) (small : k < 2^bits)
    (v : Nat) : ∃ t', t.set k v = some t' ∧ t'.Tells (update m k v) := by
  obtain ⟨middle,ensured,told,reached⟩ := ensure_reaches wide narrow told (Nat.le_refl 1) small Nat.one_lt_two
  obtain ⟨place,shown⟩ := told.shown
  obtain ⟨arrays,put,shown⟩ := shown.put (k := k) (within_digits wide small) (reached k (Nat.le_refl k) (by omega)) v
  refine ⟨{middle with arrays},?_,told.update small shown⟩
  have put : middle.arrays.put middle.root_ (i1 bits k) (i2 bits k) (i3 bits k) v = some arrays := put
  rw [set,guard,if_pos (shiftRight_eq_zero.mpr small)]
  simp [ensured,put]

theorem step_told (wide : 2 * interiorBits bits ≤ bits) (narrow : bits < 64) (told : t.Tells m) (call : Call)
    (inside : call.Inside bits) : ∃ t', t.step call = some t' ∧ t'.Tells (record m call) := by
  cases call with
  | set k v => exact set_told wide narrow told inside v
  | ensure start n =>
    obtain ⟨t',ensured,told,-⟩ := ensure_reaches wide narrow told inside.1 inside.2 (Nat.lt_succ_self n)
    exact ⟨t',by rw [step,ensured,Option.map_some],told⟩

theorem refines_map (calls : List Call) (inside : ∀ call ∈ calls, call.Inside 51) :
    ∃ t, run step (initial 51) calls = some t ∧
      (∀ k, t.get k = some (recorded calls k)) ∧ (∀ k ≥ 2^51, t.get k = some 0) ∧
      ∀ start n fuel, 1 ≤ n → start + n ≤ 2^51 → n < fuel → ∃ t', t.ensure fuel start n = some (true,t') ∧
        (∀ page, start ≤ page → page < start + n → t'.HasLeaf page) ∧ ∀ k, t'.get k = t.get k := by
  have wide : 2 * interiorBits 51 ≤ 51 := by decide
  have narrow : 51 < 64 := by decide
  obtain ⟨t,ran,told⟩ : ∃ t, run step (initial 51) calls = some t ∧ t.Tells (recorded calls) :=
    run_simulates_each (fun _ _ call told inside => step_told wide narrow told call inside) (tells_alloc 51 _ _ {}) inside
  refine ⟨t,ran,get_told wide told,fun k above => ?_,?_⟩
  · rw [get_told wide told,told.outside k above]
  · intro start n fuel some_page inside enough
    obtain ⟨t',ensured,told',reached⟩ := ensure_reaches wide narrow told some_page inside enough
    refine ⟨t',ensured,fun page above below => ?_,fun k => ?_⟩
    · exact told'.hasLeaf wide (by omega) (reached page above below)
    · rw [get_told wide told',get_told wide told]

theorem refines_map_two_pages : ∃ t, run step (initial 51) [.set 5 24,.ensure 131070 4] = some t ∧
    (∀ k, t.get k = some (recorded [.set 5 24,.ensure 131070 4] k)) ∧ (∀ k ≥ 2^51, t.get k = some 0) ∧
      ∀ start n fuel, 1 ≤ n → start + n ≤ 2^51 → n < fuel → ∃ t', t.ensure fuel start n = some (true,t') ∧
        (∀ page, start ≤ page → page < start + n → t'.HasLeaf page) ∧ ∀ k, t'.get k = t.get k :=
  refines_map _ (by simp [Call.Inside])

end TCMallocPageMap3
end LinuxOS.Pool
