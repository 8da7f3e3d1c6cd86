import Mathlib.Algebra.Group.Nat.Defs
import LinuxOS.Arrays

namespace LinuxOS.Radix
open Function (update)
open Arrays
variable {a b k q n v root : Nat} {s next : Store} {place : Nat → Place} {m : Nat → Nat}

-- A number cut into three digits by shifts and masks: the lowest of `b` bits, the others of `a`.
def high (a b k : Nat) : Nat := k >>> (b + a)

def middle (a b k : Nat) : Nat := (k >>> b) &&& (1 <<< a - 1)

def low (b k : Nat) : Nat := k &&& (1 <<< b - 1)

def nextBlock (b k : Nat) : Nat := ((k >>> b) + 1) <<< b

theorem mask_mod (n w : Nat) : n &&& (1 <<< w - 1) = n % 2^w := by
  rw [Nat.one_shiftLeft,Nat.and_two_pow_sub_one_eq_mod]

theorem high_lt (small : k < 2^(b+a+a)) : high a b k < 1 <<< a := by
  rw [high,Nat.shiftRight_eq_div_pow,Nat.one_shiftLeft]
  exact Nat.div_lt_of_lt_mul (by rwa [← Nat.pow_add])

theorem middle_lt (a b k : Nat) : middle a b k < 1 <<< a := by
  rw [middle,mask_mod,Nat.one_shiftLeft]
  exact Nat.mod_lt _ (Nat.two_pow_pos a)

theorem low_lt (b k : Nat) : low b k < 1 <<< b := by
  rw [low,mask_mod,Nat.one_shiftLeft]
  exact Nat.mod_lt _ (Nat.two_pow_pos b)

theorem high_block (a b k : Nat) : high a b k = k >>> b >>> a := (Nat.shiftRight_add ..)

theorem block_inj (first : high a b q = high a b k) (second : middle a b q = middle a b k) : q >>> b = k >>> b := by
  rw [high_block,high_block,Nat.shiftRight_eq_div_pow _ a,Nat.shiftRight_eq_div_pow _ a] at first
  rw [middle,middle,mask_mod,mask_mod] at second
  rw [← Nat.div_add_mod (q >>> b) (2^a),← Nat.div_add_mod (k >>> b) (2^a),first,second]

theorem digits_inj (first : high a b q = high a b k) (second : middle a b q = middle a b k) (third : low b q = low b k) :
    q = k := by
  have block := block_inj first second
  rw [Nat.shiftRight_eq_div_pow,Nat.shiftRight_eq_div_pow] at block
  rw [low,low,mask_mod,mask_mod] at third
  rw [← Nat.div_add_mod q (2^b),← Nat.div_add_mod k (2^b),block,third]

theorem digits_iff : (high a b q = high a b k ∧ middle a b q = middle a b k ∧ low b q = low b k) ↔ q = k := by
  refine ⟨fun same => digits_inj same.1 same.2.1 same.2.2,?_⟩
  rintro rfl
  exact ⟨rfl,rfl,rfl⟩

theorem nextBlock_eq (b k : Nat) : nextBlock b k = 2^b * (k / 2^b + 1) := by
  rw [nextBlock,Nat.shiftLeft_eq,Nat.shiftRight_eq_div_pow,Nat.mul_comm]

theorem lt_nextBlock (b k : Nat) : k < nextBlock b k := by
  rw [nextBlock_eq]
  exact Nat.lt_mul_div_succ k (Nat.two_pow_pos b)

theorem nextBlock_le {w : Nat} (wide : b ≤ w) (small : k < 2^w) : nextBlock b k ≤ 2^w := by
  have split : 2^w = 2^b * 2^(w-b) := by rw [← Nat.pow_add,Nat.add_sub_of_le wide]
  rw [nextBlock_eq,split]
  rw [split] at small
  exact Nat.mul_le_mul_left _ (Nat.div_lt_of_lt_mul small)

theorem same_block (above : k ≤ q) (below : q < nextBlock b k) : q >>> b = k >>> b := by
  rw [nextBlock_eq] at below
  rw [Nat.shiftRight_eq_div_pow,Nat.shiftRight_eq_div_pow]
  have upper : q / 2^b < k / 2^b + 1 := Nat.div_lt_of_lt_mul below
  have lower : k / 2^b ≤ q / 2^b := Nat.div_le_div_right above
  omega

theorem shiftRight_eq_zero {w : Nat} : k >>> w = 0 ↔ k < 2^w := by
  rw [Nat.shiftRight_eq_div_pow]
  exact Nat.div_eq_zero_iff_lt (Nat.two_pow_pos w)

structure Represents (a b : Nat) (s : Store) (root : Nat) (place : Nat → Place) (m : Nat → Nat) : Prop where
  tree : Tree (1 <<< a) (1 <<< b) s root place
  entry : ∀ k < 2^(b+a+a), entry s root (high a b k) (middle a b k) (low b k) = m k

def HasBlock (a b : Nat) (s : Store) (root k : Nat) : Prop :=
  ∃ node leaf, s.load root (high a b k) = some node ∧ s.load node (middle a b k) = some leaf ∧ s.Has leaf (1 <<< b)

theorem represents_alloc (a b : Nat) (s : Store) :
    Represents a b (s.alloc (1 <<< a)).1 (s.alloc (1 <<< a)).2 (fun _ => .root) fun _ => 0 :=
  ⟨tree_alloc s ..,fun _ _ => entry_alloc s ..⟩

section
variable (shown : Represents a b s root place m)
include shown

theorem Represents.extends {place' : Nat → Place} (tree : Tree (1 <<< a) (1 <<< b) next root place')
    (extended : Extends (1 <<< a) s next root) : Represents a b next root place' m :=
  ⟨tree,fun k small => by rw [extended.entries _ (high_lt small) _ (middle_lt a b k),shown.entry k small]⟩

variable (small : k < 2^(b+a+a))
include small

theorem Represents.find : s.find root (high a b k) (middle a b k) (low b k) = some (m k) := by
  rw [shown.tree.find (high_lt small) (middle_lt a b k) (low_lt b k),shown.entry k small]

theorem Represents.hasBlock (leaf : HasLeaf s root (high a b k) (middle a b k)) : HasBlock a b s root k :=
  ⟨_,_,load_has shown.tree.top.1 (high_lt small),
    load_has (shown.tree.inner _ (high_lt small) leaf.1).1 (middle_lt a b k),
    (shown.tree.leaf _ (high_lt small) leaf.1 _ (middle_lt a b k) leaf.2).1⟩

-- The numbers of one block share their arrays. No number loses its arrays, none changes its word.
theorem Represents.plant : ∃ next place,
    s.plant root (high a b k) (middle a b k) (1 <<< a) (1 <<< b) = some next ∧ Represents a b next root place m ∧
      Extends (1 <<< a) s next root ∧ ∀ q, q >>> b = k >>> b → HasLeaf next root (high a b q) (middle a b q) := by
  obtain ⟨next,place,planted,tree,extended,leaf⟩ := shown.tree.plant (high_lt small) (middle_lt a b k)
  refine ⟨next,place,planted,shown.extends tree extended,extended,fun q block => ?_⟩
  rwa [high_block,middle,block,← high_block,← middle]

theorem Represents.written (leaf : HasLeaf s root (high a b k) (middle a b k)) (v : Nat) :
    Represents a b (written s root (high a b k) (middle a b k) (low b k) v) root place (update m k v) := by
  have first := high_lt small
  have second := middle_lt a b k
  refine ⟨shown.tree.written_tree first second leaf,fun q small' => ?_⟩
  rw [shown.tree.written_entry first second leaf (high_lt small') (middle_lt a b q),shown.entry q small',
    Function.update_apply]
  simp only [digits_iff]

theorem Represents.put (leaf : HasLeaf s root (high a b k) (middle a b k)) (v : Nat) : ∃ next,
    s.put root (high a b k) (middle a b k) (low b k) v = some next ∧ Represents a b next root place (update m k v) :=
  ⟨_,shown.tree.put (high_lt small) (middle_lt a b k) (low_lt b k) leaf v,shown.written small leaf v⟩

theorem Represents.grow_store (v : Nat) : ∃ middle' node wide leaf next place,
    s.grow root (high a b k) (1 <<< a) = some middle' ∧ middle'.load root (high a b k) = some node ∧
      middle'.grow node (middle a b k) (1 <<< b) = some wide ∧ wide.load node (middle a b k) = some leaf ∧
      wide.store leaf (low b k) v = some next ∧ Represents a b next root place (update m k v) := by
  have first := high_lt small
  have second := middle_lt a b k
  obtain ⟨middle',node,wide,place,grown,loaded,planted,rfl,tree,extended,leaf⟩ := shown.tree.grow_twice first second
  exact ⟨middle',_,wide,_,_,place,grown,loaded,planted,load_has (tree.inner _ first leaf.1).1 second,
    tree.store_leaf first second (low_lt b k) leaf v,(shown.extends tree extended).written small leaf v⟩

theorem Represents.clear : ∃ next, s.clear root (high a b k) (middle a b k) (low b k) = some next ∧
    Represents a b next root place (update m k 0) ∧ next.count = s.count := by
  obtain ⟨cleared,empty⟩ | ⟨leaf,cleared⟩ := shown.tree.clear (high_lt small) (middle_lt a b k) (low_lt b k)
  · refine ⟨s,cleared,?_,rfl⟩
    have same : update m k 0 = m := Function.update_eq_self_iff.mpr (empty.symm.trans (shown.entry k small))
    rwa [same]
  · exact ⟨_,cleared,shown.written small leaf 0,rfl⟩

end

variable {w : Nat}

-- The map of the numbers of `w` bits: no other number has a word.
structure Tells (w a b : Nat) (s : Store) (root : Nat) (m : Nat → Nat) : Prop where
  shown : ∃ place, Represents a b s root place m
  outside : ∀ k ≥ 2^w, m k = 0

theorem tells_alloc (w a b : Nat) (s : Store) : Tells w a b (s.alloc (1 <<< a)).1 (s.alloc (1 <<< a)).2 fun _ => 0 :=
  ⟨⟨_,represents_alloc a b s⟩,fun _ _ => rfl⟩

theorem within_digits (wide : 2*a ≤ w) (small : k < 2^w) : k < 2^(w-2*a+a+a) := by
  rwa [show w-2*a+a+a = w by omega]

theorem Tells.find {beyond : Prop} [Decidable beyond] (told : Tells w a (w-2*a) s root m) (wide : 2*a ≤ w)
    (checks : beyond ↔ k >>> w ≠ 0) :
    (if beyond then some 0 else s.find root (high a (w-2*a) k) (middle a (w-2*a) k) (low (w-2*a) k)) = some (m k) := by
  obtain ⟨⟨place,shown⟩,outside⟩ := told
  rw [Ne,shiftRight_eq_zero,Nat.not_lt] at checks
  split
  · rename_i above
    rw [outside k (checks.mp above)]
  · rename_i small
    exact shown.find (within_digits wide (Nat.not_le.mp fun above => small (checks.mpr above)))

theorem Tells.update (told : Tells w a b s root m) (small : k < 2^w)
    (shown : Represents a b next root place (update m k v)) : Tells w a b next root (update m k v) := by
  refine ⟨⟨place,shown⟩,fun q above => ?_⟩
  rw [Function.update_of_ne (Nat.ne_of_gt (Nat.lt_of_lt_of_le small above))]
  exact told.outside q above

end LinuxOS.Radix
