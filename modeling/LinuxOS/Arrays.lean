import Mathlib.Logic.Function.Basic

namespace LinuxOS.Arrays
open Function (update)
variable {p i j k n v : Nat}

-- Arrays of words, numbered from one in the order in which they were allocated; the number stands
-- for the address and zero for the null pointer. Every access is checked.
structure Store where
  count : Nat := 0
  length : Nat → Nat := fun _ => 0
  cell : Nat → Nat → Nat := fun _ _ => 0

namespace Store
variable (s : Store)

def Has (p n : Nat) : Prop := p ≠ 0 ∧ p ≤ s.count ∧ s.length p = n

def load (p i : Nat) : Option Nat := if p ≠ 0 ∧ p ≤ s.count ∧ i < s.length p then some (s.cell p i) else none

def store (p i v : Nat) : Option Store :=
  if p ≠ 0 ∧ p ≤ s.count ∧ i < s.length p then some {s with cell := update s.cell p (update (s.cell p) i v)} else none

def alloc (n : Nat) : Store × Nat :=
  ({count := s.count+1, length := update s.length (s.count+1) n, cell := update s.cell (s.count+1) fun _ => 0},s.count+1)

-- `if (p[i] == NULL) p[i] = new array`
def grow (p i n : Nat) : Option Store := do
  let child ← s.load p i
  if child = 0 then
    let (s,fresh) := s.alloc n
    s.store p i fresh
  else some s

def plant (root i j width size : Nat) : Option Store := do
  let s ← s.grow root i width
  let node ← s.load root i
  s.grow node j size

def put (root i j k v : Nat) : Option Store := do
  let node ← s.load root i
  let leaf ← s.load node j
  s.store leaf k v

def find (root i j k : Nat) : Option Nat := do
  let node ← s.load root i
  if node = 0 then some 0
  else do
    let leaf ← s.load node j
    if leaf = 0 then some 0 else s.load leaf k

def clear (root i j k : Nat) : Option Store := do
  let node ← s.load root i
  if node = 0 then some s
  else do
    let leaf ← s.load node j
    if leaf = 0 then some s else s.store leaf k 0

end Store

inductive Place where
  | root
  | inner (i : Nat)
  | leaf (i j : Nat)
  deriving DecidableEq

-- A tree of three levels of `width` pointers, `width` pointers and `size` words. Every array is in
-- one place of the tree, which `place` tells: so no two slots lead to the same array.
structure Tree (width size : Nat) (s : Store) (root : Nat) (place : Nat → Place) : Prop where
  top : s.Has root width ∧ place root = .root
  inner : ∀ i < width, s.cell root i ≠ 0 → s.Has (s.cell root i) width ∧ place (s.cell root i) = .inner i
  leaf : ∀ i < width, s.cell root i ≠ 0 → ∀ j < width, s.cell (s.cell root i) j ≠ 0 →
    s.Has (s.cell (s.cell root i) j) size ∧ place (s.cell (s.cell root i) j) = .leaf i j

def HasLeaf (s : Store) (root i j : Nat) : Prop := s.cell root i ≠ 0 ∧ s.cell (s.cell root i) j ≠ 0

def entry (s : Store) (root i j k : Nat) : Nat :=
  if s.cell root i = 0 then 0
  else if s.cell (s.cell root i) j = 0 then 0
  else s.cell (s.cell (s.cell root i) j) k

variable {s next : Store} {width size root : Nat} {place : Nat → Place}

theorem load_has (has : s.Has p n) (inside : i < n) : s.load p i = some (s.cell p i) :=
  if_pos ⟨has.1,has.2.1,by rw [has.2.2]; exact inside⟩

theorem store_has (has : s.Has p n) (inside : i < n) (v : Nat) :
    s.store p i v = some {s with cell := update s.cell p (update (s.cell p) i v)} :=
  if_pos ⟨has.1,has.2.1,by rw [has.2.2]; exact inside⟩

theorem has_alloc (has : s.Has p n) (m : Nat) : (s.alloc m).1.Has p n := by
  obtain ⟨real,old,length⟩ := has
  refine ⟨real,Nat.le_succ_of_le old,?_⟩
  simp only [Store.alloc]
  rw [Function.update_of_ne (by omega)]
  exact length

theorem alloc_has (s : Store) (n : Nat) : (s.alloc n).1.Has (s.alloc n).2 n :=
  ⟨Nat.succ_ne_zero _,Nat.le_refl _,Function.update_self ..⟩

theorem Tree.find (tree : Tree width size s root place) (first : i < width) (second : j < width) (third : k < size) :
    s.find root i j k = some (entry s root i j k) := by
  rw [Store.find,load_has tree.top.1 first,Option.bind_eq_bind,Option.bind_some,entry]
  split
  · rfl
  · rename_i node
    rw [load_has (tree.inner i first node).1 second,Option.bind_some]
    split
    · rfl
    · rename_i leaf
      exact load_has (tree.leaf i first node j second leaf).1 third

theorem Tree.node_root (tree : Tree width size s root place) (first : i < width) (node : s.cell root i ≠ 0) :
    s.cell root i ≠ root := by
  intro same
  have lies := (tree.inner i first node).2
  rw [same,tree.top.2] at lies
  cases lies

theorem Tree.node_inj {i' : Nat} (tree : Tree width size s root place) (first : i < width) (first' : i' < width)
    (node : s.cell root i ≠ 0) (same : s.cell root i' = s.cell root i) : i' = i := by
  have here := (tree.inner i first node).2
  have there := (tree.inner i' first' (same ▸ node)).2
  rw [same,here] at there
  exact (Place.inner.inj there).symm

theorem Tree.leaf_root (tree : Tree width size s root place) (first : i < width) (second : j < width)
    (leaf : HasLeaf s root i j) : s.cell (s.cell root i) j ≠ root := by
  intro same
  have lies := (tree.leaf i first leaf.1 j second leaf.2).2
  rw [same,tree.top.2] at lies
  cases lies

theorem Tree.leaf_node {i' : Nat} (tree : Tree width size s root place) (first : i < width) (second : j < width)
    (leaf : HasLeaf s root i j) (first' : i' < width) (node : s.cell root i' ≠ 0) :
    s.cell (s.cell root i) j ≠ s.cell root i' := by
  intro same
  have lies := (tree.leaf i first leaf.1 j second leaf.2).2
  rw [same,(tree.inner i' first' node).2] at lies
  cases lies

theorem Tree.leaf_inj {i' j' : Nat} (tree : Tree width size s root place) (first : i < width) (second : j < width)
    (leaf : HasLeaf s root i j) (first' : i' < width) (second' : j' < width) (leaf' : HasLeaf s root i' j')
    (same : s.cell (s.cell root i') j' = s.cell (s.cell root i) j) : i' = i ∧ j' = j := by
  have here := (tree.leaf i first leaf.1 j second leaf.2).2
  have there := (tree.leaf i' first' leaf'.1 j' second' leaf'.2).2
  rw [same,here] at there
  exact (Place.leaf.inj there).imp Eq.symm Eq.symm

structure Extends (width : Nat) (s next : Store) (root : Nat) : Prop where
  entries : ∀ i < width, ∀ j < width, ∀ k, entry next root i j k = entry s root i j k
  kept : ∀ i < width, ∀ j < width, HasLeaf s root i j → HasLeaf next root i j

theorem extends_refl : Extends width s s root := ⟨fun _ _ _ _ _ => rfl,fun _ _ _ _ leaf => leaf⟩

theorem Extends.trans {middle : Store} (left : Extends width s middle root) (right : Extends width middle next root) :
    Extends width s next root :=
  ⟨fun i first j second k => (right.entries i first j second k).trans (left.entries i first j second k),
    fun i first j second leaf => right.kept i first j second (left.kept i first j second leaf)⟩

def planted (s : Store) (p i n : Nat) : Store :=
  {(s.alloc n).1 with cell := update (s.alloc n).1.cell p (update (s.cell p) i (s.count+1))}

theorem grow_planted (has : s.Has p width) (inside : i < width) (empty : s.cell p i = 0) (n : Nat) :
    s.grow p i n = some (planted s p i n) := by
  have old : p ≠ s.count + 1 := by
    have := has.2.1
    omega
  have same : (s.alloc n).1.cell p = s.cell p := Function.update_of_ne old ..
  rw [Store.grow,load_has has inside,Option.bind_eq_bind,Option.bind_some,if_pos empty]
  change (s.alloc n).1.store p i (s.alloc n).2 = _
  rw [store_has (has_alloc has n) inside,same]
  rfl

theorem grow_kept (has : s.Has p width) (inside : i < width) (taken : s.cell p i ≠ 0) (n : Nat) : s.grow p i n = some s := by
  rw [Store.grow,load_has has inside,Option.bind_eq_bind,Option.bind_some,if_neg taken]

theorem planted_has (has : s.Has k n) (p i m : Nat) : (planted s p i m).Has k n := has_alloc has m

theorem planted_fresh (s : Store) (p i m : Nat) : (planted s p i m).Has (s.count+1) m := alloc_has s m

theorem planted_slot (s : Store) (p i n : Nat) : (planted s p i n).cell p i = s.count + 1 := by
  simp [planted]

theorem planted_other (different : j ≠ i) : (planted s p i n).cell p j = s.cell p j := by
  simp [planted,different]

theorem planted_old (old : k ≤ s.count) (different : k ≠ p) : (planted s p i n).cell k = s.cell k := by
  have fresh : k ≠ s.count + 1 := by omega
  simp [planted,Store.alloc,fresh,different]

theorem planted_zero (old : p ≤ s.count) : (planted s p i n).cell (s.count+1) j = 0 := by
  have fresh : s.count + 1 ≠ p := by omega
  simp [planted,Store.alloc,fresh]

theorem Tree.root_old (tree : Tree width size s root place) : root ≤ s.count := tree.top.1.2.1

theorem place_old {there : Place} (old : n ≤ s.count) : update place (s.count+1) there n = place n :=
  Function.update_of_ne (by omega) ..

theorem Tree.plant_inner (tree : Tree width size s root place) (empty : s.cell root i = 0) :
    Tree width size (planted s root i width) root (update place (s.count+1) (.inner i)) := by
  have old := tree.root_old
  refine ⟨⟨planted_has tree.top.1 ..,(place_old old).trans tree.top.2⟩,?_,?_⟩
  · intro i' first node
    rcases eq_or_ne i' i with rfl | other
    · rw [planted_slot]
      exact ⟨planted_fresh ..,Function.update_self ..⟩
    · rw [planted_other other] at node ⊢
      obtain ⟨has,lies⟩ := tree.inner i' first node
      exact ⟨planted_has has ..,(place_old has.2.1).trans lies⟩
  · intro i' first node j' second leaf
    rcases eq_or_ne i' i with rfl | other
    · rw [planted_slot,planted_zero old] at leaf
      exact absurd rfl leaf
    · rw [planted_other other] at node leaf ⊢
      rw [planted_old (tree.inner i' first node).1.2.1 (tree.node_root first node)] at leaf ⊢
      obtain ⟨has,lies⟩ := tree.leaf i' first node j' second leaf
      exact ⟨planted_has has ..,(place_old has.2.1).trans lies⟩

theorem Tree.inner_extends (tree : Tree width size s root place) (empty : s.cell root i = 0) :
    Extends width s (planted s root i width) root := by
  have old := tree.root_old
  constructor
  · intro i' first j' second k'
    rcases eq_or_ne i' i with rfl | other
    · rw [entry,entry,if_pos empty,planted_slot,planted_zero old,if_neg (Nat.succ_ne_zero _),if_pos rfl]
    · rw [entry,entry,planted_other other]
      split
      · rfl
      · rename_i node
        rw [planted_old (tree.inner i' first node).1.2.1 (tree.node_root first node)]
        split
        · rfl
        · rename_i leaf
          have has := (tree.leaf i' first node j' second leaf).1
          rw [planted_old has.2.1 (tree.leaf_root first second ⟨node,leaf⟩)]
  · intro i' first j' second leaf
    have other : i' ≠ i := fun same => leaf.1 (same ▸ empty)
    rw [HasLeaf,planted_other other,planted_old (tree.inner i' first leaf.1).1.2.1 (tree.node_root first leaf.1)]
    exact leaf

theorem Tree.plant_leaf (tree : Tree width size s root place) (first : i < width) (node : s.cell root i ≠ 0) :
    Tree width size (planted s (s.cell root i) j size) root (update place (s.count+1) (.leaf i j)) := by
  have old := tree.root_old
  have apart := tree.node_root first node
  refine ⟨⟨planted_has tree.top.1 ..,(place_old old).trans tree.top.2⟩,?_,?_⟩
  · intro i' first' node'
    rw [planted_old old apart.symm] at node' ⊢
    obtain ⟨has,lies⟩ := tree.inner i' first' node'
    exact ⟨planted_has has ..,(place_old has.2.1).trans lies⟩
  · intro i' first' node' j' second leaf
    rw [planted_old old apart.symm] at node' leaf ⊢
    by_cases slot : i' = i ∧ j' = j
    · obtain ⟨rfl,rfl⟩ := slot
      rw [planted_slot]
      exact ⟨planted_fresh ..,Function.update_self ..⟩
    · have cell : (planted s (s.cell root i) j size).cell (s.cell root i') j' = s.cell (s.cell root i') j' := by
        rcases eq_or_ne i' i with rfl | other
        · exact planted_other fun same => slot ⟨rfl,same⟩
        · rw [planted_old (tree.inner i' first' node').1.2.1 fun same => other (tree.node_inj first first' node same)]
      rw [cell] at leaf ⊢
      obtain ⟨has,lies⟩ := tree.leaf i' first' node' j' second leaf
      exact ⟨planted_has has ..,(place_old has.2.1).trans lies⟩

theorem Tree.leaf_extends (tree : Tree width size s root place) (first : i < width) (node : s.cell root i ≠ 0)
    (empty : s.cell (s.cell root i) j = 0) : Extends width s (planted s (s.cell root i) j size) root := by
  have old := tree.root_old
  have apart := tree.node_root first node
  have inner := (tree.inner i first node).1.2.1
  -- An inner array has changed in the slot (i,j) only.
  have cell : ∀ i' < width, s.cell root i' ≠ 0 → ∀ j', ¬(i' = i ∧ j' = j) →
      (planted s (s.cell root i) j size).cell (s.cell root i') j' = s.cell (s.cell root i') j' := by
    intro i' first' node' j' different
    rcases eq_or_ne i' i with rfl | other
    · exact planted_other fun same => different ⟨rfl,same⟩
    · rw [planted_old (tree.inner i' first' node').1.2.1 fun same => other (tree.node_inj first first' node same)]
  constructor
  · intro i' first' j' second' k'
    rw [entry,entry,planted_old old apart.symm]
    split
    · rfl
    · rename_i node'
      by_cases slot : i' = i ∧ j' = j
      · obtain ⟨rfl,rfl⟩ := slot
        rw [planted_slot,planted_zero inner,if_neg (Nat.succ_ne_zero _),if_pos empty]
      · rw [cell i' first' node' j' slot]
        split
        · rfl
        · rename_i leaf
          have has := (tree.leaf i' first' node' j' second' leaf).1
          rw [planted_old has.2.1 (tree.leaf_node first' second' ⟨node',leaf⟩ first node)]
  · intro i' first' j' second' leaf
    have different : ¬(i' = i ∧ j' = j) := by
      rintro ⟨rfl,rfl⟩
      exact leaf.2 empty
    rw [HasLeaf,planted_old old apart.symm,cell i' first' leaf.1 j' different]
    exact leaf

theorem Tree.grow_twice (tree : Tree width size s root place) (first : i < width) (second : j < width) :
    ∃ middle node next place, s.grow root i width = some middle ∧ middle.load root i = some node ∧
      middle.grow node j size = some next ∧ next.cell root i = node ∧ Tree width size next root place ∧
      Extends width s next root ∧ HasLeaf next root i j := by
  obtain ⟨middle,lies,grown,inner,widened,node⟩ : ∃ middle lies, s.grow root i width = some middle ∧
      Tree width size middle root lies ∧ Extends width s middle root ∧ middle.cell root i ≠ 0 := by
    by_cases empty : s.cell root i = 0
    · refine ⟨_,_,grow_planted tree.top.1 first empty width,tree.plant_inner empty,tree.inner_extends empty,?_⟩
      rw [planted_slot]
      exact Nat.succ_ne_zero _
    · exact ⟨s,place,grow_kept tree.top.1 first empty width,tree,extends_refl,empty⟩
  have has := (inner.inner i first node).1
  have loaded := load_has inner.top.1 first
  by_cases empty : middle.cell (middle.cell root i) j = 0
  · have same := planted_old (p := middle.cell root i) (i := j) (n := size) inner.root_old (inner.node_root first node).symm
    refine ⟨middle,_,_,_,grown,loaded,grow_planted has second empty size,congrFun same i,inner.plant_leaf first node,
      widened.trans (inner.leaf_extends first node empty),?_,?_⟩
    · rw [same]
      exact node
    · rw [same,planted_slot]
      exact Nat.succ_ne_zero _
  · exact ⟨middle,_,middle,lies,grown,loaded,grow_kept has second empty size,rfl,inner,widened,node,empty⟩

theorem Tree.plant (tree : Tree width size s root place) (first : i < width) (second : j < width) :
    ∃ next place, s.plant root i j width size = some next ∧ Tree width size next root place ∧
      Extends width s next root ∧ HasLeaf next root i j := by
  obtain ⟨middle,node,next,place,grown,loaded,planted,-,rest⟩ := tree.grow_twice first second
  exact ⟨next,place,by simp only [Store.plant,grown,loaded,planted,Option.bind_eq_bind,Option.bind_some],rest⟩

def written (s : Store) (root i j k v : Nat) : Store :=
  {s with cell := update s.cell (s.cell (s.cell root i) j) (update (s.cell (s.cell (s.cell root i) j)) k v)}

theorem Tree.store_leaf (tree : Tree width size s root place) (first : i < width) (second : j < width) (third : k < size)
    (leaf : HasLeaf s root i j) (v : Nat) :
    s.store (s.cell (s.cell root i) j) k v = some (written s root i j k v) :=
  store_has (tree.leaf i first leaf.1 j second leaf.2).1 third v

theorem Tree.put (tree : Tree width size s root place) (first : i < width) (second : j < width) (third : k < size)
    (leaf : HasLeaf s root i j) (v : Nat) : s.put root i j k v = some (written s root i j k v) := by
  rw [Store.put,load_has tree.top.1 first,Option.bind_eq_bind,Option.bind_some,
    load_has (tree.inner i first leaf.1).1 second,Option.bind_some]
  exact tree.store_leaf first second third leaf v

theorem Tree.clear (tree : Tree width size s root place) (first : i < width) (second : j < width) (third : k < size) :
    s.clear root i j k = some s ∧ entry s root i j k = 0 ∨
      HasLeaf s root i j ∧ s.clear root i j k = some (written s root i j k 0) := by
  rw [Store.clear,load_has tree.top.1 first,Option.bind_eq_bind,Option.bind_some]
  by_cases node : s.cell root i = 0
  · rw [if_pos node,entry,if_pos node]
    exact .inl ⟨rfl,rfl⟩
  · rw [if_neg node,load_has (tree.inner i first node).1 second,Option.bind_some]
    by_cases leaf : s.cell (s.cell root i) j = 0
    · rw [if_pos leaf,entry,if_neg node,if_pos leaf]
      exact .inl ⟨rfl,rfl⟩
    · rw [if_neg leaf]
      exact .inr ⟨⟨node,leaf⟩,tree.store_leaf first second third ⟨node,leaf⟩ 0⟩

section written
variable {i' j' : Nat} (tree : Tree width size s root place) (first : i < width) (second : j < width)
  (leaf : HasLeaf s root i j)
include tree first second leaf

theorem Tree.written_root : (written s root i j k v).cell root = s.cell root :=
  Function.update_of_ne (tree.leaf_root first second leaf).symm ..

theorem Tree.written_node (first' : i' < width) (node : s.cell root i' ≠ 0) :
    (written s root i j k v).cell (s.cell root i') = s.cell (s.cell root i') :=
  Function.update_of_ne (tree.leaf_node first second leaf first' node).symm ..

theorem Tree.written_leaf (first' : i' < width) (second' : j' < width) (leaf' : HasLeaf s root i' j') (k' : Nat) :
    (written s root i j k v).cell (s.cell (s.cell root i') j') k' =
      if i' = i ∧ j' = j ∧ k' = k then v else s.cell (s.cell (s.cell root i') j') k' := by
  by_cases array : i' = i ∧ j' = j
  · obtain ⟨rfl,rfl⟩ := array
    simp [written,Function.update_apply]
  · have apart := fun same => array (tree.leaf_inj first second leaf first' second' leaf' same)
    rw [if_neg fun same => array ⟨same.1,same.2.1⟩]
    exact congrFun (Function.update_of_ne apart ..) k'

theorem Tree.written_tree : Tree width size (written s root i j k v) root place := by
  refine ⟨tree.top,?_,?_⟩
  · intro i' first' node
    rw [tree.written_root first second leaf] at node ⊢
    exact tree.inner i' first' node
  · intro i' first' node j' second' filled
    rw [tree.written_root first second leaf] at node filled ⊢
    rw [tree.written_node first second leaf first' node] at filled ⊢
    exact tree.leaf i' first' node j' second' filled

theorem Tree.written_entry (first' : i' < width) (second' : j' < width) (k' : Nat) :
    entry (written s root i j k v) root i' j' k' =
      if i' = i ∧ j' = j ∧ k' = k then v else entry s root i' j' k' := by
  rw [entry,entry,tree.written_root first second leaf]
  by_cases node : s.cell root i' = 0
  · have different : ¬(i' = i ∧ j' = j ∧ k' = k) := fun same => leaf.1 (same.1 ▸ node)
    rw [if_pos node,if_neg different,if_pos node]
  · rw [if_neg node,if_neg node,tree.written_node first second leaf first' node]
    by_cases filled : s.cell (s.cell root i') j' = 0
    · have different : ¬(i' = i ∧ j' = j ∧ k' = k) := by
        rintro ⟨rfl,rfl,-⟩
        exact leaf.2 filled
      rw [if_pos filled,if_neg different,if_pos filled]
    · rw [if_neg filled,if_neg filled,tree.written_leaf first second leaf first' second' ⟨node,filled⟩]

end written

theorem tree_alloc (s : Store) (width size : Nat) :
    Tree width size (s.alloc width).1 (s.alloc width).2 fun _ => .root := by
  have empty : ∀ i, (s.alloc width).1.cell (s.alloc width).2 i = 0 := fun i => by simp [Store.alloc]
  exact ⟨⟨alloc_has s width,rfl⟩,fun i _ node => absurd (empty i) node,fun i _ node => absurd (empty i) node⟩

theorem entry_alloc (s : Store) (width i j k : Nat) : entry (s.alloc width).1 (s.alloc width).2 i j k = 0 := by
  simp [entry,Store.alloc]

end LinuxOS.Arrays
