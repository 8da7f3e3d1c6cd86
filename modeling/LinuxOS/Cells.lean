import LinuxOS.Words
import Mathlib.Data.List.Perm.Basic

namespace LinuxOS.Cells
open Function (update)
open Links Words
variable {cell block a b x : Nat} {v : UInt8} {free : List Nat}

def Apart (cell a b : Nat) : Prop := a + cell ≤ b ∨ b + cell ≤ a

theorem Apart.symm (apart : Apart cell a b) : Apart cell b a := Or.symm apart

-- A pool of cells of one size: they are cut off the front of a block, and a cell that comes back
-- is linked through its own first bytes. The end of a block that is too short is given up.
structure Arena where
  bytes : Nat → UInt8
  freeList : Nat := 0
  next : Nat := 0
  remain : Nat := 0
  blocks : List Nat := []
  live : List Nat := []

-- What a new block is: not null, in the address space, clear of the blocks that there are.
def Fresh (block : Nat) (blocks : List Nat) (addr : Nat) : Prop := 0 < addr ∧ addr + block ≤ 2^64 ∧
  ∀ b ∈ blocks, addr + block ≤ b ∨ b + block ≤ addr

instance (blocks : List Nat) (addr : Nat) : Decidable (Fresh block blocks addr) :=
  inferInstanceAs (Decidable (_ ∧ _ ∧ _))

def Inside (block : Nat) (blocks : List Nat) (cell a : Nat) : Prop := ∃ b ∈ blocks, b ≤ a ∧ a + cell ≤ b + block

-- `free` is what the free list has. A cell needs room for a link only if there is one.
structure Sound (cell block : Nat) (s : Arena) (free : List Nat) : Prop where
  sized : 1 ≤ cell
  linked : free = [] ∨ 8 ≤ cell
  chain : Chain (link s.bytes) (pointer s.freeList) free
  word : s.freeList < 2^64
  inside : ∀ a ∈ free ++ s.live, Inside block s.blocks cell a
  apart : (free ++ s.live).Pairwise (Apart cell)
  tail : s.remain = 0 ∨ ∃ b ∈ s.blocks, b ≤ s.next ∧ s.next + s.remain ≤ b + block
  clear : ∀ a ∈ free ++ s.live, a + cell ≤ s.next ∨ s.next + s.remain ≤ a
  real : ∀ b ∈ s.blocks, 0 < b ∧ b + block ≤ 2^64

variable {s : Arena}

theorem sound_start (sized : 1 ≤ cell) (bytes : Nat → UInt8) : Sound cell block {bytes} [] :=
  ⟨sized,.inl rfl,by simp [pointer],Nat.two_pow_pos 64,by simp,by simp,.inl rfl,by simp,by simp⟩

theorem Sound.address (sound : Sound cell block s free) (member : a ∈ free ++ s.live) : 0 < a ∧ a + cell ≤ 2^64 := by
  obtain ⟨b,given,low,high⟩ := sound.inside a member
  have real := sound.real b given
  omega

theorem Sound.distinct (sound : Sound cell block s free) : (free ++ s.live).Nodup := by
  refine sound.apart.imp ?_
  rintro a _ apart rfl
  have sized := sound.sized
  rcases apart with low | low <;> omega

theorem Sound.remain_lt (sound : Sound cell block s free) : s.remain < 2^64 := by
  rcases sound.tail with spent | ⟨b,given,low,high⟩
  · rw [spent]; exact Nat.two_pow_pos 64
  · have real := sound.real b given
    omega

theorem Sound.head (sound : Sound cell block s free) (some_cell : s.freeList ≠ 0) : ∃ rest, free = s.freeList :: rest := by
  have chain := sound.chain
  cases free with
  | nil => exact absurd (pointer_none.mp chain) some_cell
  | cons a rest =>
    obtain ⟨rfl,_⟩ := pointer_some.mp chain.1
    exact ⟨rest,rfl⟩

theorem Sound.permute {next : Arena} {free' : List Nat} (sound : Sound cell block s free)
    (perm : (free ++ s.live).Perm (free' ++ next.live)) (linked : free' = [] ∨ 8 ≤ cell)
    (chain : Chain (link next.bytes) (pointer next.freeList) free') (word : next.freeList < 2^64)
    (same : next.next = s.next ∧ next.remain = s.remain ∧ next.blocks = s.blocks) : Sound cell block next free' := by
  obtain ⟨nextSame,remainSame,blocksSame⟩ := same
  refine ⟨sound.sized,linked,chain,word,?_,?_,?_,?_,?_⟩
  · intro a member
    rw [blocksSame]
    exact sound.inside a (perm.mem_iff.mpr member)
  · exact (perm.pairwise_iff fun apart => apart.symm).mp sound.apart
  · rw [nextSame,remainSame,blocksSame]; exact sound.tail
  · intro a member
    rw [nextSame,remainSame]
    exact sound.clear a (perm.mem_iff.mpr member)
  · rw [blocksSame]; exact sound.real

theorem Sound.pop (sound : Sound cell block s (a :: free)) :
    Sound cell block {s with freeList := load s.bytes a 8, live := a :: s.live} free := by
  have perm : (a :: free ++ s.live).Perm (free ++ a :: s.live) := List.perm_middle.symm
  have room := sound.linked.resolve_left (List.cons_ne_nil a free)
  exact sound.permute perm (.inr room) sound.chain.2 (load_lt s.bytes a 8) ⟨rfl,rfl,rfl⟩

theorem perm_freed {live : List Nat} (free : List Nat) (user : a ∈ live) : (free ++ live).Perm (a :: free ++ live.erase a) :=
  ((List.perm_cons_erase user).append_left free).trans List.perm_middle

-- A link is written only where a cell begins, so it changes no byte outside of it.
theorem Sound.push (sound : Sound cell block s free) (room : 8 ≤ cell) (user : a ∈ s.live) :
    Sound cell block {s with bytes := store s.bytes a s.freeList 8, freeList := a, live := s.live.erase a} (a :: free) := by
  have member : a ∈ free ++ s.live := List.mem_append_right _ user
  have real := sound.address member
  have perm := perm_freed free user
  have apart := (perm.pairwise_iff fun apart : Apart cell _ _ => apart.symm).mp sound.apart
  refine sound.permute perm (.inr room) ⟨pointer_some.mpr ⟨rfl,Nat.ne_of_gt real.1⟩,?_⟩
    (show a < 2^64 by omega) ⟨rfl,rfl,rfl⟩
  rw [link_store sound.word]
  refine sound.chain.agree fun b member => link_congr fun x low high => store_outside ?_
  have beside := (List.pairwise_cons.mp apart).1 b (List.mem_append_left _ member)
  rcases beside with before | before <;> omega

theorem Sound.scribble (sound : Sound cell block s free) (user : a ∈ s.live) (low : a ≤ x) (high : x < a + cell) (v : UInt8) :
    Sound cell block {s with bytes := update s.bytes x v} free := by
  refine sound.permute (List.Perm.refl _) sound.linked ?_ sound.word ⟨rfl,rfl,rfl⟩
  refine sound.chain.agree fun b member => link_congr fun y first last => Function.update_of_ne ?_ ..
  have room := sound.linked.resolve_left (List.ne_nil_of_mem member)
  have beside := (List.pairwise_append.mp sound.apart).2.2 b member a user
  rcases beside with before | before <;> omega

theorem Sound.refill (sound : Sound cell block s free) (fresh : Fresh block s.blocks b) :
    Sound cell block {s with next := b, remain := block, blocks := b :: s.blocks} free := by
  refine ⟨sound.sized,sound.linked,sound.chain,sound.word,?_,sound.apart,.inr ⟨b,List.mem_cons_self,Nat.le_refl _,Nat.le_refl _⟩,
    ?_,?_⟩
  · intro a member
    obtain ⟨old,given,inside⟩ := sound.inside a member
    exact ⟨old,List.mem_cons_of_mem _ given,inside⟩
  · intro a member
    obtain ⟨old,given,low,high⟩ := sound.inside a member
    have clear := fresh.2.2 old given
    simp only
    omega
  · intro old given
    rcases List.mem_cons.mp given with rfl | given
    · exact ⟨fresh.1,fresh.2.1⟩
    · exact sound.real old given

theorem Sound.carve (sound : Sound cell block s free) (room : cell ≤ s.remain) :
    Sound cell block {s with next := s.next + cell, remain := s.remain - cell, live := s.next :: s.live} free := by
  have sized := sound.sized
  obtain ⟨b,given,low,high⟩ := sound.tail.resolve_left (by omega)
  have perm : (s.next :: (free ++ s.live)).Perm (free ++ s.next :: s.live) := List.perm_middle.symm
  refine ⟨sized,sound.linked,sound.chain,sound.word,?_,?_,.inr ⟨b,given,by simp only; omega,by simp only; omega⟩,?_,sound.real⟩
  · intro a member
    rcases List.mem_cons.mp (perm.mem_iff.mpr member) with rfl | old
    · exact ⟨b,given,low,by omega⟩
    · exact sound.inside a old
  · refine (perm.pairwise_iff fun apart => apart.symm).mp (List.pairwise_cons.mpr ⟨fun a member => ?_,sound.apart⟩)
    rcases sound.clear a member with before | before
    · exact .inr before
    · exact .inl (by omega)
  · intro a member
    simp only
    rcases List.mem_cons.mp (perm.mem_iff.mpr member) with rfl | old
    · exact .inl (Nat.le_refl _)
    · rcases sound.clear a old with before | before <;> omega

end LinuxOS.Cells
