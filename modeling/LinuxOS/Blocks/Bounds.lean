import LinuxOS.Blocks.Carving
import LinuxOS.Pages.Cache
import LinuxOS.Pool.SizeClass
import LinuxOS.Concurrent.SizeClass

namespace LinuxOS
open Function (update)
open Links Pages Blocks

-- The carving part of FetchFromPageCache: the memory with the links written into
-- it and `_free_list`, for a span of `pages` pages from page `id` on.
def Pool.carveSpan (size id pages : Nat) (mem : Nat → Option Nat) : (Nat → Option Nat) × Option Nat :=
  let start := id * pageBytes
  let stop := start + pageBytes * pages
  (carve size stop (pageBytes * pages) start mem,some start)

namespace Concurrent

-- `while (begin < end_bound) { NextObj(tail) = begin; tail = begin; begin += size; }
-- NextObj(tail) = nullptr;` with fuel for every byte of the span.
def link (size end_bound : Nat) : Nat → Nat → Nat → (Nat → Option Nat) → Nat → Option Nat
  | 0,_,_,mem => mem
  | fuel+1,tail,start,mem =>
    if start < end_bound then link size end_bound fuel start (start+size) (update mem tail (some start))
    else update mem tail none

-- The carving part of FetchRangeObj.
def carveSpan (size id pages : Nat) (mem : Nat → Option Nat) : (Nat → Option Nat) × Option Nat :=
  let start := id * pageBytes
  let bytes := pages * pageBytes
  (link size (start+bytes) bytes start (start+size) mem,some start)

theorem link_eq {size stop fuel cur : Nat} {mem : Nat → Option Nat} :
    link size stop fuel cur (cur+size) mem = carve size stop fuel cur mem := by
  induction fuel generalizing cur mem with
  | zero => rfl
  | succ fuel ih =>
    rw [link,carve]
    split
    case isTrue => exact ih
    case isFalse => rfl

end Concurrent

namespace Blocks
variable {size id pages request : Nat} {mem : Nat → Option Nat}

def Within (mem : Nat → Option Nat) (head : Option Nat) (size start stop : Nat) : Prop :=
  ∃ list, Chain mem head list ∧ list ≠ [] ∧ list.Pairwise (fun a b => a + size ≤ b ∨ b + size ≤ a) ∧
    ∀ a ∈ list, start ≤ a ∧ a + size ≤ stop

theorem cells_disjoint {stop fuel cur : Nat} (positive : 1 ≤ size) (low : cur < stop) (enough : stop ≤ cur + fuel) :
    (cells size stop fuel cur).Pairwise (fun a b => a + size ≤ b ∨ b + size ≤ a) := by
  have distinct := cells_nodup positive low enough
  apply List.Pairwise.imp_of_mem _ distinct
  intro a b found found' different
  obtain ⟨i,rfl,_⟩ := (mem_cells positive low enough).mp found
  obtain ⟨j,rfl,_⟩ := (mem_cells positive low enough).mp found'
  rcases Nat.lt_or_gt_of_ne (show i ≠ j by rintro rfl; exact different rfl) with before | after
  · have step := Nat.mul_le_mul_right size before
    rw [Nat.succ_mul] at step
    omega
  · have step := Nat.mul_le_mul_right size after
    rw [Nat.succ_mul] at step
    omega

-- The loop stops when no further block starts in the span, so the last block
-- ends where the span ends only if the blocks fill it.
theorem carve_within {start bytes : Nat} (positive : 1 ≤ size) (some_bytes : 1 ≤ bytes) :
    Within (carve size (start+bytes) bytes start mem) (some start) size start (start+bytes) ↔ size ∣ bytes := by
  have low : start < start + bytes := by omega
  have chain : Chain (carve size (start+bytes) bytes start mem) (some start) (cells size (start+bytes) bytes start) :=
    carve_chain positive low (Nat.le_refl _)
  constructor
  · rintro ⟨list,chain',_,_,inside⟩
    obtain rfl := chain.unique chain'
    have last : start + (bytes - 1) / size * size ∈ cells size (start+bytes) bytes start := by
      apply (mem_cells positive low (Nat.le_refl _)).mpr
      have below := Nat.div_mul_le_self (bytes - 1) size
      exact ⟨_,rfl,by omega⟩
    have fits := (inside _ last).2
    have split := Nat.div_add_mod (bytes - 1) size
    have rest := Nat.mod_lt (bytes - 1) positive
    rw [Nat.mul_comm] at split
    refine ⟨(bytes - 1) / size + 1,?_⟩
    rw [Nat.mul_comm,Nat.succ_mul]
    omega
  · rintro ⟨q,rfl⟩
    refine ⟨_,chain,?_,cells_disjoint positive low (Nat.le_refl _),?_⟩
    · have first : start ∈ cells size (start + size * q) (size * q) start :=
        (mem_cells positive low (Nat.le_refl _)).mpr ⟨0,by omega,low⟩
      exact List.ne_nil_of_mem first
    · intro a found
      obtain ⟨k,rfl,below⟩ := (mem_cells positive low (Nat.le_refl _)).mp found
      have before : k < q := by
        rw [Nat.mul_comm size] at below
        exact Nat.lt_of_mul_lt_mul_right (Nat.lt_of_add_lt_add_left below)
      have next := Nat.mul_le_mul_right size before
      rw [Nat.succ_mul,Nat.mul_comm q] at next
      omega

end Blocks

def Pool.Contained (request : Nat) : Prop := ∀ pages, Pool.SizeClass.numsFronPageCache (Pool.SizeClass.roundUp request) =
  some pages → ∀ id mem, Within (Pool.carveSpan (Pool.SizeClass.roundUp request) id pages mem).1
    (Pool.carveSpan (Pool.SizeClass.roundUp request) id pages mem).2 (Pool.SizeClass.roundUp request) (id * pageBytes)
    (id * pageBytes + pages * pageBytes)

def Concurrent.Contained (request : Nat) : Prop := ∀ pages, Concurrent.SizeClass.numMovePage
  (Concurrent.SizeClass.roundUp request) = some pages → ∀ id mem,
    Within (Concurrent.carveSpan (Concurrent.SizeClass.roundUp request) id pages mem).1
      (Concurrent.carveSpan (Concurrent.SizeClass.roundUp request) id pages mem).2
      (Concurrent.SizeClass.roundUp request) (id * pageBytes) (id * pageBytes + pages * pageBytes)

namespace Blocks
variable {size id pages request : Nat} {mem : Nat → Option Nat}

theorem pool_within (positive : 1 ≤ size) (page : 1 ≤ pages) : Within (Pool.carveSpan size id pages mem).1
    (Pool.carveSpan size id pages mem).2 size (id * pageBytes) (id * pageBytes + pages * pageBytes) ↔
      size ∣ pages * pageBytes := by
  have bytes : 1 ≤ pages * pageBytes := Nat.mul_pos page (by decide)
  simp only [Pool.carveSpan,Nat.mul_comm pageBytes]
  exact carve_within positive bytes

theorem concurrent_within (positive : 1 ≤ size) (page : 1 ≤ pages) : Within (Concurrent.carveSpan size id pages mem).1
    (Concurrent.carveSpan size id pages mem).2 size (id * pageBytes) (id * pageBytes + pages * pageBytes) ↔
      size ∣ pages * pageBytes := by
  have bytes : 1 ≤ pages * pageBytes := Nat.mul_pos page (by decide)
  simp only [Concurrent.carveSpan,Concurrent.link_eq]
  exact carve_within positive bytes

theorem contained_iff (positive : 1 ≤ request) (most : request ≤ 204800) :
    (Pool.Contained request ↔ ∃ pages, Pool.SizeClass.numsFronPageCache (Pool.SizeClass.roundUp request) = some pages ∧
      Pool.SizeClass.roundUp request ∣ pages * pageBytes) ∧
    (Concurrent.Contained request ↔ ∃ pages, Concurrent.SizeClass.numMovePage (Concurrent.SizeClass.roundUp request) =
      some pages ∧ Concurrent.SizeClass.roundUp request ∣ pages * pageBytes) := by
  constructor
  · have rounded : 1 ≤ Pool.SizeClass.roundUp request ∧ Pool.SizeClass.roundUp request ≤ 204800 := by
      obtain ⟨q,parts⟩ := Pool.SizeClass.shape (show request ≤ Pool.maxBytes from Nat.le_trans most (by decide))
      omega
    obtain ⟨nums,pages,_,asked,_,page,_,_⟩ := Pool.SizeClass.numsFronPageCache_spec rounded.1 rounded.2
    constructor
    · intro contained
      exact ⟨pages,asked,(pool_within rounded.1 page).mp (contained pages asked 0 fun _ => none)⟩
    · rintro ⟨pages',asked',fills⟩ pages'' asked'' id mem
      cases asked.symm.trans asked'
      cases asked.symm.trans asked''
      exact (pool_within rounded.1 page).mpr fills
  · have rounded : 1 ≤ Concurrent.SizeClass.roundUp request := by
      obtain ⟨q,parts⟩ := Concurrent.SizeClass.roundUp_shape (show request ≤ 262144 by omega)
      omega
    obtain ⟨pages,asked,page⟩ := Concurrent.SizeClass.numMovePage_spec rounded
    constructor
    · intro contained
      exact ⟨pages,asked,(concurrent_within rounded page).mp (contained pages asked 0 fun _ => none)⟩
    · rintro ⟨pages',asked',fills⟩ pages'' asked'' id mem
      cases asked.symm.trans asked'
      cases asked.symm.trans asked''
      exact (concurrent_within rounded page).mpr fills

theorem contained_iff_sixteen : Pool.Contained 16 ∧ Concurrent.Contained 16 := by
  have both : (Pool.Contained 16 ↔ _) ∧ (Concurrent.Contained 16 ↔ _) := contained_iff (by decide) (by decide)
  exact ⟨both.1.mpr ⟨1,by decide,⟨512,rfl⟩⟩,both.2.mpr ⟨1,by decide,⟨512,rfl⟩⟩⟩

-- 24 bytes: two pages of 16384 bytes hold 682 blocks and a third of another.
theorem last_block_sticks_out : (¬∀ request, 1 ≤ request → request ≤ 204800 → Pool.Contained request) ∧
    ¬∀ request, 1 ≤ request → request ≤ 204800 → Concurrent.Contained request := by
  constructor
  · intro claimed
    have inside := claimed 24 (by decide) (by decide) 2 (by decide) 0 fun _ => none
    rw [show Pool.SizeClass.roundUp 24 = 24 by decide] at inside
    exact absurd ((pool_within (by decide) (by decide)).mp inside) (by decide)
  · intro claimed
    have inside := claimed 24 (by decide) (by decide) 2 (by decide) 0 fun _ => none
    rw [show Concurrent.SizeClass.roundUp 24 = 24 by decide] at inside
    exact absurd ((concurrent_within (by decide) (by decide)).mp inside) (by decide)

end Blocks
end LinuxOS
