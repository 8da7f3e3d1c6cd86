import LinuxOS.Links

namespace LinuxOS.Blocks
open Function (update)
open Links
variable {size stop fuel cur a : Nat} {mem : Nat → Option Nat}

-- `while (cur + size < stop) { NextObj(cur) = cur + size; cur += size; }
-- NextObj(cur) = nullptr;` with fuel for every byte of the span.
def carve (size stop : Nat) : Nat → Nat → (Nat → Option Nat) → Nat → Option Nat
  | 0,_,mem => mem
  | fuel+1,cur,mem =>
    if cur + size < stop then carve size stop fuel (cur+size) (update mem cur (some (cur+size)))
    else update mem cur none

def cells (size stop : Nat) : Nat → Nat → List Nat
  | 0,_ => []
  | fuel+1,cur => if cur + size < stop then cur :: cells size stop fuel (cur+size) else [cur]

theorem mem_cells (positive : 1 ≤ size) (low : cur < stop) (enough : stop ≤ cur + fuel) :
    a ∈ cells size stop fuel cur ↔ ∃ k, a = cur + k * size ∧ a < stop := by
  induction fuel generalizing cur with
  | zero => omega
  | succ fuel ih =>
    rw [cells]
    split
    case isTrue more =>
      rw [List.mem_cons,ih more (by omega)]
      constructor
      · rintro (rfl | ⟨k,rfl,below⟩)
        · exact ⟨0,by omega,low⟩
        · exact ⟨k+1,by rw [Nat.add_mul]; omega,below⟩
      · rintro ⟨k,rfl,below⟩
        cases k with
        | zero => left; omega
        | succ k => right; exact ⟨k,by rw [Nat.add_mul]; omega,below⟩
    case isFalse last =>
      rw [List.mem_singleton]
      constructor
      · rintro rfl; exact ⟨0,by omega,low⟩
      · rintro ⟨k,rfl,below⟩
        cases k with
        | zero => omega
        | succ k => rw [Nat.add_mul] at below; omega

theorem cells_nodup (positive : 1 ≤ size) (low : cur < stop) (enough : stop ≤ cur + fuel) :
    (cells size stop fuel cur).Nodup := by
  induction fuel generalizing cur with
  | zero => exact .nil
  | succ fuel ih =>
    rw [cells]
    split
    case isTrue more =>
      rw [List.nodup_cons]
      refine ⟨fun found => ?_,ih more (by omega)⟩
      obtain ⟨k,same,_⟩ := (mem_cells positive more (by omega)).mp found
      omega
    case isFalse => exact List.nodup_singleton cur

theorem carve_other (absent : a ∉ cells size stop fuel cur) : carve size stop fuel cur mem a = mem a := by
  induction fuel generalizing cur mem with
  | zero => rfl
  | succ fuel ih =>
    rw [cells] at absent
    rw [carve]
    split
    case isTrue more =>
      rw [if_pos more,List.mem_cons,not_or] at absent
      rw [ih absent.2,Function.update_of_ne absent.1]
    case isFalse last =>
      rw [if_neg last,List.mem_singleton] at absent
      rw [Function.update_of_ne absent]

theorem carve_chain (positive : 1 ≤ size) (low : cur < stop) (enough : stop ≤ cur + fuel) :
    Chain (carve size stop fuel cur mem) (some cur) (cells size stop fuel cur) := by
  induction fuel generalizing cur mem with
  | zero => omega
  | succ fuel ih =>
    rw [cells,carve]
    split
    case isTrue more =>
      have absent : cur ∉ cells size stop fuel (cur+size) := fun found => by
        obtain ⟨k,same,_⟩ := (mem_cells positive more (by omega)).mp found
        omega
      refine ⟨rfl,?_⟩
      rw [carve_other absent,Function.update_self]
      exact ih more (by omega)
    case isFalse => simp

end LinuxOS.Blocks
