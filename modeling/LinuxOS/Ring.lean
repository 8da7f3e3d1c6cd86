import Mathlib.Data.List.Basic
import Mathlib.Logic.Function.Basic
import Mathlib.Algebra.Group.Nat.Defs
import Mathlib.Data.Int.CardIntervalMod
import Mathlib.Data.List.Count

namespace LinuxOS.Ring
open Function (update)
variable {α : Type*} {cells values : List α} {a : α} {marks : Nat → Bool} {first last k l capacity : Nat}

def Stored (cells values : List α) (first : Nat) : Prop :=
  ∀ k, first ≤ k → k < values.length → cells[k % cells.length]? = values[k]?

theorem place_unique (window : k < l + capacity) (window' : l < k + capacity) (same : k % capacity = l % capacity) :
    k = l := by
  rcases Nat.le_total k l with below | above
  · have less : l - k < capacity := by omega
    have zero : (l - k) % capacity = 0 := Nat.sub_mod_eq_zero_of_mod_eq same.symm
    rw [Nat.mod_eq_of_lt less] at zero; omega
  · have less : k - l < capacity := by omega
    have zero : (k - l) % capacity = 0 := Nat.sub_mod_eq_zero_of_mod_eq same
    rw [Nat.mod_eq_of_lt less] at zero; omega

theorem Stored.nothing (over' : values.length ≤ first) : Stored cells values first :=
  fun _ above below => absurd (Nat.lt_of_lt_of_le below over') (Nat.not_lt.mpr above)

theorem Stored.push (stored : Stored cells values first) (room : values.length < first + cells.length) :
    Stored (cells.set (values.length % cells.length) a) (values ++ [a]) first := by
  intro k above below
  rw [List.length_set]
  by_cases last : k = values.length
  · subst k
    have inside : values.length % cells.length < cells.length := Nat.mod_lt _ (by omega)
    rw [List.getElem?_set_self inside,List.getElem?_concat_length]
  · have older : k < values.length := by
      rw [List.length_append,List.length_singleton] at below; omega
    have apart : values.length % cells.length ≠ k % cells.length := fun same =>
      last (place_unique (by omega) (by omega) same.symm)
    rw [List.getElem?_set_ne apart,List.getElem?_append_left older]
    exact stored k above older

theorem Stored.head (stored : Stored cells values first) (some' : first < values.length) :
    cells[first % cells.length]? = values[first]? :=
  stored first (Nat.le_refl first) some'

theorem Stored.pop (stored : Stored cells values first) : Stored cells values (first+1) :=
  fun k above below => stored k (Nat.le_of_succ_le above) below

def Marked (marks : Nat → Bool) (capacity first last : Nat) : Prop :=
  ∀ i, marks i = true ↔ ∃ k, first ≤ k ∧ k < last ∧ k % capacity = i

theorem marked_nothing (capacity : Nat) : Marked (fun _ => false) capacity 0 0 := by
  intro i
  constructor
  · intro marked; cases marked
  · rintro ⟨k,_,below,_⟩; cases below

theorem Marked.push (marked : Marked marks capacity first last) (ordered : first ≤ last) :
    Marked (update marks (last % capacity) true) capacity first (last+1) := by
  intro i
  by_cases new : i = last % capacity
  · subst i
    rw [Function.update_self]
    exact ⟨fun _ => ⟨last,ordered,Nat.lt_succ_self last,rfl⟩,fun _ => rfl⟩
  · rw [Function.update_of_ne new,marked i]
    constructor
    · rintro ⟨k,above,below,same⟩
      exact ⟨k,above,Nat.lt_succ_of_lt below,same⟩
    · rintro ⟨k,above,below,same⟩
      refine ⟨k,above,Nat.lt_of_le_of_ne (Nat.le_of_lt_succ below) fun equal => ?_,same⟩
      exact new (by rw [← same,equal])

theorem Marked.pop (marked : Marked marks capacity first last) (room : last ≤ first + capacity) :
    Marked (update marks (first % capacity) false) capacity (first+1) last := by
  intro i
  by_cases old : i = first % capacity
  · subst i
    rw [Function.update_self]
    constructor
    · intro impossible; cases impossible
    · rintro ⟨k,above,below,same⟩
      have equal := place_unique (l := first) (by omega) (by omega) same
      omega
  · rw [Function.update_of_ne old,marked i]
    constructor
    · rintro ⟨k,above,below,same⟩
      refine ⟨k,Nat.lt_of_le_of_ne above fun equal => ?_,below,same⟩
      exact old (by rw [← same,equal])
    · rintro ⟨k,above,below,same⟩
      exact ⟨k,Nat.le_of_succ_le above,below,same⟩

theorem advance_mod (k capacity : Nat) : (k % capacity + 1) % capacity = (k+1) % capacity := by
  rw [Nat.mod_add_mod]

variable {n place m i : Nat}

def turns (n place m : Nat) : List Nat := (List.range m).map fun k => (place + 1 + k) % n

theorem turns_succ : turns n place (m+1) = turns n place m ++ [(place + 1 + m) % n] := by
  simp only [turns,List.range_succ,List.map_append,List.map_singleton]

theorem taken_iff (inside : i < n) (k : Nat) :
    (place + 1 + k) % n = i ↔ k ≡ i + (n - (place + 1) % n) [MOD n] := by
  have behind : (place + 1) % n < n := Nat.mod_lt _ (Nat.zero_lt_of_lt inside)
  calc (place + 1 + k) % n = i
    _ ↔ (k + (place + 1) % n) % n = (i + n) % n := by
      rw [Nat.add_mod_right,Nat.mod_eq_of_lt inside,Nat.add_mod_mod,Nat.add_comm k]
    _ ↔ k + (place + 1) % n ≡ i + (n - (place + 1) % n) + (place + 1) % n [MOD n] := by
      rw [Nat.add_assoc i,Nat.sub_add_cancel behind.le]; rfl
    _ ↔ k ≡ i + (n - (place + 1) % n) [MOD n] :=
      ⟨fun same => Nat.ModEq.add_right_cancel' _ same,fun same => same.add_right _⟩

theorem turns_count (inside : i < n) :
    (turns n place m).count i = m.count (· ≡ i + (n - (place + 1) % n) [MOD n]) := by
  rw [turns,List.count,List.countP_map,Nat.count]
  refine List.countP_congr fun k _ => ?_
  simp only [Function.comp_apply,beq_iff_eq,decide_eq_true_eq]
  exact taken_iff inside k

theorem turns_even (inside : i < n) : m / n ≤ (turns n place m).count i ∧ (turns n place m).count i ≤ m / n + 1 := by
  rw [turns_count inside,Nat.count_modEq_card _ (Nat.zero_lt_of_lt inside)]
  split
  · exact ⟨Nat.le_succ _,Nat.le_refl _⟩
  · exact ⟨Nat.le_refl _,Nat.le_succ _⟩

end LinuxOS.Ring
