import Mathlib.Data.List.Nodup
import Mathlib.Logic.Function.Basic

namespace LinuxOS.Places
open Function (update)
variable {Place Item : Type*} [DecidableEq Place] {kept : Place → List Item} {c d x : Place} {a : Item}
variable {rest arrived cells : List Item}

structure Apart (kept : Place → List Item) : Prop where
  nodup : ∀ c, (kept c).Nodup
  only : ∀ c d a, a ∈ kept c → a ∈ kept d → c = d

def carry (kept : Place → List Item) (c d : Place) (rest arrived : List Item) : Place → List Item :=
  update (update kept c rest) d arrived

@[simp] theorem carry_to : carry kept c d rest arrived d = arrived := Function.update_self ..

theorem carry_from (different : c ≠ d) : carry kept c d rest arrived c = rest := by
  rw [carry,Function.update_of_ne different,Function.update_self]

theorem carry_other (left : x ≠ c) (right : x ≠ d) : carry kept c d rest arrived x = kept x := by
  rw [carry,Function.update_of_ne right,Function.update_of_ne left]

theorem mem_carry (different : c ≠ d) (perm : (rest ++ arrived).Perm (kept c ++ kept d))
    (found : a ∈ carry kept c d rest arrived x) : a ∈ kept x ∨ (x = c ∨ x = d) ∧ (a ∈ kept c ∨ a ∈ kept d) := by
  by_cases right : x = d
  · subst x
    rw [carry_to] at found
    exact .inr ⟨.inr rfl,List.mem_append.mp (perm.mem_iff.mp (List.mem_append_right _ found))⟩
  · by_cases left : x = c
    · subst x
      rw [carry_from different] at found
      exact .inr ⟨.inl rfl,List.mem_append.mp (perm.mem_iff.mp (List.mem_append_left _ found))⟩
    · rw [carry_other left right] at found
      exact .inl found

theorem carried (different : c ≠ d) (perm : (rest ++ arrived).Perm (kept c ++ kept d)) (found : a ∈ kept x) :
    ∃ y, a ∈ carry kept c d rest arrived y := by
  by_cases here : x = c ∨ x = d
  · have member : a ∈ rest ++ arrived := by
      rw [perm.mem_iff]
      rcases here with rfl | rfl
      · exact List.mem_append_left _ found
      · exact List.mem_append_right _ found
    rcases List.mem_append.mp member with left | right
    · exact ⟨c,by rwa [carry_from different]⟩
    · exact ⟨d,by rwa [carry_to]⟩
  · rw [not_or] at here
    exact ⟨x,by rwa [carry_other here.1 here.2]⟩

omit [DecidableEq Place] in
theorem Apart.both (apart : Apart kept) (different : c ≠ d) : (kept c ++ kept d).Nodup := by
  rw [List.nodup_append]
  refine ⟨apart.nodup c,apart.nodup d,fun a left b right same => ?_⟩
  subst b
  exact different (apart.only c d a left right)

theorem Apart.carry (apart : Apart kept) (different : c ≠ d)
    (perm : (rest ++ arrived).Perm (kept c ++ kept d)) : Apart (carry kept c d rest arrived) := by
  have split := perm.nodup_iff.mpr (apart.both different)
  rw [List.nodup_append] at split
  constructor
  · intro x
    by_cases right : x = d
    · subst x; rw [carry_to]; exact split.2.1
    · by_cases left : x = c
      · subst x; rw [carry_from different]; exact split.1
      · rw [carry_other left right]; exact apart.nodup x
  · -- an item in the two places of the carry was in one of them before
    have origin : ∀ y a, a ∈ Places.carry kept c d rest arrived y → ∃ z, a ∈ kept z ∧
        (z = y ∧ y ≠ c ∧ y ≠ d ∨ (z = c ∨ z = d) ∧ (y = c ∨ y = d)) := by
      intro y a found
      by_cases here : y = c ∨ y = d
      · rcases mem_carry different perm found with same | ⟨_,left | right⟩
        · exact ⟨y,same,.inr ⟨here,here⟩⟩
        · exact ⟨c,left,.inr ⟨.inl rfl,here⟩⟩
        · exact ⟨d,right,.inr ⟨.inr rfl,here⟩⟩
      · rw [not_or] at here
        rw [carry_other here.1 here.2] at found
        exact ⟨y,found,.inl ⟨rfl,here⟩⟩
    intro x y a found found'
    obtain ⟨z,old,from'⟩ := origin x a found
    obtain ⟨w,old',from''⟩ := origin y a found'
    have same := apart.only z w a old old'
    rcases from' with ⟨rfl,left,right⟩ | ⟨inside,place⟩ <;> rcases from'' with ⟨rfl,left',right'⟩ | ⟨inside',place'⟩
    · exact same
    · subst w; exact absurd inside' (not_or.mpr ⟨left,right⟩)
    · subst z; exact absurd inside (not_or.mpr ⟨left',right'⟩)
    · -- both in `c` or `d`: the two parts of the carry are disjoint
      rcases place with rfl | rfl <;> rcases place' with rfl | rfl
      · rfl
      · rw [carry_from different] at found
        rw [carry_to] at found'
        exact absurd rfl (split.2.2 a found a found')
      · rw [carry_to] at found
        rw [carry_from different] at found'
        exact absurd rfl (split.2.2 a found' a found)
      · rfl

theorem Apart.trim (apart : Apart kept) (distinct : rest.Nodup) (sub : ∀ a ∈ rest, a ∈ kept c) :
    Apart (update kept c rest) := by
  have old : ∀ x a, a ∈ update kept c rest x → a ∈ kept x := by
    intro x a found
    by_cases here : x = c
    · subst x
      rw [Function.update_self] at found
      exact sub a found
    · rwa [Function.update_of_ne here] at found
  constructor
  · intro x
    by_cases here : x = c
    · subst x; rw [Function.update_self]; exact distinct
    · rw [Function.update_of_ne here]; exact apart.nodup x
  · intro x y a found found'
    exact apart.only x y a (old x a found) (old y a found')

theorem Apart.put (apart : Apart kept) (distinct : cells.Nodup) (fresh : ∀ a ∈ cells, ∀ x, a ∉ kept x) :
    Apart (update kept c (cells ++ kept c)) := by
  have old : ∀ x a, a ∈ update kept c (cells ++ kept c) x → a ∈ kept x ∨ x = c ∧ a ∈ cells := by
    intro x a found
    by_cases here : x = c
    · subst x
      rw [Function.update_self] at found
      exact (List.mem_append.mp found).symm.imp_right fun new => ⟨rfl,new⟩
    · rw [Function.update_of_ne here] at found
      exact .inl found
  constructor
  · intro x
    by_cases here : x = c
    · subst x
      rw [Function.update_self,List.nodup_append]
      exact ⟨distinct,apart.nodup c,fun a new b found same => fresh a new c (same ▸ found)⟩
    · rw [Function.update_of_ne here]; exact apart.nodup x
  · intro x y a found found'
    rcases old x a found with before | ⟨place,new⟩ <;> rcases old y a found' with before' | ⟨place',new'⟩
    · exact apart.only x y a before before'
    · exact absurd before (fresh a new' x)
    · exact absurd before' (fresh a new y)
    · exact place.trans place'.symm

end LinuxOS.Places
