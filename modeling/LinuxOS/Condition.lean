import Mathlib.Algebra.BigOperators.Group.Finset.Basic
import Mathlib.Data.Fintype.BigOperators

namespace LinuxOS.Census
open Function (update)
variable {ι α : Type*} [Fintype ι] [DecidableEq ι] {pc : ι → α} {p q : α → Prop} [DecidablePred p] [DecidablePred q]
variable {t : ι} {x : α}

def census (pc : ι → α) (p : α → Prop) [DecidablePred p] : Nat := (Finset.univ.filter fun t => p (pc t)).card

omit [DecidableEq ι] in
theorem census_eq_zero : census pc p = 0 ↔ ∀ t, ¬p (pc t) := by
  simp [census,Finset.filter_eq_empty_iff]

omit [DecidableEq ι] in
theorem census_pos : 0 < census pc p ↔ ∃ t, p (pc t) := by
  rw [Nat.pos_iff_ne_zero,Ne,census_eq_zero]
  push Not
  exact Iff.rfl

omit [DecidableEq ι] in
theorem census_congr {qc : ι → α} (same : ∀ t, p (qc t) ↔ p (pc t)) : census qc p = census pc p := by
  simp only [census,same]

theorem sum_change {f g : ι → Nat} (same : ∀ s, s ≠ t → g s = f s) :
    (∑ s, g s) + f t = (∑ s, f s) + g t := by
  have others : ∀ s ∈ Finset.univ.erase t, g s = f s := fun s found => same s (Finset.ne_of_mem_erase found)
  have after := Finset.add_sum_erase Finset.univ g (Finset.mem_univ t)
  have before := Finset.add_sum_erase Finset.univ f (Finset.mem_univ t)
  have rest : ∑ s ∈ Finset.univ.erase t, g s = ∑ s ∈ Finset.univ.erase t, f s :=
    Finset.sum_congr rfl others
  omega

theorem census_update (pc : ι → α) (p : α → Prop) [DecidablePred p] (t : ι) (x : α) :
    census (update pc t x) p + (if p (pc t) then 1 else 0) = census pc p + if p x then 1 else 0 := by
  have changed := sum_change (t := t) (f := fun s => if p (pc s) then 1 else 0)
    (g := fun s => if p (update pc t x s) then 1 else 0) fun s other => by rw [Function.update_of_ne other]
  simpa only [census,Finset.card_filter,Function.update_self] using changed

theorem census_enter (out : ¬p (pc t)) (inside : p x) : census (update pc t x) p = census pc p + 1 := by
  simpa [out,inside] using census_update pc p t x

theorem census_leave (inside : p (pc t)) (out : ¬p x) : census (update pc t x) p + 1 = census pc p := by
  simpa [out,inside] using census_update pc p t x

theorem census_stay (same : p (pc t) ↔ p x) : census (update pc t x) p = census pc p := by
  have moved := census_update pc p t x
  simp only [same] at moved
  exact Nat.add_right_cancel moved

end LinuxOS.Census

namespace LinuxOS.Condition
open Function (update)
open Census
variable {ι α : Type*} [Fintype ι] [DecidableEq ι]

-- Where a thread is with respect to one condition variable: not in a wait, in one
-- and not notified, notified, or woken without a notification. The last two have
-- the mutex still to take. What the thread is about stays with it.
inductive Place (α : Type*) where
  | away
  | waiting (a : α)
  | notified (a : α)
  | woken (a : α)
  deriving DecidableEq

def Place.isWaiting : Place α → Bool
  | .waiting _ => true
  | _ => false

def Place.isNotified : Place α → Bool
  | .notified _ => true
  | _ => false

def signal (places : ι → Place α) : Option ι → Option (ι → Place α)
  | some t =>
    match places t with
    | .waiting a => some (update places t (.notified a))
    | _ => none
  | none => if ∀ t, (places t).isWaiting = false then some places else none

def wake (places : ι → Place α) (t : ι) : Option (ι → Place α) :=
  match places t with
  | .waiting a => some (update places t (.woken a))
  | _ => none

def notified (places : ι → Place α) : Nat := census places (·.isNotified = true)

-- Where somebody waits, every unit that could be taken has a notification under way.
def Served (units : Nat) (places : ι → Place α) : Prop := (∃ t, (places t).isWaiting = true) → units ≤ notified places

variable {places next : ι → Place α} {t : ι} {units : Nat} {picked : Option ι} {place : Place α}

omit [DecidableEq ι] in
theorem start_served (units : Nat) : Served units fun _ : ι => (.away : Place α) := by
  rintro ⟨t,waits⟩
  cases waits

omit [Fintype ι] in
theorem waiting_elsewhere (stays : place.isWaiting = false) (waits : ∃ u, (update places t place u).isWaiting = true) :
    ∃ u, (places u).isWaiting = true := by
  obtain ⟨u,waits⟩ := waits
  by_cases same : u = t
  · rw [same,Function.update_self,stays] at waits
    cases waits
  · rw [Function.update_of_ne same] at waits
    exact ⟨u,waits⟩

theorem Served.signal (served : Served units places) (signalled : signal places picked = some next) :
    Served (units + 1) next := by
  cases picked with
  | none =>
    obtain ⟨quiet,equal⟩ := Option.ite_none_right_eq_some.mp signalled
    cases equal
    rintro ⟨t,waits⟩
    rw [quiet t] at waits
    cases waits
  | some t =>
    simp only [Condition.signal] at signalled
    split at signalled
    · rename_i a here
      cases signalled
      intro waits
      have waiting := waiting_elsewhere rfl waits
      have one_more : notified (update places t (.notified a)) = notified places + 1 :=
        census_enter (by simp [here,Place.isNotified]) rfl
      have enough := served waiting
      omega
    · cases signalled

theorem Served.take (served : Served units places) (leaves : place.isWaiting = false) :
    Served (units - 1) (update places t place) := by
  intro waits
  have waiting := waiting_elsewhere leaves waits
  have enough := served waiting
  have moved := census_update places (·.isNotified = true) t place
  have one : (if (places t).isNotified = true then 1 else 0) ≤ 1 := by split <;> decide
  unfold notified at enough ⊢
  omega

omit [DecidableEq ι] in
theorem served_none (places : ι → Place α) : Served 0 places := fun _ => Nat.zero_le _

theorem Served.wake (served : Served units places) (woke : wake places t = some next) : Served units next := by
  unfold Condition.wake at woke
  split at woke
  · rename_i a here
    cases woke
    intro waits
    have waiting := waiting_elsewhere rfl waits
    have same : notified (update places t (.woken a)) = notified places :=
      census_stay (by simp [here,Place.isNotified])
    rw [same]
    exact served waiting
  · cases woke

end LinuxOS.Condition
