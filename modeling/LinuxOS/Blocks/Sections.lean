import LinuxOS.Blocks.Steps

namespace LinuxOS.Blocks
open Function (update)
variable {d : Design} {s next base : Heap} {t u size num span index ptr page : Nat} {pc : Pc} {list : FreeList}
variable {action : Action}

def Action.thread : Action → Nat
  | .alloc t _ _ => t
  | .free t _ => t
  | .next t _ => t

def Pc.within : Pc → Option Nat
  | .putting index _ => some index
  | _ => none

theorem within_elsewhere {i : Nat} {cur : Option Nat} (outside : pc.within = none) (different : i ≠ index) :
    pc.within = some i ↔ (Pc.putting index cur).within = some i := by
  rw [outside]
  exact ⟨fun same => (by cases same),fun same => absurd (Option.some.inj same).symm different⟩

theorem within_outside {i : Nat} (outside : pc.within = none) : pc.within ≠ some i := by
  rw [outside]
  exact fun same => by cases same

namespace Heap

-- What a step of thread `t` leaves to the other threads, and what it does to the locks:
-- a bucket lock is left alone, taken for the loop of ReleaseToSpan, or released after it.
structure Section (s next : Heap) (t : Nat) : Prop where
  pcs : ∀ u, u ≠ t → next.pcs u = s.pcs u
  lists : ∀ u, u ≠ t → next.lists u = s.lists u
  caps : ∀ i, (next.lists t i).maxSize ≤ (s.lists t i).maxSize + 1
  locks : ∀ i, next.locks i = s.locks i ∧ ((next.pcs t).within = some i ↔ (s.pcs t).within = some i) ∨
    s.locks i = none ∧ next.locks i = some t ∧ (next.pcs t).within = some i ∨
    (s.pcs t).within = some i ∧ next.locks i = none ∧ (next.pcs t).within ≠ some i

theorem Section.outside (pcs : ∀ u, u ≠ t → next.pcs u = s.pcs u) (lists : ∀ u, u ≠ t → next.lists u = s.lists u)
    (caps : ∀ i, (next.lists t i).maxSize ≤ (s.lists t i).maxSize + 1) (locks : next.locks = s.locks)
    (before : (s.pcs t).within = none) (after : (next.pcs t).within = none) : Section s next t := by
  refine ⟨pcs,lists,caps,fun i => .inl ⟨by rw [locks],?_⟩⟩
  rw [before,after]

theorem Section.leads (pcs : base.pcs = s.pcs) (lists : ∀ u, u ≠ t → base.lists u = s.lists u)
    (caps : ∀ i, (base.lists t i).maxSize ≤ (s.lists t i).maxSize + 1) (locks : base.locks = s.locks)
    (before : (s.pcs t).within = none) (after : pc.within = none) : Section s (base.setPc t pc) t := by
  refine .outside (fun u other => ?_) lists caps locks before ?_
  · rw [setPc_other other,pcs]
  · rw [setPc_same]; exact after

theorem Section.passes (pcs : base.pcs = s.pcs) (lists : base.lists = s.lists) (locks : base.locks = s.locks)
    (before : (s.pcs t).within = none) (after : pc.within = none) : Section s (base.setPc t pc) t := by
  refine .leads pcs (fun u _ => by rw [lists]) (fun i => ?_) locks before after
  rw [lists]; exact Nat.le_succ _

theorem setList_thread (other : u ≠ t) : (s.setList t index list).lists u = s.lists u := Function.update_of_ne other ..

theorem setList_cap (small : list.maxSize ≤ (s.lists t index).maxSize + 1) (i : Nat) :
    ((s.setList t index list).lists t i).maxSize ≤ (s.lists t i).maxSize + 1 := by
  by_cases same : i = index
  · subst i
    rw [setList_same]; exact small
  · rw [setList_other fun mine => same (Place.cached.inj mine).2]
    exact Nat.le_succ _

theorem takeRange_section (pcs : base.pcs = s.pcs) (lists : base.lists = s.lists) (locks : base.locks = s.locks)
    (before : (s.pcs t).within = none) (ran : base.takeRange t size num span = some next) : Section s next t := by
  obtain ⟨start,_,ran⟩ := Option.bind_eq_some_iff.mp ran
  cases ran
  exact .passes pcs lists locks before rfl

theorem allocate_section (idle : s.pcs t = .idle) (started : Nat → Bool)
    (ran : ({s with started} : Heap).allocate d t size = some next) : Section s next t := by
  have before : (s.pcs t).within = none := by rw [idle]; rfl
  obtain ⟨i,_,ran⟩ := Option.bind_eq_some_iff.mp ran
  dsimp only at ran
  split at ran
  · cases ran
    exact .outside (fun _ _ => rfl) (fun u other => setList_thread other) (setList_cap (Nat.le_succ _)) rfl before before
  · obtain ⟨_,_,ran⟩ := Option.bind_eq_some_iff.mp ran
    cases ran
    refine .leads rfl (fun u other => setList_thread other) (setList_cap ?_) rfl before rfl
    dsimp only
    split
    · exact Nat.le_refl _
    · exact Nat.le_succ _

theorem deallocate_section (before : (s.pcs t).within = none) (ran : s.deallocate d t span ptr = some next) :
    Section s next t := by
  unfold deallocate at ran
  dsimp only at ran
  split at ran
  · cases ran
    exact .passes rfl rfl rfl before rfl
  · obtain ⟨_,ran⟩ := Option.ite_none_right_eq_some.mp ran
    obtain ⟨_,_,ran⟩ := Option.bind_eq_some_iff.mp ran
    obtain ⟨i,_,ran⟩ := Option.bind_eq_some_iff.mp ran
    split at ran
    · obtain ⟨stop,_,ran⟩ := Option.bind_eq_some_iff.mp ran
      cases ran
      exact .leads rfl (fun u other => setList_thread other) (setList_cap (Nat.le_succ _)) rfl before rfl
    · cases ran
      exact .leads rfl (fun u other => setList_thread other) (setList_cap (Nat.le_succ _)) rfl before rfl

theorem putBack_section {cur : Nat} (putting : s.pcs t = .putting index (some cur))
    (ran : s.putBack d t index cur = some next) : Section s next t := by
  obtain ⟨h,_,ran⟩ := Option.bind_eq_some_iff.mp ran
  dsimp only at ran
  split at ran
  · cases ran
    refine ⟨fun u other => setPc_other other,fun _ _ => rfl,fun _ => Nat.le_succ _,fun i => ?_⟩
    by_cases mine : i = index
    · subst i
      refine .inr (.inr ⟨by rw [putting]; rfl,Function.update_self ..,?_⟩)
      rw [setPc_same]; exact within_outside rfl
    · refine .inl ⟨Function.update_of_ne mine ..,?_⟩
      rw [setPc_same,putting]
      exact within_elsewhere rfl mine
  · cases ran
    refine ⟨fun u other => setPc_other other,fun _ _ => rfl,fun _ => Nat.le_succ _,fun i => .inl ⟨rfl,?_⟩⟩
    rw [setPc_same,putting]; rfl

theorem advance_section (ran : s.advance d t page (s.pcs t) = some next) : Section s next t := by
  cases at' : s.pcs t with
  | idle => rw [at'] at ran; cases ran
  | fetching size num =>
    have before : (s.pcs t).within = none := by rw [at']; rfl
    rw [at'] at ran
    obtain ⟨i,_,ran⟩ := Option.bind_eq_some_iff.mp ran
    obtain ⟨_,ran⟩ := Option.ite_none_right_eq_some.mp ran
    split at ran
    · exact takeRange_section rfl rfl rfl before ran
    · cases ran
      exact .passes rfl rfl rfl before rfl
  | lacking size num =>
    have before : (s.pcs t).within = none := by rw [at']; rfl
    rw [at'] at ran
    obtain ⟨_,_,ran⟩ := Option.bind_eq_some_iff.mp ran
    obtain ⟨_,ran⟩ := Option.ite_none_right_eq_some.mp ran
    obtain ⟨_,_,ran⟩ := Option.bind_eq_some_iff.mp ran
    cases ran
    exact .passes rfl rfl rfl before rfl
  | fresh size num h =>
    have before : (s.pcs t).within = none := by rw [at']; rfl
    rw [at'] at ran
    obtain ⟨_,_,ran⟩ := Option.bind_eq_some_iff.mp ran
    cases ran
    exact .passes rfl rfl rfl before rfl
  | settled size num h =>
    have before : (s.pcs t).within = none := by rw [at']; rfl
    rw [at'] at ran
    cases ran
    exact .passes rfl rfl rfl before rfl
  | carved size num h =>
    have before : (s.pcs t).within = none := by rw [at']; rfl
    rw [at'] at ran
    obtain ⟨i,_,ran⟩ := Option.bind_eq_some_iff.mp ran
    obtain ⟨_,ran⟩ := Option.ite_none_right_eq_some.mp ran
    exact takeRange_section (by rfl) (by rfl) (by rfl) before ran
  | received size start stop count =>
    have before : (s.pcs t).within = none := by rw [at']; rfl
    rw [at'] at ran
    obtain ⟨i,_,ran⟩ := Option.bind_eq_some_iff.mp ran
    dsimp only at ran
    split at ran
    · cases ran
      exact .leads rfl (fun u other => setList_thread other) (setList_cap (Nat.le_succ _)) rfl before rfl
    · cases ran
      exact .passes rfl rfl rfl before rfl
  | freeing ptr h =>
    have before : (s.pcs t).within = none := by rw [at']; rfl
    rw [at'] at ran
    exact deallocate_section before ran
  | returning index cur =>
    rw [at'] at ran
    simp only [advance] at ran
    obtain ⟨free,equal⟩ := Option.ite_none_right_eq_some.mp ran
    cases equal
    refine ⟨fun u other => setPc_other other,fun _ _ => rfl,fun _ => Nat.le_succ _,fun i => ?_⟩
    by_cases mine : i = index
    · subst i
      refine .inr (.inl ⟨free,Function.update_self ..,?_⟩)
      rw [setPc_same]; rfl
    · refine .inl ⟨Function.update_of_ne mine ..,?_⟩
      rw [setPc_same,at']
      exact (within_elsewhere rfl mine).symm
  | putting index cur =>
    rw [at'] at ran
    cases cur with
    | some cur => exact putBack_section at' ran
    | none =>
      cases ran
      refine ⟨fun u other => setPc_other other,fun _ _ => rfl,fun _ => Nat.le_succ _,fun i => ?_⟩
      by_cases mine : i = index
      · subst i
        refine .inr (.inr ⟨by rw [at']; rfl,Function.update_self ..,?_⟩)
        rw [setPc_same]; exact within_outside rfl
      · refine .inl ⟨Function.update_of_ne mine ..,?_⟩
        rw [setPc_same,at']
        exact within_elsewhere rfl mine
  | releasing index h after =>
    have before : (s.pcs t).within = none := by rw [at']; rfl
    rw [at'] at ran
    obtain ⟨_,_,ran⟩ := Option.bind_eq_some_iff.mp ran
    cases ran
    exact .passes rfl rfl rfl before rfl
  | dropping h =>
    have before : (s.pcs t).within = none := by rw [at']; rfl
    rw [at'] at ran
    obtain ⟨_,_,ran⟩ := Option.bind_eq_some_iff.mp ran
    cases ran
    exact .passes rfl rfl rfl before rfl

theorem step_section (stepped : s.step d action = some next) : Section s next action.thread := by
  cases action with
  | alloc t size page =>
    simp only [Heap.step] at stepped
    split at stepped
    · rename_i idle
      have before : (s.pcs t).within = none := by rw [idle]; rfl
      split at stepped
      · dsimp only [allocateLarge] at stepped
        obtain ⟨_,stepped⟩ := Option.ite_none_right_eq_some.mp stepped
        obtain ⟨_,_,equal⟩ := Option.bind_eq_some_iff.mp stepped
        cases equal
        exact .outside (fun _ _ => rfl) (fun _ _ => rfl) (fun _ => Nat.le_succ _) rfl before before
      · exact allocate_section idle _ stepped
    · cases stepped
  | free t ptr =>
    simp only [Heap.step] at stepped
    split at stepped
    · rename_i idle
      obtain ⟨_,stepped⟩ := Option.ite_none_right_eq_some.mp stepped
      obtain ⟨_,_,equal⟩ := Option.map_eq_some_iff.mp stepped
      cases equal
      have before : (s.pcs t).within = none := by rw [idle]; rfl
      exact .passes rfl rfl rfl before rfl
    · cases stepped
  | next t page => exact advance_section stepped

def Locked (s : Heap) : Prop := ∀ i t, s.locks i = some t ↔ (s.pcs t).within = some i

theorem Locked.step (locked : Locked s) (stepped : s.step d action = some next) : Locked next := by
  intro i u
  have own := step_section stepped
  have before := locked i u
  by_cases mine : u = action.thread
  · subst u
    rcases own.locks i with ⟨same,still⟩ | ⟨_,taken,inside⟩ | ⟨_,left,outside⟩
    · rw [same,still]; exact before
    · exact iff_of_true taken inside
    · rw [left]
      exact iff_of_false (Option.some_ne_none _).symm outside
  · rw [own.pcs u mine]
    rcases own.locks i with ⟨same,_⟩ | ⟨free,taken,_⟩ | ⟨inside,left,_⟩
    · rw [same]; exact before
    · rw [free] at before
      rw [taken]
      exact iff_of_false (fun same => mine (Option.some.inj same).symm) fun within =>
        absurd (before.mpr within) (Option.some_ne_none u).symm
    · have held := (locked i action.thread).mpr inside
      rw [held] at before
      rw [left]
      exact iff_of_false (Option.some_ne_none u).symm fun within => mine (Option.some.inj (before.mpr within)).symm

theorem locked_start : Locked {} := fun _ t =>
  iff_of_false (Option.some_ne_none t).symm (within_outside rfl)

def Capped (s : Heap) (t cap : Nat) : Prop := ∀ i, (s.lists t i).maxSize ≤ cap

theorem Capped.step {cap : Nat} (capped : Capped s u cap) (stepped : s.step d action = some next) :
    Capped next u (cap+1) := by
  intro i
  have own := step_section stepped
  have before := capped i
  by_cases mine : u = action.thread
  · subst u
    have grown := own.caps i
    omega
  · rw [own.lists u mine]
    omega

end Heap
end LinuxOS.Blocks
