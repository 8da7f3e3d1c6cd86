import LinuxOS.Blocks.Progress
import LinuxOS.Pool.Assertions

namespace LinuxOS.Pool
open Machine
open Pages Blocks
variable {s : Heap} {v : View} {t page : Nat} {actions : List Action}

def awaits : Pc → Option Nat
  | .fetching size _ => bucket size
  | .carved size _ _ => bucket size
  | .returning index _ => some index
  | _ => none

theorem due_unless_locked (placed : s.Placed page (nPageList-1)) (busy : s.pcs t ≠ .idle) :
    Due s (.next t page) ∨ ∃ index u, awaits (s.pcs t) = some index ∧ s.locks index = some u := by
  have waits : ∀ {place : Option Nat}, (∀ index, place = some index → s.locks index = none) ∨
      ∃ index u, place = some index ∧ s.locks index = some u := by
    intro place
    by_cases free : ∀ index, place = some index → s.locks index = none
    · exact .inl free
    · rw [not_forall] at free
      obtain ⟨index,taken⟩ := free
      rw [Classical.not_imp] at taken
      obtain ⟨u,held⟩ := Option.ne_none_iff_exists'.mp taken.2
      exact .inr ⟨index,u,taken.1,held⟩
  cases at' : s.pcs t with
  | idle => exact absurd at' busy
  | fetching size num =>
    simp only [Due,at',awaits]
    exact waits
  | carved size num span =>
    simp only [Due,at',awaits]
    exact waits
  | returning index cur =>
    simp only [Due,at',awaits]
    cases held : s.locks index with
    | none => exact .inl rfl
    | some u => exact .inr ⟨index,u,rfl,held⟩
  | lacking size num =>
    simp only [Due,at']
    exact .inl placed
  | _ => exact .inl (by simp only [Due,at'])

-- A call is never stuck: its next section can be taken, or it waits for a lock of a
-- bucket, and the thread that has it can go on. And a call is never endless.
structure Completes (s : Heap) (t : Nat) : Prop where
  goes : s.pcs t ≠ .idle → ∀ page, s.Placed page (nPageList-1) → (s.step allocator (.next t page)).isSome = true ∨
    ∃ index u, awaits (s.pcs t) = some index ∧ s.locks index = some u ∧
      (s.step allocator (.next u page)).isSome = true
  ends : ∃ n, (∀ size, (s.pcs t).makes = some size → n ≤ 6) ∧ ∀ later next, (∀ action ∈ later, Request action) →
    (∀ action ∈ later, action.thread = t → ∃ page, action = .next t page) →
      run (Heap.step allocator) s later = some next → later.countP (·.thread = t) ≤ n

theorem calls_complete (actions : List Action) (s : Heap) (requests : ∀ action ∈ actions, Request action)
    (prepared : Throughout (Heap.step allocator) Prepared {} actions) (ran : run (Heap.step allocator) {} actions = some s)
    (t : Nat) : Completes s t := by
  have admitted : Throughout (Heap.step allocator) (Heap.Guard (fun _ _ _ => True) Requested) {} actions :=
    throughout_each fun action found _ => guard_of_request (requests action found)
  obtain ⟨v,sound⟩ := Heap.run_sound allocator_laws admitted ran
  have locked := (Heap.run_capped ran).1
  have ready : ∀ t ptr span, s.pcs t = .freeing ptr span → s.started t = true :=
    run_keeps (motive := fun s => ∀ t ptr span, s.pcs t = .freeing ptr span → s.started t = true)
      (fun _ _ _ => prepared_step) (fun _ _ _ freeing => by cases freeing) prepared ran
  refine ⟨fun busy page placed => ?_,?_⟩
  · rcases due_unless_locked placed busy with due | ⟨index,u,waits,held⟩
    · have request : Request (.next t page) := trivial
      refine .inl ((step_succeeds sound request due).mpr fun unprepared => ?_)
      simp only [Unprepared] at unprepared
      split at unprepared
      · rename_i ptr span freeing
        rw [ready t ptr span freeing] at unprepared
        cases unprepared
      · exact unprepared
    · refine .inr ⟨index,u,waits,held,?_⟩
      -- the thread that has the lock is in the loop under it, and no other lock is taken there
      have within := (locked index u).mp held
      cases at' : s.pcs u with
      | putting i cur =>
        have request : Request (.next u page) := trivial
        have due : Due s (.next u page) := by simp only [Due,at']
        refine (step_succeeds sound request due).mpr fun unprepared => ?_
        simp only [Unprepared,at'] at unprepared
      | _ =>
        rw [at'] at within
        cases within
  · obtain ⟨n,short,bound⟩ := Heap.run_left allocator_laws admitted ran t
    refine ⟨n,short,fun later next requests same ran => bound later next ?_ same ran⟩
    exact throughout_each fun action found _ => guard_of_request (requests action found)

def lockedOut : List Action := twoThreads.take 25 ++ [.alloc 1 204800 0,.alloc 1 204800 0]

theorem calls_complete_locked_out : ∃ s, run (Heap.step allocator) {} lockedOut = some s ∧
    (s.step allocator (.next 1 0)).isNone = true ∧ ∀ t, Completes s t := by
  have complete : (run (Heap.step allocator) {} lockedOut).map (fun s => (s.step allocator (.next 1 0)).isNone) =
    some true := by decide +kernel
  have prepared : Throughout (Heap.step allocator) Prepared {} lockedOut := by decide +kernel
  obtain ⟨s,ran,stuck⟩ := Option.map_eq_some_iff.mp complete
  exact ⟨s,ran,stuck,calls_complete lockedOut s (by decide) prepared ran⟩

end LinuxOS.Pool
