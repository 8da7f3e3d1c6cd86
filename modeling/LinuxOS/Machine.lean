import Mathlib.Logic.Basic
import Mathlib.Data.List.Basic

namespace LinuxOS.Machine
variable {State Action : Type*}

-- A machine is a partial transition function: `none` is an action that the
-- state does not admit, or one that ends the process (a failed assertion).
def run (step : State → Action → Option State) : State → List Action → Option State
  | s,[] => some s
  | s,action :: rest => (step s action).bind (run step · rest)

def Throughout (step : State → Action → Option State) (guard : State → Action → Prop) :
    State → List Action → Prop
  | _,[] => True
  | s,action :: rest => guard s action ∧
      match step s action with
      | none => True
      | some middle => Throughout step guard middle rest

instance throughout_decidable (step : State → Action → Option State) (guard : State → Action → Prop)
    [decided : ∀ s action, Decidable (guard s action)] :
    ∀ s actions, Decidable (Throughout step guard s actions)
  | _,[] => .isTrue trivial
  | s,action :: rest =>
    match found : step s action with
    | none => decidable_of_iff (guard s action) (by simp [Throughout,found])
    | some middle =>
      have := throughout_decidable step guard middle rest
      decidable_of_iff (guard s action ∧ Throughout step guard middle rest) (by simp [Throughout,found])

variable {step : State → Action → Option State} {guard : State → Action → Prop}

@[simp] theorem run_nil (s : State) : run step s [] = some s := rfl

theorem run_cons (s : State) (action : Action) (rest : List Action) :
    run step s (action :: rest) = (step s action).bind (run step · rest) := rfl

theorem run_append : run step s (first ++ second) = (run step s first).bind (run step · second) := by
  induction first generalizing s with
  | nil => rfl
  | cons action rest ih =>
    rw [List.cons_append,run_cons,run_cons]
    cases step s action with
    | none => rfl
    | some middle => simpa using ih

theorem throughout_append (admitted : Throughout step guard s (first ++ second)) :
    Throughout step guard s first ∧
      ∀ middle, run step s first = some middle → Throughout step guard middle second := by
  induction first generalizing s with
  | nil => exact ⟨trivial,fun middle ran => by cases ran; exact admitted⟩
  | cons action rest ih =>
    rw [List.cons_append] at admitted
    simp only [Throughout] at admitted ⊢
    cases taken : step s action with
    | none => exact ⟨⟨admitted.1,trivial⟩,by simp [run_cons,taken]⟩
    | some next =>
      simp only [taken] at admitted
      obtain ⟨front,back⟩ := ih admitted.2
      exact ⟨⟨admitted.1,front⟩,by simpa [run_cons,taken] using back⟩

-- The one induction over runs: what every guarded step keeps, every guarded run keeps.
theorem run_keeps {motive : State → Prop}
    (kept : ∀ s action next, motive s → guard s action → step s action = some next → motive next)
    (start : motive s) (admitted : Throughout step guard s actions)
    (ran : run step s actions = some next) : motive next := by
  induction actions generalizing s with
  | nil => cases ran; exact start
  | cons action rest ih =>
    obtain ⟨middle,taken,rest⟩ := Option.bind_eq_some_iff.mp ran
    simp only [Throughout,taken] at admitted
    exact ih (kept _ _ _ start admitted.1 taken) admitted.2 rest

theorem run_succeeds {motive : State → Prop}
    (taken : ∀ s action, motive s → guard s action → ∃ next, step s action = some next ∧ motive next)
    (start : motive s) (admitted : Throughout step guard s actions) :
    ∃ next, run step s actions = some next ∧ motive next := by
  induction actions generalizing s with
  | nil => exact ⟨s,rfl,start⟩
  | cons action rest ih =>
    simp only [Throughout] at admitted
    obtain ⟨middle,first,valid⟩ := taken s action start admitted.1
    simp only [first] at admitted
    obtain ⟨next,ran,valid⟩ := ih valid admitted.2
    exact ⟨next,by rw [run_cons,first,Option.bind_some,ran],valid⟩

theorem run_simulates {Model : Type*} {follow : Model → Action → Model} {related : State → Model → Prop} {m : Model}
    (taken : ∀ s m action, related s m → guard s action →
      ∃ next, step s action = some next ∧ related next (follow m action))
    (start : related s m) (admitted : Throughout step guard s actions) :
    ∃ next, run step s actions = some next ∧ related next (actions.foldl follow m) := by
  induction actions generalizing s m with
  | nil => exact ⟨s,rfl,start⟩
  | cons action rest ih =>
    simp only [Throughout] at admitted
    obtain ⟨middle,first,holds⟩ := taken s m action start admitted.1
    simp only [first] at admitted
    obtain ⟨next,ran,holds⟩ := ih holds admitted.2
    exact ⟨next,by rw [run_cons,first,Option.bind_some,ran],holds⟩

-- Here the guard is asked of the model.
theorem run_refines {Model : Type*} {follow : Model → Action → Model} {related : State → Model → Prop} {m : Model}
    {guard : Model → Action → Prop}
    (taken : ∀ s m action, related s m → guard m action →
      ∃ next, step s action = some next ∧ related next (follow m action))
    (start : related s m) (admitted : Throughout (fun m action => some (follow m action)) guard m actions) :
    ∃ next, run step s actions = some next ∧ related next (actions.foldl follow m) := by
  induction actions generalizing s m with
  | nil => exact ⟨s,rfl,start⟩
  | cons action rest ih =>
    simp only [Throughout] at admitted
    obtain ⟨middle,first,holds⟩ := taken s m action start admitted.1
    obtain ⟨next,ran,holds⟩ := ih holds admitted.2
    exact ⟨next,by rw [run_cons,first,Option.bind_some,ran],holds⟩

theorem throughout_each (each : ∀ action ∈ actions, ∀ s, guard s action) : Throughout step guard s actions := by
  induction actions generalizing s with
  | nil => trivial
  | cons action rest ih =>
    refine ⟨each action List.mem_cons_self s,?_⟩
    cases step s action with
    | none => trivial
    | some middle => exact ih fun later found => each later (List.mem_cons_of_mem _ found)

theorem run_simulates_each {Model : Type*} {follow : Model → Action → Model} {related : State → Model → Prop} {m : Model}
    {inside : Action → Prop}
    (taken : ∀ s m action, related s m → inside action → ∃ next, step s action = some next ∧ related next (follow m action))
    (start : related s m) (each : ∀ action ∈ actions, inside action) :
    ∃ next, run step s actions = some next ∧ related next (actions.foldl follow m) :=
  run_simulates taken start (throughout_each fun action found _ => each action found)

theorem Throughout.mono {weaker : State → Action → Prop} (implies : ∀ s action, guard s action → weaker s action)
    (admitted : Throughout step guard s actions) : Throughout step weaker s actions := by
  induction actions generalizing s with
  | nil => trivial
  | cons action rest ih =>
    refine ⟨implies s action admitted.1,?_⟩
    have later := admitted.2
    cases taken : step s action with
    | none => trivial
    | some middle =>
      rw [taken] at later
      exact ih later

theorem throughout_trivial : Throughout step (fun _ _ => True) s actions :=
  throughout_each fun _ _ _ => trivial

theorem run_invariant {motive : State → Prop}
    (kept : ∀ s action next, motive s → step s action = some next → motive next)
    (start : motive s) (ran : run step s actions = some next) : motive next :=
  run_keeps (fun s action next valid _ taken => kept s action next valid taken) start
    throughout_trivial ran

-- Where the guard is exactly what a step needs, a run goes through exactly if all its steps meet it.
theorem run_exactly (exact : ∀ s action, (∃ next, step s action = some next) ↔ guard s action) :
    (∃ next, run step s actions = some next) ↔ Throughout step guard s actions := by
  induction actions generalizing s with
  | nil => exact ⟨fun _ => trivial,fun _ => ⟨s,rfl⟩⟩
  | cons action rest ih =>
    rw [run_cons,Throughout,← exact s action]
    cases taken : step s action with
    | none => simp
    | some middle => simpa using ih

theorem run_bounded {motive : State → Prop} {measure : State → Nat}
    (costs : ∀ s action next, motive s → step s action = some next → motive next ∧ measure next < measure s)
    (start : motive s) (ran : run step s actions = some next) : motive next ∧ actions.length + measure next ≤ measure s := by
  induction actions generalizing s with
  | nil => cases ran; exact ⟨start,Nat.le_of_eq (Nat.zero_add _)⟩
  | cons action rest ih =>
    obtain ⟨middle,taken,rest⟩ := Option.bind_eq_some_iff.mp ran
    obtain ⟨valid,spent⟩ := costs _ _ _ start taken
    obtain ⟨valid,bound⟩ := ih valid rest
    exact ⟨valid,by rw [List.length_cons]; omega⟩

end LinuxOS.Machine
