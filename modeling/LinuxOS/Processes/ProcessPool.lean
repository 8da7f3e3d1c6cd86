import Mathlib.Data.Finset.Max
import LinuxOS.Condition
import LinuxOS.Machine

namespace LinuxOS.Processes
open Function (update)
open Machine
variable {n : Nat}

def taskSize : Nat := 3

-- The parent: the loop of CreateChannel, AllocTask, the two loops of CompleteAndQuit.
inductive Phase where
  | creating (i : Nat)
  | allocating
  | closing (i : Nat)
  | waiting (i : Nat)
  | done
  deriving DecidableEq, Repr

def Phase.Closed : Phase → Prop
  | .waiting _ | .done => True
  | _ => False

-- A child: not forked yet, about to close its own write end, in GetFuncIdAndExcute,
-- or past exit.
inductive Child where
  | unborn | born | reading | exited
  deriving DecidableEq, Repr

def Phase.turns (n : Nat) : Phase → Nat
  | .waiting i => n - i + 1
  | _ => 0

def Child.turns : Child → Nat
  | .born => 2
  | .reading => 1
  | _ => 0

-- Which processes hold which pipe's write end, and what is in the pipes. `written` and
-- `read` are the task ids that went through each pipe.
structure ProcessPool (n : Nat) where
  phase : Phase := .creating 0
  parentEnds : Fin n → Bool := fun _ => false
  childEnds : Fin n → Fin n → Bool := fun _ _ => false
  children : Fin n → Child := fun _ => .unborn
  pipes : Fin n → List (Fin taskSize) := fun _ => []
  index : Nat := 0
  written : Fin n → List (Fin taskSize) := fun _ => []
  read : Fin n → List (Fin taskSize) := fun _ => []

-- `parent` is what the parent does next; `alloc` one more AllocTaskOnce while it
-- allocates; `child` what a child does next.
inductive PoolAction (n : Nat) where
  | parent
  | alloc (taskid : Fin taskSize)
  | child (j : Fin n)

namespace ProcessPool
variable (s : ProcessPool n)

-- pipe and fork: the child gets the write ends that the parent has at that time.
def create (j : Fin n) : ProcessPool n :=
  let ends := update s.parentEnds j true
  {s with
    parentEnds := ends
    childEnds := update s.childEnds j ends
    children := update s.children j .born}

def parent : Option (ProcessPool n) :=
  match s.phase with
  | .creating i =>
    if inside : i < n then some {s.create ⟨i,inside⟩ with phase := .creating (i + 1)}
    else some {s with phase := .allocating}
  | .allocating => some {s with phase := .closing 0}
  | .closing i =>
    if inside : i < n then some {s with parentEnds := update s.parentEnds ⟨i,inside⟩ false, phase := .closing (i + 1)}
    else some {s with phase := .waiting 0}
  | .waiting i =>
    if inside : i < n then
      if s.children ⟨i,inside⟩ = .exited then some {s with phase := .waiting (i + 1)} else none
    else some {s with phase := .done}
  | .done => none

def allocTaskOnce (taskid : Fin taskSize) : Option (ProcessPool n) :=
  if inside : s.phase = .allocating ∧ s.index < n then
    let j : Fin n := ⟨s.index,inside.2⟩
    some {s with
      pipes := update s.pipes j (s.pipes j ++ [taskid])
      written := update s.written j (s.written j ++ [taskid])
      index := (s.index + 1) % n}
  else none

-- End of file is when no process has the write end; exit closes the ends that the
-- child has inherited.
def child (j : Fin n) : Option (ProcessPool n) :=
  match s.children j with
  | .unborn => none
  | .born =>
    some {s with
      children := update s.children j .reading
      childEnds := update s.childEnds j (update (s.childEnds j) j false)}
  | .reading =>
    match s.pipes j with
    | taskid :: rest =>
      some {s with pipes := update s.pipes j rest, read := update s.read j (s.read j ++ [taskid])}
    | [] =>
      if s.parentEnds j = false ∧ ∀ k, s.childEnds k j = false then
        some {s with
          children := update s.children j .exited
          childEnds := update s.childEnds j fun _ => false}
      else none
  | .exited => none

def step : PoolAction n → Option (ProcessPool n)
  | .parent => s.parent
  | .alloc taskid => s.allocTaskOnce taskid
  | .child j => s.child j

def Staged (j : Nat) (held : Bool) (place : Child) : Phase → Prop
  | .creating i => (held = true ↔ j < i) ∧ (place = .unborn ↔ i ≤ j) ∧ place ≠ .exited
  | .allocating => held = true ∧ place ≠ .unborn ∧ place ≠ .exited
  | .closing i => (held = true ↔ i ≤ j) ∧ place ≠ .unborn
  | .waiting i => held = false ∧ place ≠ .unborn ∧ (j < i → place = .exited)
  | .done => held = false ∧ place = .exited

structure Sound (s : ProcessPool n) : Prop where
  staged : ∀ j : Fin n, Staged j (s.parentEnds j) (s.children j) s.phase
  inherited : ∀ k j, s.childEnds k j = true → s.children k ≠ .exited ∧ (j < k ∨ j = k ∧ s.children k = .born)
  conserved : ∀ j, s.read j ++ s.pipes j = s.written j
  drained : ∀ j, s.children j = .exited → s.pipes j = []
  indexed : 0 < n → s.index < n

variable {s} {next : ProcessPool n} {action : PoolAction n} {j : Fin n}

theorem start_sound : Sound ({} : ProcessPool n) where
  staged := fun j => ⟨by simp,by simp,by simp⟩
  inherited := fun k j held => by cases held
  conserved := fun _ => rfl
  drained := fun _ _ => rfl
  indexed := id

theorem Sound.staged_at (sound : Sound s) {place : Child} (staged : Staged j (s.parentEnds j) place s.phase) :
    ∀ k : Fin n, Staged k (s.parentEnds k) (update s.children j place k) s.phase :=
  (Function.forall_update_iff s.children fun k place => Staged k (s.parentEnds k) place s.phase).mpr
    ⟨staged,fun k _ => sound.staged k⟩

theorem Sound.drained_at (sound : Sound s) {place : Child} (drained : place = .exited → s.pipes j = []) :
    ∀ k, update s.children j place k = .exited → s.pipes k = [] :=
  (Function.forall_update_iff s.children fun k place => place = .exited → s.pipes k = []).mpr
    ⟨drained,fun k _ => sound.drained k⟩

theorem Sound.create (sound : Sound s) {i : Nat} (inside : i < n) (phase : s.phase = .creating i) :
    Sound {s.create ⟨i,inside⟩ with phase := .creating (i + 1)} where
  staged := by
    intro j
    have staged := sound.staged j
    rw [phase] at staged
    obtain ⟨held,unborn,running⟩ := staged
    show Staged j (update s.parentEnds ⟨i,inside⟩ true j) (update s.children ⟨i,inside⟩ .born j) (.creating (i + 1))
    by_cases new : j = ⟨i,inside⟩
    · subst new
      rw [Function.update_self,Function.update_self]
      exact ⟨by simp,by simp,by simp⟩
    · have other : (j : Nat) ≠ i := fun same => new (Fin.ext same)
      rw [Function.update_of_ne new,Function.update_of_ne new]
      exact ⟨held.trans (by omega),unborn.trans (by omega),running⟩
  inherited := by
    intro k j held
    change update s.childEnds ⟨i,inside⟩ (update s.parentEnds ⟨i,inside⟩ true) k j = true at held
    show update s.children ⟨i,inside⟩ .born k ≠ .exited ∧ (j < k ∨ j = k ∧ update s.children ⟨i,inside⟩ .born k = .born)
    by_cases new : k = ⟨i,inside⟩
    · subst new
      rw [Function.update_self] at held ⊢
      refine ⟨by simp,?_⟩
      by_cases own : j = ⟨i,inside⟩
      · exact .inr ⟨own,rfl⟩
      · rw [Function.update_of_ne own] at held
        have staged := sound.staged j
        rw [phase] at staged
        exact .inl (staged.1.mp held)
    · rw [Function.update_of_ne new] at held ⊢
      exact sound.inherited k j held
  conserved := sound.conserved
  drained := sound.drained_at fun left => by cases left
  indexed := sound.indexed

theorem Sound.turn (sound : Sound s) {phase : Phase}
    (staged : ∀ j : Fin n, Staged j (s.parentEnds j) (s.children j) s.phase → Staged j (s.parentEnds j) (s.children j) phase) :
    Sound {s with phase := phase} :=
  {sound with staged := fun j => staged j (sound.staged j)}

theorem Sound.close (sound : Sound s) {i : Nat} (inside : i < n) (phase : s.phase = .closing i) :
    Sound {s with parentEnds := update s.parentEnds ⟨i,inside⟩ false, phase := .closing (i + 1)} :=
  {sound with
    staged := by
      intro j
      have staged := sound.staged j
      rw [phase] at staged
      show Staged j (update s.parentEnds ⟨i,inside⟩ false j) (s.children j) (.closing (i + 1))
      by_cases closed : j = ⟨i,inside⟩
      · subst closed
        rw [Function.update_self]
        exact ⟨by simp,staged.2⟩
      · have other : (j : Nat) ≠ i := fun same => closed (Fin.ext same)
        rw [Function.update_of_ne closed]
        exact ⟨staged.1.trans (by omega),staged.2⟩}

theorem Sound.parent (sound : Sound s) (stepped : s.parent = some next) : Sound next := by
  unfold ProcessPool.parent at stepped
  cases phase : s.phase with
  | creating i =>
    simp only [phase] at stepped
    split at stepped
    · rename_i inside
      cases stepped
      exact sound.create inside phase
    · rename_i ended
      cases stepped
      refine sound.turn fun j staged => ?_
      rw [phase] at staged
      have bound := j.isLt
      exact ⟨staged.1.mpr (by omega),fun unborn => absurd (staged.2.1.mp unborn) (by omega),staged.2.2⟩
  | allocating =>
    simp only [phase] at stepped
    cases stepped
    refine sound.turn fun j staged => ?_
    rw [phase] at staged
    exact ⟨⟨fun _ => Nat.zero_le _,fun _ => staged.1⟩,staged.2.1⟩
  | closing i =>
    simp only [phase] at stepped
    split at stepped
    · rename_i inside
      cases stepped
      exact sound.close inside phase
    · rename_i ended
      cases stepped
      refine sound.turn fun j staged => ?_
      rw [phase] at staged
      have bound := j.isLt
      refine ⟨Bool.eq_false_iff.mpr fun held => ?_,staged.2,fun below => absurd below (Nat.not_lt_zero _)⟩
      have above := staged.1.mp held
      omega
  | waiting i =>
    simp only [phase] at stepped
    split at stepped
    · rename_i inside
      obtain ⟨left,equal⟩ := Option.ite_none_right_eq_some.mp stepped
      cases equal
      refine sound.turn fun j staged => ?_
      rw [phase] at staged
      refine ⟨staged.1,staged.2.1,fun below => ?_⟩
      by_cases last : j = ⟨i,inside⟩
      · rw [last]; exact left
      · have other : (j : Nat) ≠ i := fun same => last (Fin.ext same)
        exact staged.2.2 (by omega)
    · rename_i ended
      cases stepped
      refine sound.turn fun j staged => ?_
      rw [phase] at staged
      have bound := j.isLt
      exact ⟨staged.1,staged.2.2 (by omega)⟩
  | done =>
    simp only [phase] at stepped
    cases stepped

theorem Sound.alloc (sound : Sound s) {taskid : Fin taskSize} (stepped : s.allocTaskOnce taskid = some next) :
    Sound next := by
  unfold allocTaskOnce at stepped
  split at stepped
  · rename_i inside
    cases stepped
    exact {sound with
      conserved := by
        intro j
        show s.read j ++ update s.pipes _ _ j = update s.written _ _ j
        by_cases same : j = ⟨s.index,inside.2⟩
        · rw [same,Function.update_self,Function.update_self,← List.append_assoc,sound.conserved]
        · rw [Function.update_of_ne same,Function.update_of_ne same]
          exact sound.conserved j
      drained := by
        intro j left
        have staged := sound.staged j
        rw [inside.1] at staged
        exact absurd left staged.2.2
      indexed := fun positive => Nat.mod_lt _ positive}
  · cases stepped

theorem staged_alive {i : Nat} {held : Bool} {place place' : Child} {phase : Phase} (staged : Staged i held place phase)
    (alive : place ≠ .unborn ∧ place ≠ .exited) (alive' : place' ≠ .unborn ∧ place' ≠ .exited) :
    Staged i held place' phase := by
  cases phase with
  | creating i => exact ⟨staged.1,by simpa [alive.1,alive'.1] using staged.2.1,alive'.2⟩
  | allocating => exact ⟨staged.1,alive'.1,alive'.2⟩
  | closing i => exact ⟨staged.1,alive'.1⟩
  | waiting i => exact ⟨staged.1,alive'.1,fun below => absurd (staged.2.2 below) alive.2⟩
  | done => exact absurd staged.2 alive.2

theorem staged_exit {i : Nat} {held : Bool} {place : Child} {phase : Phase} (staged : Staged i held place phase)
    (alive : place ≠ .unborn ∧ place ≠ .exited) (closed : held = false) : Staged i held .exited phase := by
  cases phase with
  | creating k =>
    have below : ¬i < k := fun below => by rw [staged.1.mpr below] at closed; cases closed
    exact absurd (staged.2.1.mpr (by omega)) alive.1
  | allocating => rw [staged.1] at closed; cases closed
  | closing k => exact ⟨staged.1,by simp⟩
  | waiting k => exact ⟨staged.1,by simp,fun _ => rfl⟩
  | done => exact ⟨staged.1,rfl⟩

theorem child_cases (stepped : s.child j = some next) :
    (s.children j = .born ∧ next = {s with
      children := update s.children j .reading
      childEnds := update s.childEnds j (update (s.childEnds j) j false)}) ∨
    (s.children j = .reading ∧ ∃ taskid rest, s.pipes j = taskid :: rest ∧
      next = {s with pipes := update s.pipes j rest, read := update s.read j (s.read j ++ [taskid])}) ∨
    (s.children j = .reading ∧ s.pipes j = [] ∧ s.parentEnds j = false ∧
      next = {s with children := update s.children j .exited, childEnds := update s.childEnds j fun _ => false}) := by
  unfold ProcessPool.child at stepped
  cases place : s.children j with
  | unborn => simp [place] at stepped
  | born =>
    simp only [place] at stepped
    exact .inl ⟨rfl,(Option.some.inj stepped).symm⟩
  | reading =>
    simp only [place] at stepped
    cases queue : s.pipes j with
    | nil =>
      rw [queue] at stepped
      obtain ⟨⟨closed,_⟩,equal⟩ := Option.ite_none_right_eq_some.mp stepped
      exact .inr (.inr ⟨rfl,rfl,closed,(Option.some.inj equal).symm⟩)
    | cons taskid rest =>
      rw [queue] at stepped
      exact .inr (.inl ⟨rfl,taskid,rest,rfl,(Option.some.inj stepped).symm⟩)
  | exited => simp [place] at stepped

theorem Sound.begin (sound : Sound s) (born : s.children j = .born) :
    Sound {s with
      children := update s.children j .reading
      childEnds := update s.childEnds j (update (s.childEnds j) j false)} where
  staged := by
    have staged := sound.staged j
    rw [born] at staged
    exact sound.staged_at (staged_alive staged (by simp) (by simp))
  inherited := by
    intro k i held
    change update s.childEnds j (update (s.childEnds j) j false) k i = true at held
    show update s.children j .reading k ≠ .exited ∧ (i < k ∨ i = k ∧ update s.children j .reading k = .born)
    by_cases same : k = j
    · subst same
      rw [Function.update_self] at held ⊢
      by_cases own : i = k
      · rw [own,Function.update_self] at held
        cases held
      · rw [Function.update_of_ne own] at held
        refine ⟨by simp,.inl ?_⟩
        rcases (sound.inherited k i held).2 with below | ⟨equal,_⟩
        · exact below
        · exact absurd equal own
    · rw [Function.update_of_ne same] at held ⊢
      exact sound.inherited k i held
  conserved := sound.conserved
  drained := sound.drained_at fun left => by cases left
  indexed := sound.indexed

theorem Sound.readTask (sound : Sound s) {taskid : Fin taskSize} {rest : List (Fin taskSize)}
    (reading : s.children j = .reading) (queue : s.pipes j = taskid :: rest) :
    Sound {s with pipes := update s.pipes j rest, read := update s.read j (s.read j ++ [taskid])} :=
  {sound with
    conserved := by
      intro k
      show update s.read j (s.read j ++ [taskid]) k ++ update s.pipes j rest k = s.written k
      by_cases same : k = j
      · rw [same,Function.update_self,Function.update_self,← sound.conserved,queue,List.append_assoc]
        rfl
      · rw [Function.update_of_ne same,Function.update_of_ne same]
        exact sound.conserved k
    drained := (Function.forall_update_iff s.pipes fun k pipe => s.children k = .exited → pipe = []).mpr
      ⟨fun left => absurd (reading.symm.trans left) (by simp),fun k _ => sound.drained k⟩}

theorem Sound.leave (sound : Sound s) (reading : s.children j = .reading) (queue : s.pipes j = [])
    (closed : s.parentEnds j = false) :
    Sound {s with children := update s.children j .exited, childEnds := update s.childEnds j fun _ => false} where
  staged := by
    have staged := sound.staged j
    rw [reading] at staged
    exact sound.staged_at (staged_exit staged (by simp) closed)
  inherited := by
    intro k i held
    change update s.childEnds j (fun _ => false) k i = true at held
    show update s.children j .exited k ≠ .exited ∧ (i < k ∨ i = k ∧ update s.children j .exited k = .born)
    by_cases same : k = j
    · rw [same,Function.update_self] at held
      cases held
    · rw [Function.update_of_ne same] at held ⊢
      exact sound.inherited k i held
  conserved := sound.conserved
  drained := sound.drained_at fun _ => queue
  indexed := sound.indexed

theorem Sound.child (sound : Sound s) (stepped : s.child j = some next) : Sound next := by
  rcases child_cases stepped with ⟨born,rfl⟩ | ⟨reading,taskid,rest,queue,rfl⟩ | ⟨reading,queue,closed,rfl⟩
  · exact sound.begin born
  · exact sound.readTask reading queue
  · exact sound.leave reading queue closed

theorem step_sound (sound : Sound s) (stepped : s.step action = some next) : Sound next := by
  cases action with
  | parent => exact sound.parent stepped
  | alloc taskid => exact sound.alloc stepped
  | child j => exact sound.child stepped

theorem run_sound {actions : List (PoolAction n)} (ran : run step {} actions = some next) : Sound next :=
  run_invariant (fun _ _ _ sound stepped => step_sound sound stepped) start_sound ran

theorem Sound.closed (sound : Sound s) (closed : s.phase.Closed) (j : Fin n) :
    s.parentEnds j = false ∧ s.children j ≠ .unborn := by
  have staged := sound.staged j
  cases phase : s.phase with
  | waiting i => rw [phase] at staged; exact ⟨staged.1,staged.2.1⟩
  | done => rw [phase] at staged; exact ⟨staged.1,by rw [staged.2]; decide⟩
  | _ => rw [phase] at closed; exact closed.elim

-- The last child that has not exited: no later one has its pipe's write end any more.
theorem Sound.last_steps (sound : Sound s) (closed : s.phase.Closed) (running : s.children j ≠ .exited)
    (last : ∀ k, j < k → s.children k = .exited) : ∃ next, s.child j = some next := by
  unfold ProcessPool.child
  cases place : s.children j with
  | unborn => exact absurd place (sound.closed closed j).2
  | born => exact ⟨_,rfl⟩
  | reading =>
    cases s.pipes j with
    | cons taskid rest => exact ⟨_,rfl⟩
    | nil =>
      have released : ∀ k, s.childEnds k j = false := by
        intro k
        rw [Bool.eq_false_iff]
        intro held
        obtain ⟨alive,above | ⟨equal,born⟩⟩ := sound.inherited k j held
        · exact alive (last k above)
        · rw [← equal,place] at born
          cases born
      exact ⟨_,if_pos ⟨(sound.closed closed j).1,released⟩⟩
  | exited => exact absurd place running

theorem Sound.some_steps (sound : Sound s) (closed : s.phase.Closed) (running : ∃ j, s.children j ≠ .exited) :
    ∃ j next, s.child j = some next := by
  obtain ⟨first,alive⟩ := running
  obtain ⟨j,found,greatest⟩ := Finset.exists_max_image (Finset.univ.filter fun j => s.children j ≠ .exited) id
    ⟨first,by simpa using alive⟩
  refine ⟨j,sound.last_steps closed (by simpa using found) fun k above => ?_⟩
  by_contra running
  exact absurd (greatest k (by simpa using running)) (Nat.not_le.mpr above)

def cost (s : ProcessPool n) (j : Fin n) : Nat := (s.pipes j).length + (s.children j).turns

def remaining (s : ProcessPool n) : Nat := s.phase.turns n + ∑ j, s.cost j

theorem child_costs (stepped : s.child j = some next) :
    next.phase = s.phase ∧ next.cost j + 1 = s.cost j ∧ ∀ k, k ≠ j → next.cost k = s.cost k := by
  rcases child_cases stepped with ⟨born,rfl⟩ | ⟨reading,taskid,rest,queue,rfl⟩ | ⟨reading,queue,closed,rfl⟩
  · exact ⟨rfl,by simp [cost,born,Child.turns],fun k other => by simp [cost,Function.update_of_ne other]⟩
  · exact ⟨rfl,by simp [cost,reading,queue,Child.turns],fun k other => by simp [cost,Function.update_of_ne other]⟩
  · exact ⟨rfl,by simp [cost,reading,Child.turns],fun k other => by simp [cost,Function.update_of_ne other]⟩

theorem child_spends (stepped : s.child j = some next) : next.phase = s.phase ∧ next.remaining < s.remaining := by
  obtain ⟨phase,own,others⟩ := child_costs stepped
  have changed := Census.sum_change (f := s.cost) (g := next.cost) others
  refine ⟨phase,?_⟩
  unfold remaining
  rw [phase]
  omega

theorem closed_spends (closed : s.phase.Closed) (stepped : s.step action = some next) :
    next.phase.Closed ∧ next.remaining < s.remaining := by
  cases action with
  | parent =>
    simp only [step,ProcessPool.parent] at stepped
    cases phase : s.phase with
    | waiting i =>
      simp only [phase] at stepped
      split at stepped
      · rename_i inside
        obtain ⟨_,equal⟩ := Option.ite_none_right_eq_some.mp stepped
        cases equal
        refine ⟨trivial,Nat.add_lt_add_right ?_ _⟩
        simp only [phase,Phase.turns]
        omega
      · cases stepped
        refine ⟨trivial,Nat.add_lt_add_right ?_ _⟩
        simp only [phase,Phase.turns]
        omega
    | done => simp [phase] at stepped
    | _ => rw [phase] at closed; exact closed.elim
  | alloc taskid =>
    simp only [step,allocTaskOnce] at stepped
    split at stepped
    · rename_i inside
      rw [inside.1] at closed
      exact closed.elim
    · cases stepped
  | child j =>
    obtain ⟨phase,spent⟩ := child_spends stepped
    exact ⟨by rw [phase]; exact closed,spent⟩

theorem Sound.stuck_done (sound : Sound s) (closed : s.phase.Closed) (stuck : ∀ action, s.step action = none) :
    s.phase = .done := by
  have exited : ∀ j, s.children j = .exited := by
    by_contra running
    push Not at running
    obtain ⟨j,next,stepped⟩ := sound.some_steps closed running
    have blocked := stuck (.child j)
    rw [step,stepped] at blocked
    cases blocked
  have blocked := stuck .parent
  simp only [step,ProcessPool.parent] at blocked
  cases phase : s.phase with
  | waiting i =>
    simp only [phase] at blocked
    split at blocked
    · rw [if_pos (exited _)] at blocked
      cases blocked
    · cases blocked
  | done => rfl
  | _ => rw [phase] at closed; exact closed.elim

-- No task is lost. Once the parent has closed, the runs are bounded, and one that
-- cannot go on is one in which the parent has waited for every child.
theorem shutdown_completes (actions : List (PoolAction n)) (ran : run step {} actions = some s) :
    (∀ j, s.read j ++ s.pipes j = s.written j) ∧ (∀ j, s.children j = .exited → s.read j = s.written j) ∧
    (s.phase.Closed → (∃ j, s.children j ≠ .exited) → ∃ j next, s.step (.child j) = some next) ∧
    (s.phase.Closed → ∀ more next, run step s more = some next → more.length ≤ s.remaining ∧
      ((∀ action, next.step action = none) → next.phase = .done ∧ ∀ j, next.children j = .exited)) := by
  have sound := run_sound ran
  refine ⟨sound.conserved,?_,sound.some_steps,?_⟩
  · intro j left
    have conserved := sound.conserved j
    rw [sound.drained j left,List.append_nil] at conserved
    exact conserved
  · intro closed more next later
    have sound' : Sound next := run_invariant (fun _ _ _ sound stepped => step_sound sound stepped) sound later
    have costs (s : ProcessPool n) (action : PoolAction n) (next : ProcessPool n) (closed : s.phase.Closed)
        (stepped : s.step action = some next) : next.phase.Closed ∧ next.remaining < s.remaining :=
      closed_spends closed stepped
    obtain ⟨closed',bound⟩ := run_bounded costs closed later
    refine ⟨by omega,fun stuck => ?_⟩
    have done := sound'.stuck_done closed' stuck
    refine ⟨done,fun j => ?_⟩
    have staged := sound'.staged j
    rw [done] at staged
    exact staged.2

theorem shutdown_completes_two : ∃ s : ProcessPool 2, run step {}
      (List.replicate 3 .parent ++ .alloc ⟨2,Nat.lt_succ_self 2⟩ :: List.replicate 4 .parent) = some s ∧
    s.phase = .waiting 0 ∧ (∀ j, s.read j ++ s.pipes j = s.written j) ∧
    (∀ j, s.children j = .exited → s.read j = s.written j) ∧ (∃ j next, s.step (.child j) = some next) ∧
    ∀ more next, run step s more = some next → more.length ≤ s.remaining ∧
      ((∀ action, next.step action = none) → next.phase = .done ∧ ∀ j, next.children j = .exited) := by
  have ends : (run step ({} : ProcessPool 2) (List.replicate 3 .parent ++
      .alloc ⟨2,Nat.lt_succ_self 2⟩ :: List.replicate 4 .parent)).map
        (fun s => (s.phase,s.children ⟨0,Nat.zero_lt_two⟩)) = some (.waiting 0,.born) := by decide
  obtain ⟨s,ran,looks⟩ := Option.map_eq_some_iff.mp ends
  simp only [Prod.mk.injEq] at looks
  obtain ⟨waiting,born⟩ := looks
  have closed : s.phase.Closed := by rw [waiting]; trivial
  obtain ⟨conserved,whole,steps,bounded⟩ := shutdown_completes _ ran
  exact ⟨s,ran,waiting,conserved,whole,steps closed ⟨_,by rw [born]; nofun⟩,bounded closed⟩

end ProcessPool
end LinuxOS.Processes
