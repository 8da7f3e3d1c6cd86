import Mathlib.Logic.Basic

namespace LinuxOS.Exceptions
variable {E S V A B : Type} {e : E} {s t : S} {a : A} {b : B} {view : S → V} {x : EStateM E S A} {g : A → EStateM E S B}
  {f : V → Option (V × A)} {h : A → V → Option (V × B)}

def final : EStateM.Result E S A → S
  | .ok _ s => s
  | .error _ s => s

def Leaves (view : S → V) (x : EStateM E S A) : Prop := ∀ s, view (final (x s)) = view s

def Never (e : E) (x : EStateM E S A) : Prop := ∀ s t, x s ≠ .error e t

def Follows (view : S → V) (x : EStateM E S A) (f : V → Option (V × A)) : Prop :=
  ∀ s a t, x s = .ok a t → f (view s) = some (view t,a)

-- A destructor: it runs whether `x` returns or throws.
def cleaned (cleanup : S → S) (x : EStateM E S A) : EStateM E S A := fun s =>
  match x s with
  | .ok a t => .ok a (cleanup t)
  | .error e t => .error e (cleanup t)

theorem bind_apply (x : EStateM E S A) (g : A → EStateM E S B) (s : S) : (x >>= g) s =
    match x s with
    | .ok a t => g a t
    | .error e t => .error e t := rfl

theorem bind_ok : (x >>= g) s = .ok b t ↔ ∃ a middle, x s = .ok a middle ∧ g a middle = .ok b t := by
  rw [bind_apply]
  constructor
  · intro ran
    cases first : x s with
    | ok a middle =>
      rw [first] at ran
      exact ⟨a,middle,rfl,ran⟩
    | error e middle =>
      rw [first] at ran
      cases ran
  · rintro ⟨a,middle,first,second⟩
    rw [first]
    exact second

theorem bind_error : (x >>= g) s = .error e t ↔
    x s = .error e t ∨ ∃ a middle, x s = .ok a middle ∧ g a middle = .error e t := by
  rw [bind_apply]
  constructor
  · intro thrown
    cases first : x s with
    | ok a middle =>
      rw [first] at thrown
      exact .inr ⟨a,middle,rfl,thrown⟩
    | error e middle =>
      rw [first] at thrown
      cases thrown
      exact .inl rfl
  · rintro (early | ⟨a,middle,first,second⟩)
    · rw [early]
    · rw [first]
      exact second

theorem cleaned_error {cleanup : S → S} : cleaned cleanup x s = .error e t ↔ ∃ middle, x s = .error e middle ∧ t = cleanup middle := by
  rw [cleaned]
  cases x s with
  | ok a middle => simp
  | error e middle => simp [and_comm,eq_comm]

theorem leaves_pure (view : S → V) (a : A) : Leaves view (pure a : EStateM E S A) := fun _ => rfl

theorem leaves_get (view : S → V) : Leaves view (get : EStateM E S S) := fun _ => rfl

theorem Leaves.bind (first : Leaves view x) (second : ∀ a, Leaves view (g a)) : Leaves view (x >>= g) := by
  intro s
  have kept := first s
  rw [bind_apply]
  cases ran : x s with
  | ok a t =>
    rw [ran] at kept
    exact (second a t).trans kept
  | error e t =>
    rw [ran] at kept
    exact kept

theorem Leaves.ite {c : Prop} [Decidable c] {y : EStateM E S A} (yes : Leaves view x) (no : Leaves view y) :
    Leaves view (if c then x else y) := by
  split
  · exact yes
  · exact no

theorem Leaves.ok (leaves : Leaves view x) (ran : x s = .ok a t) : view t = view s := by
  have kept := leaves s
  rwa [ran] at kept

theorem Leaves.error (leaves : Leaves view x) (ran : x s = .error e t) : view t = view s := by
  have kept := leaves s
  rwa [ran] at kept

theorem never_pure (e : E) (a : A) : Never e (pure a : EStateM E S A) := fun _ _ thrown => by cases thrown

theorem Never.bind (first : Never e x) (second : ∀ a, Never e (g a)) : Never e (x >>= g) := by
  intro s t thrown
  rcases bind_error.mp thrown with early | ⟨a,middle,_,late⟩
  · exact first s t early
  · exact second a middle t late

theorem Never.past (never : Never e x) (thrown : (x >>= g) s = .error e t) :
    ∃ a middle, x s = .ok a middle ∧ g a middle = .error e t :=
  (bind_error.mp thrown).resolve_left (never s t)

theorem follows_pure (view : S → V) (a : A) : Follows view (pure a : EStateM E S A) fun v => some (v,a) :=
  fun _ _ _ ran => by cases ran; rfl

theorem Follows.bind (first : Follows view x f) (second : ∀ a, Follows view (g a) (h a)) :
    Follows view (x >>= g) fun v => (f v).bind fun (v,a) => h a v := by
  intro s b t ran
  obtain ⟨a,middle,early,late⟩ := bind_ok.mp ran
  simp only [first s a middle early,Option.bind_some]
  exact second a middle b t late

theorem Follows.congr {f' : V → Option (V × A)} (follows : Follows view x f) (same : ∀ v, f v = f' v) :
    Follows view x f' :=
  fun s a t ran => (same (view s)).symm.trans (follows s a t ran)

theorem Leaves.then_follows {f : V → Option (V × B)} (leaves : Leaves view x) (rest : ∀ a, Follows view (g a) f) :
    Follows view (x >>= g) f := by
  intro s b t ran
  obtain ⟨a,middle,early,late⟩ := bind_ok.mp ran
  rw [← leaves.ok early]
  exact rest a middle b t late

end LinuxOS.Exceptions
