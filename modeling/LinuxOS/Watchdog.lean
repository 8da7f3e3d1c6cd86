import Mathlib.Logic.Function.Basic

namespace LinuxOS
open Function (update)

-- A member that is enabled is released in the tick by which it has been quiet
-- for its timeout. Enabling it again only counts as activity.
structure Watched where
  enabled : Bool := false
  released : Bool := false
  timeout : Nat := 0
  activity : Nat := 0
  deriving DecidableEq, Repr

namespace Watched

def deadline (m : Watched) : Nat := m.activity + m.timeout

def active (m : Watched) (now : Nat) : Watched := if m.enabled then {m with activity := now} else m

def enable (m : Watched) (now timeout : Nat) : Watched :=
  if m.enabled then {m with activity := now} else {m with enabled := true, timeout := timeout, activity := now}

def disable (m : Watched) : Watched := {m with enabled := false}

def release (m : Watched) : Watched := {m with enabled := false, released := true}

def expire (m : Watched) (now : Nat) : Watched := if m.enabled = true ∧ m.deadline ≤ now then m.release else m

def Ahead (m : Watched) (now : Nat) : Prop :=
  m.enabled = true → m.released = false ∧ m.activity ≤ now ∧ now < m.deadline

variable {m : Watched} {now timeout : Nat}

theorem Ahead.touch (ahead : m.Ahead now) : Ahead {m with activity := now} now := by
  intro enabled
  obtain ⟨there,past,later⟩ := ahead enabled
  unfold deadline at later ⊢
  exact ⟨there,Nat.le_refl now,by simp only; omega⟩

theorem Ahead.active (ahead : m.Ahead now) : (m.active now).Ahead now := by
  unfold Watched.active
  split
  · exact ahead.touch
  · exact ahead

theorem Ahead.enable (ahead : m.Ahead now) (there : m.released = false) (positive : m.enabled = false → 1 ≤ timeout) :
    (m.enable now timeout).Ahead now := by
  unfold Watched.enable
  split
  · exact ahead.touch
  · rename_i off
    have positive := positive (by simpa using off)
    refine fun _ => ⟨there,Nat.le_refl now,?_⟩
    unfold deadline
    exact Nat.lt_add_of_pos_right positive

theorem Ahead.disable : m.disable.Ahead now := nofun

theorem Ahead.release : m.release.Ahead now := nofun

theorem Ahead.expire (ahead : m.Ahead now) : (m.expire (now+1)).Ahead (now+1) := by
  unfold Watched.expire
  split
  · exact Ahead.release
  · rename_i waiting
    intro enabled
    obtain ⟨there,past,_⟩ := ahead enabled
    exact ⟨there,Nat.le_succ_of_le past,Nat.lt_of_not_le fun late => waiting ⟨enabled,late⟩⟩

end Watched

structure Watchdog (Id : Type*) where
  now : Nat := 0
  members : Id → Option Watched := fun _ => none

namespace Watchdog
variable {Id : Type*} {d : Watchdog Id}

def turn (d : Watchdog Id) : Watchdog Id :=
  {now := d.now+1, members := fun id => (d.members id).map (·.expire (d.now+1))}

def pass : Nat → Watchdog Id → Watchdog Id
  | 0,d => d
  | ticks+1,d => pass ticks d.turn

def Ahead (d : Watchdog Id) : Prop := ∀ id m, d.members id = some m → m.Ahead d.now

theorem Ahead.turn (ahead : d.Ahead) : d.turn.Ahead := by
  intro id m found
  obtain ⟨old,member,rfl⟩ := Option.map_eq_some_iff.mp found
  exact (ahead id old member).expire

variable [DecidableEq Id]

def join (d : Watchdog Id) (id : Id) : Watchdog Id := {d with members := update d.members id (some {})}

def change (d : Watchdog Id) (id : Id) (f : Watched → Watched) : Watchdog Id :=
  {d with members := update d.members id ((d.members id).map f)}

theorem Ahead.join (ahead : d.Ahead) (id : Id) : (d.join id).Ahead := by
  intro other m found
  by_cases same : other = id
  · subst other
    simp only [Watchdog.join,Function.update_self,Option.some.injEq] at found
    subst m
    nofun
  · exact ahead other m (by simpa [Watchdog.join,same] using found)

theorem Ahead.change (ahead : d.Ahead) (id : Id) (f : Watched → Watched)
    (kept : ∀ m, d.members id = some m → (f m).Ahead d.now) : (d.change id f).Ahead := by
  intro other m found
  by_cases same : other = id
  · subst other
    simp only [Watchdog.change,Function.update_self,Option.map_eq_some_iff] at found
    obtain ⟨old,member,rfl⟩ := found
    exact kept old member
  · exact ahead other m (by simpa [Watchdog.change,same] using found)

end Watchdog
end LinuxOS
