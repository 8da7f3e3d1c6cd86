import LinuxOS.Blocks.Returns

namespace LinuxOS.Blocks
open Function (update)
open Links Pages Places
variable {d : Design} {Good : PageCache → Set Nat → Prop} {Ready : PageCache → Set Nat → Nat → Prop}
variable {Quiet : Span → Prop} {Admits : Nat → Prop}
variable {s next : Heap} {v w : View} {h t : Nat} {action : Action} {actions : List Action}

def Pc.gives : Pc → Option Nat
  | .releasing _ h _ => some h
  | .dropping h => some h
  | _ => none

namespace Heap

-- Which requests are made, and what the state is in which a span is given back.
def Guard (Ready : PageCache → Set Nat → Nat → Prop) (Admits : Nat → Prop) (s : Heap) : Action → Prop
  | .alloc _ size _ => Admits size
  | .free _ _ => True
  | .next t _ => ∀ h, (s.pcs t).gives = some h → Ready s.cache {k | k ∈ s.handed} h

theorem Sound.alloc (laws : Laws d Good Ready Quiet Admits) (sound : Sound d Good Quiet s v) (admitted : Admits size)
    (stepped : s.step d (.alloc t size page) = some next) : ∃ w, Sound d Good Quiet next w := by
  simp only [Heap.step] at stepped
  split at stepped
  · rename_i idle
    split at stepped
    · rename_i large
      exact sound.allocateLarge laws idle large admitted stepped
    · rename_i small
      have flagged := sound.flags (update s.started t true) s.locks
      exact flagged.allocate laws idle (Bool.eq_false_of_not_eq_true small) admitted stepped
  · cases stepped

theorem Sound.freed (laws : Laws d Good Ready Quiet Admits) (sound : Sound d Good Quiet s v)
    (stepped : s.step d (.free t ptr) = some next) : ∃ w, Sound d Good Quiet next w := by
  simp only [Heap.step] at stepped
  split at stepped
  · rename_i idle
    obtain ⟨user,stepped⟩ := Option.ite_none_right_eq_some.mp stepped
    obtain ⟨h,found,equal⟩ := Option.map_eq_some_iff.mp stepped
    cases equal
    exact sound.free laws idle user found
  · cases stepped

theorem Sound.lock (sound : Sound d Good Quiet s v) (returning : s.pcs t = .returning i cur)
    (locks : Nat → Option Nat) : Sound d Good Quiet (({s with locks} : Heap).setPc t (.putting i cur)) v := by
  have flagged := sound.flags s.started locks
  have moving := sound.linked (.moving t)
  rw [Linked,returning] at moving
  apply flagged.relabel
  · exact moving
  · intro _ _ j at'
    rw [show ({s with locks} : Heap).pcs t = .returning i cur from returning]; exact at'
  · exact (congrArg Pc.worksOn returning).symm
  · rw [Knows,setPc_same]; trivial

theorem Sound.unlock (sound : Sound d Good Quiet s v) (putting : s.pcs t = .putting i none)
    (locks : Nat → Option Nat) : Sound d Good Quiet (({s with locks} : Heap).setPc t .idle) v := by
  have flagged := sound.flags s.started locks
  have moving := sound.linked (.moving t)
  rw [Linked,putting] at moving
  have nothing : v.kept (.moving t) = [] := by
    cases kept : v.kept (.moving t) with
    | nil => rfl
    | cons a rest =>
      rw [kept] at moving
      cases moving.1
  apply flagged.relabel
  · exact nothing
  · intro a found
    rw [nothing] at found; cases found
  · exact (congrArg Pc.worksOn putting).symm
  · rw [Knows,setPc_same]; trivial

theorem Sound.advance (laws : Laws d Good Ready Quiet Admits) (sound : Sound d Good Quiet s v)
    (ready : ∀ h, (s.pcs t).gives = some h → Ready s.cache {k | k ∈ s.handed} h)
    (stepped : s.advance d t page (s.pcs t) = some next) : ∃ w, Sound d Good Quiet next w := by
  have known := sound.knows t
  have moving := sound.linked (.moving t)
  unfold Knows at known
  rw [Linked] at moving
  cases at' : s.pcs t with
  | idle => rw [at'] at stepped; cases stepped
  | fetching size num => rw [at'] at stepped; exact sound.fetchRange laws at' stepped
  | lacking size num => rw [at'] at stepped; exact sound.fetchSpan laws at' stepped
  | fresh size num h => rw [at'] at stepped; exact sound.settleSpan laws at' stepped
  | settled size num h =>
    rw [at'] at stepped
    cases stepped
    exact sound.carveSpan laws at'
  | carved size num h => rw [at'] at stepped; exact sound.listSpan laws at' stepped
  | received size start stop count => rw [at'] at stepped; exact sound.receive at' stepped
  | freeing ptr h =>
    rw [at'] at stepped
    simp only [Heap.advance] at stepped
    cases large : d.large (s.spanAt h).objSize with
    | true =>
      rw [Heap.deallocate,large,if_pos rfl] at stepped
      cases stepped
      exact sound.drop laws at' large
    | false => exact sound.deallocate laws at' large stepped
  | returning i cur =>
    rw [at'] at stepped
    simp only [Heap.advance] at stepped
    obtain ⟨_,equal⟩ := Option.ite_none_right_eq_some.mp stepped
    cases equal
    exact ⟨v,sound.lock at' _⟩
  | putting i cur =>
    rw [at'] at stepped
    cases cur with
    | none =>
      cases stepped
      exact ⟨v,sound.unlock at' _⟩
    | some cur => exact sound.putBack laws at' stepped
  | releasing i h after =>
    simp only [at'] at known
    rw [at'] at stepped moving ready
    obtain ⟨handed,stage,quiet⟩ := known
    have holds : Pc.Holds s.mem (.returning i after) (v.kept (.moving t)) := moving
    refine sound.releaseSpan laws handed (stage.imp_right And.left) (congrArg Pc.worksOn at') quiet (ready h rfl) holds
      (fun j same => ?_) ?_ stepped
    · rw [at']; exact same
    · intro next w same
      rw [Knows,same]; trivial
  | dropping h =>
    simp only [at'] at known
    rw [at'] at stepped moving ready
    obtain ⟨handed,stage,_,quiet⟩ := known
    have holds : Pc.Holds s.mem .idle (v.kept (.moving t)) := moving
    refine sound.releaseSpan laws handed (.inr stage) (congrArg Pc.worksOn at') quiet (ready h rfl) holds
      (fun j same => by cases same) ?_ stepped
    intro next w same
    rw [Knows,same]; trivial

theorem Sound.released (sound : Sound d Good Quiet s v) (gives : (s.pcs t).gives = some h)
    (stepped : s.step d (.next t page) = some next) : h ∈ s.handed ∧ ∃ cache, d.release s.cache h = some cache ∧
      next.cache = cache ∧ next.handed = s.handed.erase h := by
  have known := sound.knows t
  unfold Knows at known
  cases at' : s.pcs t with
  | releasing i k after =>
    rw [Heap.step,at'] at stepped
    rw [at'] at gives
    simp only [at'] at known
    cases gives
    obtain ⟨cache,released,equal⟩ := Option.bind_eq_some_iff.mp stepped
    cases equal
    exact ⟨known.1,cache,released,rfl,rfl⟩
  | dropping k =>
    rw [Heap.step,at'] at stepped
    rw [at'] at gives
    simp only [at'] at known
    cases gives
    obtain ⟨cache,released,equal⟩ := Option.bind_eq_some_iff.mp stepped
    cases equal
    exact ⟨known.1,cache,released,rfl,rfl⟩
  | _ =>
    rw [at'] at gives
    cases gives

theorem Sound.step (laws : Laws d Good Ready Quiet Admits) (sound : Sound d Good Quiet s v)
    (guarded : Guard Ready Admits s action) (stepped : s.step d action = some next) : ∃ w, Sound d Good Quiet next w := by
  cases action with
  | alloc t size page => exact sound.alloc laws guarded stepped
  | free t ptr => exact sound.freed laws stepped
  | next t page => exact sound.advance laws guarded stepped

theorem run_sound (laws : Laws d Good Ready Quiet Admits)
    (admitted : Machine.Throughout (Heap.step d) (Guard Ready Admits) {} actions)
    (ran : Machine.run (Heap.step d) {} actions = some s) : ∃ v, Sound d Good Quiet s v := by
  apply Machine.run_keeps _ ⟨_,sound_start laws⟩ admitted ran
  rintro s action next ⟨v,sound⟩ guarded stepped
  exact sound.step laws guarded stepped

end Heap
end LinuxOS.Blocks
