import LinuxOS.Blocks.Tiling

namespace LinuxOS.Blocks
open Function (update)
open Links Pages Places
variable {d : Design} {Good : PageCache → Set Nat → Prop} {Ready : PageCache → Set Nat → Nat → Prop}
variable {Quiet : Span → Prop} {Admits : Nat → Prop}
variable {s next : Heap} {v w : View} {a h t u i n size num page ptr : Nat} {cells : List Nat} {action : Action}
variable {actions : List Action}

-- The sections that a call still has before it, where `count` blocks are in its hands
-- and its lists have at most `cap` as `_max_size`: at most one for every block that is
-- given back and two more for a span that goes back with it.
def Pc.left (count cap : Nat) : Pc → Nat
  | .idle => 0
  | .fetching _ _ => 6
  | .lacking _ _ => 5
  | .fresh _ _ _ => 4
  | .settled _ _ _ => 3
  | .carved _ _ _ => 2
  | .received _ _ _ _ => 1
  | .freeing _ _ => 3 * cap + 3
  | .returning _ _ => 3 * count + 2
  | .putting _ _ => 3 * count + 1
  | .releasing _ _ _ => 3 * count + 3
  | .dropping _ => 1

namespace Heap

def Left (s : Heap) (t n : Nat) : Prop := ∃ cells cap, (s.pcs t).Holds s.mem cells ∧ s.Capped t cap ∧
  n = (s.pcs t).left cells.length cap

theorem Left.other (laws : Laws d Good Ready Quiet Admits) (sound : Sound d Good Quiet s v)
    (stepped : s.step d action = some next) (other : t ≠ action.thread) (left : s.Left t n) : next.Left t n := by
  obtain ⟨cells,cap,holds,capped,rfl⟩ := left
  have own := step_section stepped
  have kept := Holds.unique (sound.linked (.moving t)) holds
  refine ⟨cells,cap,?_,fun i => by rw [own.lists t other]; exact capped i,by rw [own.pcs t other]⟩
  rw [own.pcs t other]
  refine Holds.agree holds fun a member => ?_
  by_contra written
  rw [← kept] at member
  rcases step_writes laws sound stepped a written with ⟨c,opens,found⟩ | ⟨size,num,h,settled,block⟩
  · cases sound.apart.only c (.moving t) a found member
    exact other opens
  · have known := sound.knows action.thread
    simp only [Knows,settled] at known
    obtain ⟨⟨i,sort⟩,handed,stage,objSize,_⟩ := known
    have sized : d.large (s.spanAt h).objSize = false ∧ 1 ≤ (s.spanAt h).objSize := by
      rw [objSize]; exact ⟨sort.small,sort.positive⟩
    have inside := blocks_inside (.inr sized) (sound.positive h handed) block
    exact sound.unplaced laws handed (making_hidden stage) inside member

theorem Left.reach {pc : Pc} {cap k : Nat} (later : Sound d Good Quiet next w) (capped : next.Capped t cap)
    (at' : next.pcs t = pc) (flat : ∀ count, pc.left count cap = k) (fewer : k < n) : ∃ m < n, next.Left t m :=
  ⟨k,fewer,w.kept (.moving t),cap,later.linked (.moving t),capped,by rw [at',flat]⟩

theorem takeRange_at {span : Nat} (ran : s.takeRange t size num span = some next) :
    ∃ start stop count, next.pcs t = .received size start stop count := by
  obtain ⟨start,_,ran⟩ := Option.bind_eq_some_iff.mp ran
  cases ran
  exact ⟨_,_,_,setPc_same⟩

theorem Left.freed {cap : Nat} (laws : Laws d Good Ready Quiet Admits) (sound : Sound d Good Quiet s v)
    (later : Sound d Good Quiet next w) (freeing : s.pcs t = .freeing ptr h) (capped : s.Capped t cap)
    (capped' : next.Capped t (cap+1)) (ran : s.deallocate d t h ptr = some next) :
    ∃ m < 3 * cap + 3, next.Left t m := by
  have moving := sound.linked (.moving t)
  rw [Linked,freeing] at moving
  have moving : v.kept (.moving t) = [ptr] := moving
  unfold deallocate at ran
  dsimp only at ran
  split at ran
  · cases ran
    exact Left.reach (k := 1) later capped' setPc_same (fun _ => rfl) (by omega)
  · obtain ⟨_,ran⟩ := Option.ite_none_right_eq_some.mp ran
    obtain ⟨size,_,ran⟩ := Option.bind_eq_some_iff.mp ran
    obtain ⟨i,_,ran⟩ := Option.bind_eq_some_iff.mp ran
    split at ran
    · rename_i long
      obtain ⟨stop,reached,ran⟩ := Option.bind_eq_some_iff.mp ran
      cases ran
      obtain ⟨chain,length,some'⟩ := sound.linked (.cached t i)
      have absent : ptr ∉ v.kept (.cached t i) := fun found => by
        cases sound.apart.only (.cached t i) (.moving t) ptr found (by rw [moving]; exact .head _)
      have pushed := chain.push absent
      have enough := laws.tooLong long
      have room : (s.lists t i).maxSize - 1 < (ptr :: v.kept (.cached t i)).length := by
        rw [List.length_cons]
        dsimp only at enough
        omega
      obtain ⟨front,rest,last,split,reached',final,long'⟩ := stride_spec pushed room
      cases reached.symm.trans reached'
      rw [split] at pushed
      have distinct : (front ++ rest).Nodup := by
        rw [← split,List.nodup_cons]
        exact ⟨absent,sound.apart.nodup (.cached t i)⟩
      have cut := (pushed.cut final distinct).1
      have most := capped i
      refine ⟨3 * front.length + 2,by omega,front,cap+1,?_,capped',?_⟩
      · rw [setPc_same]; exact cut
      · rw [setPc_same]; rfl
    · cases ran
      exact Left.reach (k := 0) later capped' setPc_same (fun _ => rfl) (by omega)

theorem Left.put {cur cap : Nat} (sound : Sound d Good Quiet s v) (putting : s.pcs t = .putting i (some cur))
    (chain : Chain s.mem (some cur) cells) (capped' : next.Capped t cap) (ran : s.putBack d t i cur = some next) :
    ∃ m < 3 * cells.length + 1, next.Left t m := by
  have moving := sound.linked (.moving t)
  rw [Linked,putting] at moving
  have kept : v.kept (.moving t) = cells := Chain.unique moving chain
  obtain ⟨rest,rfl⟩ := chain.nonempty
  have distinct := sound.apart.nodup (.moving t)
  rw [kept,List.nodup_cons] at distinct
  have back : ∀ link, Chain (update s.mem cur link) (s.mem cur) rest := fun link =>
    chain.2.agree fun b member => Function.update_of_ne (ne_of_mem_of_not_mem member distinct.1) ..
  obtain ⟨h,_,ran⟩ := Option.bind_eq_some_iff.mp ran
  dsimp only at ran
  split at ran
  · cases ran
    refine ⟨3 * rest.length + 3,by rw [List.length_cons]; omega,rest,cap,?_,capped',?_⟩
    · rw [setPc_same]; exact back _
    · rw [setPc_same]; rfl
  · cases ran
    refine ⟨3 * rest.length + 1,by rw [List.length_cons]; omega,rest,cap,?_,capped',?_⟩
    · rw [setPc_same]; exact back _
    · rw [setPc_same]; rfl

-- Every section of its own brings a call nearer to its end.
theorem Left.own (laws : Laws d Good Ready Quiet Admits) (sound : Sound d Good Quiet s v)
    (later : Sound d Good Quiet next w) (stepped : s.step d (.next t page) = some next) (left : s.Left t n) :
    ∃ m < n, next.Left t m := by
  obtain ⟨cells,cap,holds,capped,rfl⟩ := left
  have capped' : next.Capped t (cap+1) := capped.step stepped
  rw [Heap.step] at stepped
  cases at' : s.pcs t with
  | idle => rw [at'] at stepped; cases stepped
  | fetching size num =>
    rw [at'] at stepped
    obtain ⟨i,_,ran⟩ := Option.bind_eq_some_iff.mp stepped
    obtain ⟨_,ran⟩ := Option.ite_none_right_eq_some.mp ran
    split at ran
    · obtain ⟨_,_,_,received⟩ := takeRange_at ran
      exact Left.reach later capped' received (fun _ => rfl) (show 1 < 6 by decide)
    · cases ran
      exact Left.reach later capped' setPc_same (fun _ => rfl) (show 5 < 6 by decide)
  | lacking size num =>
    rw [at'] at stepped
    obtain ⟨_,_,ran⟩ := Option.bind_eq_some_iff.mp stepped
    obtain ⟨_,ran⟩ := Option.ite_none_right_eq_some.mp ran
    obtain ⟨_,_,ran⟩ := Option.bind_eq_some_iff.mp ran
    cases ran
    exact Left.reach later capped' setPc_same (fun _ => rfl) (show 4 < 5 by decide)
  | fresh size num h =>
    rw [at'] at stepped
    obtain ⟨_,_,ran⟩ := Option.bind_eq_some_iff.mp stepped
    cases ran
    exact Left.reach later capped' setPc_same (fun _ => rfl) (show 3 < 4 by decide)
  | settled size num h =>
    rw [at'] at stepped
    cases stepped
    exact Left.reach later capped' setPc_same (fun _ => rfl) (show 2 < 3 by decide)
  | carved size num h =>
    rw [at'] at stepped
    obtain ⟨i,_,ran⟩ := Option.bind_eq_some_iff.mp stepped
    obtain ⟨_,ran⟩ := Option.ite_none_right_eq_some.mp ran
    obtain ⟨_,_,_,received⟩ := takeRange_at ran
    exact Left.reach later capped' received (fun _ => rfl) (show 1 < 2 by decide)
  | received size start stop count =>
    rw [at'] at stepped
    obtain ⟨i,_,ran⟩ := Option.bind_eq_some_iff.mp stepped
    cases ran
    exact Left.reach later capped' setPc_same (fun _ => rfl) (show 0 < 1 by decide)
  | freeing ptr h =>
    rw [at'] at stepped
    exact Left.freed laws sound later at' capped capped' stepped
  | returning i cur =>
    rw [at'] at stepped holds
    simp only [advance] at stepped
    obtain ⟨_,equal⟩ := Option.ite_none_right_eq_some.mp stepped
    cases equal
    refine ⟨3 * cells.length + 1,Nat.lt_succ_self _,cells,cap+1,?_,capped',?_⟩
    · rw [setPc_same]; exact holds
    · rw [setPc_same]; rfl
  | putting i cur =>
    rw [at'] at stepped holds
    cases cur with
    | none =>
      cases stepped
      exact Left.reach later capped' setPc_same (fun _ => rfl) (Nat.zero_lt_succ _)
    | some cur => exact Left.put sound at' holds capped' stepped
  | releasing i h after =>
    rw [at'] at stepped holds
    obtain ⟨cache,_,ran⟩ := Option.bind_eq_some_iff.mp stepped
    cases ran
    refine ⟨3 * cells.length + 2,Nat.lt_succ_self _,cells,cap+1,?_,capped',?_⟩
    · rw [setPc_same]; exact holds
    · rw [setPc_same]; rfl
  | dropping h =>
    rw [at'] at stepped
    obtain ⟨_,_,ran⟩ := Option.bind_eq_some_iff.mp stepped
    cases ran
    exact Left.reach later capped' setPc_same (fun _ => rfl) (show 0 < 1 by decide)

-- In a run where the thread begins no other call it takes no more sections than are left.
theorem Left.run (laws : Laws d Good Ready Quiet Admits) (sound : Sound d Good Quiet s v) (left : s.Left t n)
    (same : ∀ action ∈ actions, action.thread = t → ∃ page, action = .next t page)
    (admitted : Machine.Throughout (Heap.step d) (Guard Ready Admits) s actions)
    (ran : Machine.run (Heap.step d) s actions = some next) : actions.countP (·.thread = t) ≤ n := by
  induction actions generalizing s v n with
  | nil => exact Nat.zero_le n
  | cons action rest ih =>
    obtain ⟨middle,stepped,rest'⟩ := Option.bind_eq_some_iff.mp ran
    simp only [Machine.Throughout,stepped] at admitted
    obtain ⟨guarded,admitted⟩ := admitted
    obtain ⟨w,later⟩ := sound.step laws guarded stepped
    have same' : ∀ action ∈ rest, action.thread = t → ∃ page, action = .next t page := fun action found =>
      same action (List.mem_cons_of_mem _ found)
    by_cases mine : action.thread = t
    · obtain ⟨page,rfl⟩ := same action List.mem_cons_self mine
      obtain ⟨m,fewer,left⟩ := left.own laws sound later stepped
      rw [List.countP_cons_of_pos (by exact decide_eq_true mine)]
      have bound := ih later left same' admitted rest'
      omega
    · rw [List.countP_cons_of_neg (by rwa [decide_eq_true_eq])]
      exact ih later (left.other laws sound stepped fun equal => mine equal.symm) same' admitted rest'

theorem Left.alloc (making : (s.pcs t).makes = some size) (left : s.Left t n) : n ≤ 6 := by
  obtain ⟨cells,cap,_,_,rfl⟩ := left
  cases at' : s.pcs t with
  | fetching | lacking | fresh | settled | carved | received => exact Nat.le_of_ble_eq_true rfl
  | _ =>
    rw [at'] at making
    cases making

theorem run_capped (ran : Machine.run (Heap.step d) {} actions = some s) : Locked s ∧ ∀ t, ∃ cap, s.Capped t cap := by
  refine Machine.run_invariant (motive := fun s => Locked s ∧ ∀ t, ∃ cap, s.Capped t cap) ?_ ?_ ran
  · rintro s action next ⟨locked,capped⟩ stepped
    refine ⟨locked.step stepped,fun t => ?_⟩
    obtain ⟨cap,capped⟩ := capped t
    exact ⟨cap+1,capped.step stepped⟩
  · exact ⟨locked_start,fun t => ⟨1,fun _ => Nat.le_refl 1⟩⟩

theorem run_left (laws : Laws d Good Ready Quiet Admits)
    (admitted : Machine.Throughout (Heap.step d) (Guard Ready Admits) {} actions)
    (ran : Machine.run (Heap.step d) {} actions = some s) (t : Nat) :
    ∃ n, (∀ size, (s.pcs t).makes = some size → n ≤ 6) ∧ ∀ later next,
      Machine.Throughout (Heap.step d) (Guard Ready Admits) s later →
        (∀ action ∈ later, action.thread = t → ∃ page, action = .next t page) →
          Machine.run (Heap.step d) s later = some next → later.countP (·.thread = t) ≤ n := by
  obtain ⟨v,sound⟩ := run_sound laws admitted ran
  obtain ⟨cap,capped⟩ := (run_capped ran).2 t
  have left : s.Left t ((s.pcs t).left (v.kept (.moving t)).length cap) := ⟨_,cap,sound.linked (.moving t),capped,rfl⟩
  exact ⟨_,fun size making => left.alloc making,fun later next admitted same ran => left.run laws sound same admitted ran⟩

end Heap
end LinuxOS.Blocks
