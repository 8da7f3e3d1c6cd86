import LinuxOS.Muduo.TimerClock

namespace LinuxOS.Muduo

namespace TimerWheel
open Function (update)
variable {w : TimerWheel} {id slot key : Nat}

-- Without RemoveTimerTask no task is cancelled, and a task in some slot is the
-- one that the record has for its id. A callback may remove its own id.
structure Steady (w : TimerWheel) : Prop where
  sized : 0 < w.capacity
  idle : ∀ key, (w.tasks key).cancel = false
  within : ∀ slot key, key ∈ w.wheels slot → slot < w.capacity ∧ key < w.next
  owner : ∀ slot key, key ∈ w.wheels slot → w.timersRecord (w.tasks key).id = some key
  known : ∀ id key, w.timersRecord id = some key → key < w.next ∧ (w.tasks key).id = id
  own : ∀ key < w.next, ∀ call ∈ (w.tasks key).timerFunc, call = (w.tasks key).id

theorem start_steady : Steady {} := by
  constructor <;> simp

def Op.Quiet : Op → Prop
  | .setTimerTask id _ timerFunc => ∀ call ∈ timerFunc, call = id
  | .removeTimerTask _ => False
  | _ => True

instance (op : Op) : Decidable op.Quiet :=
  match op with
  | .setTimerTask id _ timerFunc => List.decidableBAll (fun call => call = id) timerFunc
  | .removeTimerTask _ => .isFalse not_false
  | .refreshTimerTask _ | .tick _ => .isTrue trivial

structure Erased (w next : TimerWheel) (id : Nat) : Prop where
  capacity : next.capacity = w.capacity
  made : next.next = w.next
  wheels : next.wheels = w.wheels
  tasks : next.tasks = w.tasks
  others : ∀ other ≠ id, next.timersRecord other = w.timersRecord other
  entry : ∀ key, next.timersRecord id = some key → w.timersRecord id = some key

theorem Erased.trans {w middle next : TimerWheel} (first : Erased w middle id) (second : Erased middle next id) :
    Erased w next id :=
  ⟨second.capacity.trans first.capacity,second.made.trans first.made,second.wheels.trans first.wheels,
    second.tasks.trans first.tasks,fun other apart => (second.others other apart).trans (first.others other apart),
    fun key found => first.entry key (second.entry key found)⟩

theorem erased_record (w : TimerWheel) (id : Nat) : Erased w (w.eraseRecord id) id := by
  refine ⟨rfl,rfl,rfl,rfl,fun other apart => Function.update_of_ne apart _ _,fun key found => ?_⟩
  simp [eraseRecord] at found

theorem erased_remove (expired : ∀ key, w.timersRecord id = some key → w.alive key = false) :
    Erased w (w.removeTimerTask id) id := by
  have noted : Erased w {w with removed := (w.pending id).toList ++ w.removed} id :=
    ⟨rfl,rfl,rfl,rfl,fun _ _ => rfl,fun _ found => found⟩
  unfold removeTimerTask
  dsimp only
  split
  · split
    · rename_i key locked
      obtain ⟨listed,live⟩ := (lock_iff _ id key).mp locked
      have live : w.alive key = true := live
      rw [expired key listed] at live; cases live
    · exact noted.trans (erased_record _ id)
  · exact noted

theorem erased_callback (calls : List Nat) (only : ∀ call ∈ calls, call = id)
    (expired : ∀ key, w.timersRecord id = some key → w.alive key = false) :
    Erased w (calls.foldl removeTimerTask w) id := by
  induction calls generalizing w with
  | nil => exact ⟨rfl,rfl,rfl,rfl,fun _ _ => rfl,fun _ found => found⟩
  | cons call rest ih =>
    have mine : call = id := only call List.mem_cons_self
    subst call
    have first := erased_remove expired
    apply first.trans
    apply ih (fun call found => only call (List.mem_cons_of_mem _ found))
    intro key found
    rw [alive_same first.capacity first.wheels]
    exact expired key (first.entry key found)

theorem erased_destroy (only : ∀ call ∈ (w.tasks key).timerFunc, call = (w.tasks key).id)
    (expired : ∀ held, w.timersRecord (w.tasks key).id = some held → w.alive held = false) :
    Erased w (w.destroy key) (w.tasks key).id ∧ (w.destroy key).timersRecord (w.tasks key).id = none := by
  have last : ∀ v : TimerWheel, Erased v (v.removeFromTimerWheel (w.tasks key).id) (w.tasks key).id ∧
      (v.removeFromTimerWheel (w.tasks key).id).timersRecord (w.tasks key).id = none := by
    intro v
    unfold removeFromTimerWheel
    split
    · exact ⟨erased_record v _,by simp [eraseRecord]⟩
    · rename_i absent
      exact ⟨⟨rfl,rfl,rfl,rfl,fun _ _ => rfl,fun _ found => found⟩,by simpa [ifExists] using absent⟩
  unfold destroy
  dsimp only
  split
  · exact last w
  · have entered : Erased w (w.called key) (w.tasks key).id :=
      ⟨rfl,rfl,rfl,rfl,fun _ _ => rfl,fun _ found => found⟩
    have ran := erased_callback (w := w.called key) (w.tasks key).timerFunc only expired
    obtain ⟨erased,none⟩ := last ((w.tasks key).timerFunc.foldl removeTimerTask (w.called key))
    exact ⟨(entered.trans ran).trans erased,none⟩

theorem steady_drop (steady : Steady w) (placed : w.wheels slot = key :: rest) : Steady (w.dropFront slot rest) := by
  have found : ∀ slot' other, other ∈ (w.dropFront slot rest).wheels slot' → other ∈ w.wheels slot' := by
    intro slot' other member
    by_cases here : slot' = slot
    · subst slot'
      have member : other ∈ rest := by simpa [dropFront] using member
      rw [placed]; exact List.mem_cons_of_mem _ member
    · simpa [dropFront,here] using member
  exact ⟨steady.sized,steady.idle,fun slot' other member => steady.within slot' other (found slot' other member),
    fun slot' other member => steady.owner slot' other (found slot' other member),steady.known,steady.own⟩

-- The dying task is the one on record, so no other task loses its entry.
theorem steady_destroy (steady : Steady w) (below : key < w.next) (dead : w.alive key = false)
    (entry : w.timersRecord (w.tasks key).id = some key) : Steady (w.destroy key) := by
  have expired : ∀ held, w.timersRecord (w.tasks key).id = some held → w.alive held = false := by
    intro held found
    rw [entry] at found
    cases found; exact dead
  obtain ⟨erased,none⟩ := erased_destroy (steady.own key below) expired
  refine ⟨by rw [erased.capacity]; exact steady.sized,?_,?_,?_,?_,?_⟩
  · rw [erased.tasks]; exact steady.idle
  · rw [erased.wheels,erased.capacity,erased.made]; exact steady.within
  · intro slot other member
    rw [erased.wheels] at member
    have listed := steady.owner slot other member
    rw [erased.tasks,erased.others _ _]
    · exact listed
    · intro same
      rw [same,entry] at listed
      cases listed
      have live := (alive_iff w key).mpr ⟨slot,(steady.within slot key member).1,member⟩
      rw [dead] at live; cases live
  · intro id other found
    rw [erased.made,erased.tasks]
    by_cases same : id = (w.tasks key).id
    · subst id; rw [none] at found; cases found
    · rw [erased.others id same] at found
      exact steady.known id other found
  · rw [erased.made,erased.tasks]; exact steady.own

theorem steady_clear (keys : List Nat) (steady : Steady w) (placed : w.wheels slot = keys) :
    Steady (clearSlot slot keys w) := by
  induction keys generalizing w with
  | nil => exact steady
  | cons key rest ih =>
    have dropped := steady_drop steady placed
    have left : (w.dropFront slot rest).wheels slot = rest := Function.update_self ..
    have member : key ∈ w.wheels slot := by rw [placed]; exact List.mem_cons_self
    simp only [clearSlot]
    split
    · exact ih dropped left
    · rename_i dead
      apply ih (steady_destroy dropped (steady.within slot key member).2 (by simpa using dead)
        (steady.owner slot key member))
      rw [(destroy_still _ key).2.1]; exact left

theorem steady_push (steady : Steady w) (bound : slot < w.capacity) (entry : w.timersRecord id = some key) :
    Steady (w.pushFront slot key) := by
  obtain ⟨below,ownId⟩ := steady.known id key entry
  have found : ∀ slot' other, other ∈ (w.pushFront slot key).wheels slot' →
      (slot' = slot ∧ other = key) ∨ other ∈ w.wheels slot' := by
    intro slot' other member
    by_cases here : slot' = slot
    · subst slot'
      rcases (by simpa [pushFront] using member : other = key ∨ other ∈ w.wheels slot) with same | old
      · exact .inl ⟨rfl,same⟩
      · exact .inr old
    · exact .inr (by simpa [pushFront,here] using member)
  refine ⟨steady.sized,steady.idle,?_,?_,steady.known,steady.own⟩
  · intro slot' other member
    rcases found slot' other member with ⟨rfl,rfl⟩ | old
    · exact ⟨bound,below⟩
    · exact steady.within slot' other old
  · intro slot' other member
    rcases found slot' other member with ⟨_,rfl⟩ | old
    · change w.timersRecord (w.tasks other).id = some other
      rw [ownId]; exact entry
    · exact steady.owner slot' other old

theorem steady_set (steady : Steady w) (id timeout : Nat) (timerFunc : List Nat)
    (only : ∀ call ∈ timerFunc, call = id) : Steady (w.setTimerTask id timeout timerFunc) := by
  unfold setTimerTask
  split
  · exact steady
  · rename_i free
    have absent : w.timersRecord id = none := by simpa [ifExists] using free
    -- the new task is on record before it is put in its slot
    have recorded : Steady {w.makeTask id timeout timerFunc with
        timersRecord := update w.timersRecord id (some w.next)} := by
      refine ⟨steady.sized,?_,?_,?_,?_,?_⟩
      · intro key
        by_cases same : key = w.next
        · subst key; simp [makeTask]
        · simpa [makeTask,same] using steady.idle key
      · intro slot key member
        obtain ⟨low,below⟩ := steady.within slot key member
        exact ⟨low,Nat.lt_succ_of_lt below⟩
      · intro slot key member
        have below := (steady.within slot key member).2
        have listed := steady.owner slot key member
        have different : (w.tasks key).id ≠ id := fun same => by
          rw [same,absent] at listed; cases listed
        simpa [made_tasks below,different] using listed
      · intro other key found
        by_cases same : other = id
        · subst other
          have equal : w.next = key := by simpa using found
          subst key
          exact ⟨Nat.lt_succ_self _,by simp [makeTask]⟩
        · have old := steady.known other key (by simpa [same] using found)
          refine ⟨Nat.lt_succ_of_lt old.1,?_⟩
          change ((w.makeTask id timeout timerFunc).tasks key).id = other
          rw [made_tasks old.1]; exact old.2
      · intro key below call member
        dsimp only at *
        by_cases same : key = w.next
        · subst key
          simp only [makeTask,Function.update_self] at member ⊢
          exact only call member
        · have old : key < w.next := Nat.lt_of_le_of_ne (Nat.le_of_lt_succ below) same
          rw [made_tasks old] at member ⊢
          exact steady.own key old call member
    have bound : (w.makeTask id timeout timerFunc).slotAfter timeout < w.capacity := slotAfter_lt steady.sized timeout
    exact steady_push recorded bound (Function.update_self id (some w.next) w.timersRecord)

theorem steady_refresh (steady : Steady w) (id : Nat) : Steady (w.refreshTimerTask id) := by
  unfold refreshTimerTask
  split
  · cases locked : w.lock id with
    | none => exact steady
    | some key =>
      obtain ⟨listed,_⟩ := (lock_iff w id key).mp locked
      exact steady_push steady (slotAfter_lt steady.sized _) listed
  · exact steady

theorem steady_tick (nums : Nat) (steady : Steady w) : Steady (tickNums nums w) := by
  induction nums generalizing w with
  | zero => exact steady
  | succ nums ih =>
    have turned : Steady w.turn :=
      ⟨steady.sized,steady.idle,steady.within,steady.owner,steady.known,steady.own⟩
    exact ih (steady_clear _ turned rfl)

theorem step_steady (w : TimerWheel) (op : Op) (next : TimerWheel) (steady : Steady w) (quiet : op.Quiet)
    (taken : step w op = some next) : Steady next := by
  cases op with
  | setTimerTask id timeout timerFunc => cases taken; exact steady_set steady id timeout timerFunc quiet
  | refreshTimerTask id => cases taken; exact steady_refresh steady id
  | removeTimerTask id => cases quiet
  | tick nums => cases taken; exact steady_tick nums steady

end TimerWheel

namespace Clock
open TimerWheel (Op Steady)
variable {s : Clock} {key : Nat}

def Timely (s : Clock) (key : Nat) : Prop :=
  (∀ m, (key,m) ∈ s.fired → m = s.armed key + (s.wheel.tasks key).timeout) ∧
  (s.armed key + (s.wheel.tasks key).timeout ≤ s.ticks →
    (key,s.armed key + (s.wheel.tasks key).timeout) ∈ s.fired)

theorem run_steady {ops : List Op} (quiet : ∀ op ∈ ops, op.Quiet) (ran : Machine.run step {} ops = some s) :
    Steady s.wheel := by
  apply Machine.run_keeps (motive := fun s : Clock => Steady s.wheel) _ TimerWheel.start_steady
    (Machine.throughout_each fun action found _ => quiet action found) ran
  intro s op next steady quiet taken
  apply TimerWheel.step_steady s.wheel op next.wheel steady quiet
  rw [← TimerWheel.clock_wheel,taken]; rfl

theorem short_timely (ticking : Ticking s) (steady : Steady s.wheel) (made : key < s.wheel.next)
    (short : Short (s.wheel.tasks key).timeout) : Timely s key := by
  have exactly : ∀ m, (key,m) ∈ s.fired → m = s.armed key + (s.wheel.tasks key).timeout := by
    intro m found
    obtain ⟨late,early⟩ := ticking.punctual key m found
    rw [reach_short short] at late
    exact Nat.le_antisymm late (early short)
  refine ⟨exactly,fun late => ?_⟩
  rw [← reach_short short] at late
  obtain ⟨m,found⟩ := ticking.overdue made (steady.idle key) late
  rw [← exactly m found]; exact found

theorem tickNums_frame (nums : Nat) (ticking : Ticking s) : (tickNums nums s).ticks = s.ticks+nums ∧
    (tickNums nums s).armed = s.armed ∧ (tickNums nums s).wheel.next = s.wheel.next ∧
    ∀ key, ((tickNums nums s).wheel.tasks key).timeout = (s.wheel.tasks key).timeout := by
  induction nums generalizing s with
  | zero => exact ⟨rfl,rfl,rfl,fun _ => rfl⟩
  | succ nums ih =>
    obtain ⟨wheel,news,cleared,turned⟩ := turn_cleared ticking
    obtain ⟨ticks,armed,made,timeout⟩ := ih (turn_ticking ticking)
    refine ⟨?_,?_,?_,fun key => ?_⟩
    · rw [tickNums,ticks,turned]; exact (Nat.add_right_comm ..).trans (Nat.add_assoc ..)
    · rw [tickNums,armed,turned]
    · rw [tickNums,made,turned]; exact cleared.made
    · rw [tickNums,timeout,turned]; exact cleared.timeout key

-- A longer timeout wraps around the wheel: its task is called within sixty ticks.
theorem long_early (timeout : Nat) (long : 60 < timeout) : ∃ ops s, (∀ op ∈ ops, op.Quiet) ∧
    Machine.run step {} ops = some s ∧ 0 < s.wheel.next ∧ (s.wheel.tasks 0).timeout = timeout ∧ ¬Timely s 0 := by
  have quiet : ∀ op ∈ [Op.setTimerTask 1 timeout [],.tick 60], op.Quiet := by
    intro op found
    rcases List.mem_cons.mp found with rfl | found
    · intro call none; cases none
    · cases List.mem_singleton.mp found; trivial
  have began : Ticking (setTimerTask {} 1 timeout []) := run_ticking [.setTimerTask 1 timeout []] rfl
  obtain ⟨ticks,armed,made,same⟩ := tickNums_frame 60 began
  have ran : Machine.run step {} [.setTimerTask 1 timeout [],.tick 60] =
    some (tickNums 60 (setTimerTask {} 1 timeout [])) := rfl
  refine ⟨_,_,quiet,ran,by rw [made]; exact Nat.one_pos,(same 0).trans rfl,fun timely => ?_⟩
  have ticking := run_ticking _ ran
  have steady := run_steady quiet ran
  generalize tickNums 60 (setTimerTask {} 1 timeout []) = s at *
  have same : (s.wheel.tasks 0).timeout = timeout := same 0
  have start : s.armed 0 = 0 := by rw [armed]; rfl
  have below : 0 < s.wheel.next := by rw [made]; exact Nat.one_pos
  have reached := reach_le (s.wheel.tasks 0).timeout
  have late : s.armed 0 + reach (s.wheel.tasks 0).timeout ≤ s.ticks := by
    rw [start,ticks,Nat.zero_add]
    exact Nat.le_trans reached (Nat.le_add_left 60 _)
  obtain ⟨m,found⟩ := ticking.overdue below (steady.idle 0) late
  have early := (ticking.punctual 0 m found).1
  have named := timely.1 m found
  rw [start] at early named
  omega

theorem fires_on_time_iff (timeout : Nat) (low : 1 ≤ timeout) :
    (∀ (ops : List Op) (s : Clock), (∀ op ∈ ops, op.Quiet) → Machine.run step {} ops = some s →
      ∀ key < s.wheel.next, (s.wheel.tasks key).timeout = timeout → Timely s key) ↔ timeout ≤ 60 := by
  constructor
  · intro claimed
    by_contra long
    obtain ⟨ops,s,quiet,ran,made,same,early⟩ := long_early timeout (Nat.lt_of_not_le long)
    exact early (claimed ops s quiet ran 0 made same)
  · intro high ops s quiet ran key made same
    apply short_timely (run_ticking ops ran) (run_steady quiet ran) made
    rw [same]; exact ⟨low,high⟩

theorem fires_on_time_iff_minute : (∀ (ops : List Op) (s : Clock), (∀ op ∈ ops, op.Quiet) →
    Machine.run step {} ops = some s → ∀ key < s.wheel.next, (s.wheel.tasks key).timeout = 60 → Timely s key) ↔
      60 ≤ 60 := fires_on_time_iff 60 (by decide)

theorem long_timeout_fires_early : ¬∀ (timeout : Nat), 1 ≤ timeout → timeout < 2^31 →
    ∀ (ops : List Op) (s : Clock), (∀ op ∈ ops, op.Quiet) → Machine.run step {} ops = some s →
      ∀ key < s.wheel.next, (s.wheel.tasks key).timeout = timeout → Timely s key := by
  intro claimed
  have timely := claimed 61 (by decide) (by decide) [.setTimerTask 1 61 [],.tick 1] _ (by decide) rfl 0
    (by decide) rfl
  have early := timely.1 1 (by decide)
  exact absurd early (by decide)

end Clock
end LinuxOS.Muduo
