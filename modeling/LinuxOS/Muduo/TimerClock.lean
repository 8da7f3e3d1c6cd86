import LinuxOS.Muduo.TimerRegistry
import Mathlib.Data.List.Nodup

namespace LinuxOS.Muduo

-- The wheel beside a clock that no operation reads: the ticks made so far, the
-- tick count at which a reference to each task was last put in, and for each
-- callback that was called the number of the tick it ran in.
structure Clock where
  wheel : TimerWheel := {}
  ticks : Nat := 0
  armed : Nat → Nat := fun _ => 0
  fired : List (Nat × Nat) := []

namespace Clock
open Function (update)
open TimerWheel (Op)

def turn (s : Clock) : Clock :=
  let wheel := TimerWheel.tickNums 1 s.wheel
  let news := wheel.ran.take (wheel.ran.length - s.wheel.ran.length)
  {s with
    wheel := wheel
    ticks := s.ticks+1
    fired := news.map (·,s.ticks+1) ++ s.fired}

def tickNums : Nat → Clock → Clock
  | 0,s => s
  | nums+1,s => tickNums nums s.turn

def setTimerTask (s : Clock) (id timeout : Nat) (timerFunc : List Nat) : Clock :=
  {s with
    wheel := s.wheel.setTimerTask id timeout timerFunc
    armed := if s.wheel.ifExists id then s.armed else update s.armed s.wheel.next s.ticks}

def refreshTimerTask (s : Clock) (id : Nat) : Clock :=
  {s with
    wheel := s.wheel.refreshTimerTask id
    armed := match s.wheel.lock id with
      | some key => update s.armed key s.ticks
      | none => s.armed}

def step (s : Clock) : Op → Option Clock
  | .setTimerTask id timeout timerFunc => some (s.setTimerTask id timeout timerFunc)
  | .refreshTimerTask id => some (s.refreshTimerTask id)
  | .removeTimerTask id => some {s with wheel := s.wheel.removeTimerTask id}
  | .tick nums => some (tickNums nums s)

end Clock

namespace TimerWheel
open Function (update)
variable {w : TimerWheel} {id timeout slot key : Nat}

theorem tickNums_wheel (nums : Nat) (s : Clock) :
    (Clock.tickNums nums s).wheel = tickNums nums s.wheel := by
  induction nums generalizing s with
  | zero => rfl
  | succ nums ih => exact ih s.turn

theorem clock_wheel (s : Clock) (op : Op) : (s.step op).map Clock.wheel = s.wheel.step op := by
  cases op with
  | tick nums => exact congrArg some (tickNums_wheel nums s)
  | _ => rfl

structure Still (w next : TimerWheel) : Prop where
  capacity : next.capacity = w.capacity
  tick : next.tick = w.tick
  made : next.next = w.next
  owner : ∀ key, (next.tasks key).id = (w.tasks key).id
  timeout : ∀ key, (next.tasks key).timeout = (w.tasks key).timeout
  cancelled : ∀ key, (w.tasks key).cancel = true → (next.tasks key).cancel = true

theorem Still.trans {w middle next : TimerWheel} (first : Still w middle) (second : Still middle next) :
    Still w next :=
  ⟨second.capacity.trans first.capacity,second.tick.trans first.tick,second.made.trans first.made,
    fun key => (second.owner key).trans (first.owner key),
    fun key => (second.timeout key).trans (first.timeout key),
    fun key was => second.cancelled key (first.cancelled key was)⟩

theorem remove_still (w : TimerWheel) (id : Nat) : Still w (w.removeTimerTask id) := by
  obtain ⟨capacity,_,made,_,_,tick,_,_⟩ := w.remove_frame id
  refine ⟨capacity,tick,made,fun key => (remove_tasks id key).1,?_,fun key => (remove_tasks id key).2⟩
  intro key
  unfold removeTimerTask
  dsimp only
  split
  · split
    · rename_i held _
      by_cases same : key = held
      · subst key; simp [eraseRecord,cancelTask]
      · simp [eraseRecord,cancelTask,same]
    · rfl
  · rfl

theorem callback_still (calls : List Nat) (w : TimerWheel) :
    Still w (calls.foldl removeTimerTask w) ∧ (calls.foldl removeTimerTask w).wheels = w.wheels ∧
      (calls.foldl removeTimerTask w).ran = w.ran := by
  induction calls generalizing w with
  | nil => exact ⟨⟨rfl,rfl,rfl,fun _ => rfl,fun _ => rfl,fun _ h => h⟩,rfl,rfl⟩
  | cons call rest ih =>
    obtain ⟨still,wheels,ran⟩ := ih (w.removeTimerTask call)
    obtain ⟨_,wheels',_,_,ran',_⟩ := w.remove_frame call
    exact ⟨(remove_still w call).trans still,wheels.trans wheels',ran.trans ran'⟩

-- A destructor leaves the slots alone and enters the task in the list of
-- callbacks called exactly if it was not cancelled.
theorem destroy_still (w : TimerWheel) (key : Nat) :
    Still w (w.destroy key) ∧ (w.destroy key).wheels = w.wheels ∧
      (w.destroy key).ran = if (w.tasks key).cancel then w.ran else key :: w.ran := by
  have erased : ∀ v : TimerWheel, Still v (v.removeFromTimerWheel (w.tasks key).id) ∧
      (v.removeFromTimerWheel (w.tasks key).id).wheels = v.wheels ∧
      (v.removeFromTimerWheel (w.tasks key).id).ran = v.ran := by
    intro v
    unfold removeFromTimerWheel
    split <;> exact ⟨⟨rfl,rfl,rfl,fun _ => rfl,fun _ => rfl,fun _ h => h⟩,rfl,rfl⟩
  unfold destroy
  dsimp only
  split
  · exact erased w
  · obtain ⟨still,wheels,ran⟩ := callback_still (w.tasks key).timerFunc (w.called key)
    obtain ⟨still',wheels',ran'⟩ := erased ((w.tasks key).timerFunc.foldl removeTimerTask (w.called key))
    have entered : Still w (w.called key) := ⟨rfl,rfl,rfl,fun _ => rfl,fun _ => rfl,fun _ h => h⟩
    exact ⟨entered.trans (still.trans still'),wheels'.trans wheels,ran'.trans ran⟩

-- What clearing a slot does: `news` are the tasks whose callback it calls. They
-- had their last reference there, and an uncancelled task that had is among them.
structure Cleared (w next : TimerWheel) (slot : Nat) (news : List Nat) : Prop extends Still w next where
  wheels : next.wheels = update w.wheels slot []
  ran : next.ran = news ++ w.ran
  apart : news.Nodup
  here : ∀ key ∈ news, key ∈ w.wheels slot
  last : ∀ key ∈ news, ∀ other, slot ≠ other → other < w.capacity → key ∉ w.wheels other
  called : ∀ key ∈ w.wheels slot, (∀ other, slot ≠ other → other < w.capacity → key ∉ w.wheels other) →
    (next.tasks key).cancel = false → key ∈ news

theorem Cleared.elsewhere {cleaned : TimerWheel} (cleared : Cleared w cleaned slot news) (other key : Nat)
    (member : key ∈ cleaned.wheels other) : other ≠ slot ∧ key ∈ w.wheels other := by
  rw [cleared.wheels] at member
  by_cases here : other = slot
  · subst other; rw [Function.update_self] at member; cases member
  · rw [Function.update_of_ne here] at member; exact ⟨here,member⟩

theorem Cleared.stays {cleaned : TimerWheel} (cleared : Cleared w cleaned slot news) (other key : Nat)
    (apart : other ≠ slot) (member : key ∈ w.wheels other) : key ∈ cleaned.wheels other := by
  rw [cleared.wheels,Function.update_of_ne apart]; exact member

theorem cleared_nothing (empty : w.wheels slot = []) : Cleared w w slot [] := by
  refine ⟨⟨rfl,rfl,rfl,fun _ => rfl,fun _ => rfl,fun _ h => h⟩,?_,rfl,.nil,?_,?_,?_⟩
  · rw [← empty,Function.update_eq_self]
  · intro key found; cases found
  · intro key found; cases found
  · intro key found; rw [empty] at found; cases found

theorem drop_still (w : TimerWheel) (slot : Nat) (rest : List Nat) : Still w (w.dropFront slot rest) :=
  ⟨rfl,rfl,rfl,fun _ => rfl,fun _ => rfl,fun _ h => h⟩

theorem drop_other (slot : Nat) (rest : List Nat) (other : Nat) (apart : slot ≠ other) :
    (w.dropFront slot rest).wheels other = w.wheels other := Function.update_of_ne (Ne.symm apart) _ _

theorem Cleared.later {next : TimerWheel} {rest news : List Nat} (placed : w.wheels slot = key :: rest)
    (live : (w.dropFront slot rest).alive key = true)
    (cleared : Cleared (w.dropFront slot rest) next slot news) : Cleared w next slot news := by
  have left : (w.dropFront slot rest).wheels slot = rest := Function.update_self ..
  refine ⟨(drop_still w slot rest).trans cleared.toStill,?_,cleared.ran,cleared.apart,?_,?_,?_⟩
  · rw [cleared.wheels]; exact Function.update_idem ..
  · intro other found
    have member := cleared.here other found
    rw [left] at member
    rw [placed]; exact List.mem_cons_of_mem _ member
  · intro other found slot' different bound
    have none := cleared.last other found slot' different bound
    rwa [drop_other slot rest slot' different] at none
  · intro other member nowhere active
    have nowhere' : ∀ slot', slot ≠ slot' → slot' < w.capacity →
        other ∉ (w.dropFront slot rest).wheels slot' := by
      intro slot' different bound
      rw [drop_other slot rest slot' different]
      exact nowhere slot' different bound
    rw [placed] at member
    rcases List.mem_cons.mp member with same | old
    · subst other
      obtain ⟨slot',bound,found⟩ := (alive_iff _ key).mp live
      by_cases same : slot = slot'
      · subst slot'
        exact cleared.called key found nowhere' active
      · exact absurd found (nowhere' slot' same bound)
    · exact cleared.called other (by rw [left]; exact old) nowhere' active

theorem Cleared.destroyed {next : TimerWheel} {rest news : List Nat} (bound : slot < w.capacity)
    (placed : w.wheels slot = key :: rest) (dead : (w.dropFront slot rest).alive key = false)
    (cleared : Cleared ((w.dropFront slot rest).destroy key) next slot news) :
    ∃ news, Cleared w next slot news := by
  obtain ⟨still,wheels,ran⟩ := (w.dropFront slot rest).destroy_still key
  have left : ((w.dropFront slot rest).destroy key).wheels slot = rest := by
    rw [wheels]; exact Function.update_self ..
  have elsewhere : ∀ other, slot ≠ other →
      ((w.dropFront slot rest).destroy key).wheels other = w.wheels other := fun other apart => by
    rw [wheels]; exact drop_other slot rest other apart
  have gone : ∀ other < w.capacity, key ∉ (w.dropFront slot rest).wheels other := by
    intro other low found
    have live := (alive_iff (w.dropFront slot rest) key).mpr ⟨other,low,found⟩
    rw [dead] at live; cases live
  have absent : key ∉ rest := by
    have none := gone slot bound
    rw [← wheels,left] at none; exact none
  have kept : Still w next := ((drop_still w slot rest).trans still).trans cleared.toStill
  have emptied : next.wheels = update w.wheels slot [] := by
    rw [cleared.wheels,wheels]; exact Function.update_idem ..
  have stay : ∀ other ∈ news, other ∈ rest := fun other found => left ▸ cleared.here other found
  have last : ∀ other ∈ news, ∀ slot', slot ≠ slot' → slot' < w.capacity → other ∉ w.wheels slot' := by
    intro other found slot' different low
    have none := cleared.last other found slot' different (by rw [still.capacity]; exact low)
    rwa [elsewhere slot' different] at none
  have called : ∀ other ∈ rest, (∀ slot', slot ≠ slot' → slot' < w.capacity → other ∉ w.wheels slot') →
      (next.tasks other).cancel = false → other ∈ news := by
    intro other member nowhere active
    apply cleared.called other (by rw [left]; exact member) _ active
    intro slot' different low
    rw [elsewhere slot' different]
    exact nowhere slot' different (by rw [still.capacity] at low; exact low)
  by_cases cancelled : (w.tasks key).cancel = true
  · have ran' : ((w.dropFront slot rest).destroy key).ran = w.ran := ran.trans (if_pos cancelled)
    refine ⟨news,kept,emptied,by rw [cleared.ran,ran'],cleared.apart,?_,last,?_⟩
    · intro other found
      rw [placed]; exact List.mem_cons_of_mem _ (stay other found)
    · intro other member nowhere active
      rw [placed] at member
      rcases List.mem_cons.mp member with same | old
      · subst other
        rw [kept.cancelled key cancelled] at active; cases active
      · exact called other old nowhere active
  · have ran' : ((w.dropFront slot rest).destroy key).ran = key :: w.ran := ran.trans (if_neg cancelled)
    refine ⟨news ++ [key],kept,emptied,?_,?_,?_,?_,?_⟩
    · rw [cleared.ran,ran',List.append_assoc]; rfl
    · apply List.Nodup.append cleared.apart (List.nodup_singleton key)
      intro other found same
      have equal : other = key := by simpa using same
      subst other
      exact absent (stay key found)
    · intro other found
      rw [placed]
      rcases List.mem_append.mp found with old | same
      · exact List.mem_cons_of_mem _ (stay other old)
      · rw [List.mem_singleton.mp same]; exact List.mem_cons_self
    · intro other found slot' different low
      rcases List.mem_append.mp found with old | same
      · exact last other old slot' different low
      · have none := gone slot' low
        rw [drop_other slot rest slot' different] at none
        rw [List.mem_singleton.mp same]; exact none
    · intro other member nowhere active
      rw [placed] at member
      rcases List.mem_cons.mp member with same | old
      · subst other
        exact List.mem_append_right _ (List.mem_singleton_self key)
      · exact List.mem_append_left _ (called other old nowhere active)

theorem clear_cleared (keys : List Nat) (bound : slot < w.capacity) (placed : w.wheels slot = keys) :
    ∃ news, Cleared w (clearSlot slot keys w) slot news := by
  induction keys generalizing w with
  | nil => exact ⟨[],cleared_nothing placed⟩
  | cons key rest ih =>
    have left : (w.dropFront slot rest).wheels slot = rest := Function.update_self ..
    simp only [clearSlot]
    split
    · rename_i live
      obtain ⟨news,cleared⟩ := ih (w := w.dropFront slot rest) bound left
      exact ⟨news,cleared.later placed live⟩
    · rename_i dead
      obtain ⟨still,wheels,_⟩ := (w.dropFront slot rest).destroy_still key
      have room : slot < ((w.dropFront slot rest).destroy key).capacity := by
        rw [still.capacity]; exact bound
      obtain ⟨news,cleared⟩ := ih room (by rw [wheels]; exact left)
      exact cleared.destroyed bound placed (by simpa using dead)

end TimerWheel

namespace Clock
open Function (update)
open TimerWheel (Op Still Cleared)
variable {s : Clock} {wheel : TimerWheel} {id timeout slot key : Nat} {news : List Nat}

-- The wheel has sixty slots: a timeout it can tell from every other one.
def Short (timeout : Nat) : Prop := 1 ≤ timeout ∧ timeout ≤ 60

instance (timeout : Nat) : Decidable (Short timeout) := by unfold Short; infer_instance

def reach (timeout : Nat) : Nat := if Short timeout then timeout else 60

theorem reach_short (short : Short timeout) : reach timeout = timeout := if_pos short

theorem reach_le (timeout : Nat) : reach timeout ≤ 60 := by
  unfold reach
  split
  · rename_i short; exact short.2
  · exact Nat.le_refl _

structure Ticking (s : Clock) : Prop where
  sized : s.wheel.capacity = 60
  tick : s.wheel.tick = s.ticks % 60
  placed : ∀ slot key, key ∈ s.wheel.wheels slot → slot < 60 ∧ key < s.wheel.next
  armed : ∀ key, s.armed key ≤ s.ticks
  due : ∀ slot key, key ∈ s.wheel.wheels slot → ∀ m, s.ticks < m → m ≤ s.ticks+60 → m % 60 = slot →
    m ≤ s.armed key + reach (s.wheel.tasks key).timeout
  booked : ∀ key < s.wheel.next, Short (s.wheel.tasks key).timeout →
    s.ticks < s.armed key + (s.wheel.tasks key).timeout →
    key ∈ s.wheel.wheels ((s.armed key + (s.wheel.tasks key).timeout) % 60)
  waiting : ∀ key < s.wheel.next, (s.wheel.tasks key).cancel = false → key ∉ s.wheel.ran →
    ∃ slot, key ∈ s.wheel.wheels slot
  gone : ∀ key ∈ s.wheel.ran, key < s.wheel.next ∧ ∀ slot, key ∉ s.wheel.wheels slot
  once : s.wheel.ran.Nodup
  stamped : s.fired.map Prod.fst = s.wheel.ran
  punctual : ∀ key m, (key,m) ∈ s.fired → m ≤ s.armed key + reach (s.wheel.tasks key).timeout ∧
    (Short (s.wheel.tasks key).timeout → s.armed key + (s.wheel.tasks key).timeout ≤ m)

theorem start_ticking : Ticking {} := by
  constructor <;> simp

theorem slot_of_short (short : Short timeout) (later : r < m) (bound : m ≤ r+60)
    (here : m % 60 = (r % 60 + timeout) % 2^32 % 60) : m = r+timeout := by
  obtain ⟨low,high⟩ := short
  omega

-- A reference to `key` was put into the slot its timeout names, and nothing
-- else of what the clock watches changed, except that `key` may be new.
structure Armed (s : Clock) (wheel : TimerWheel) (slot key : Nat) : Prop where
  sized : wheel.capacity = s.wheel.capacity
  tick : wheel.tick = s.wheel.tick
  ran : wheel.ran = s.wheel.ran
  wheels : wheel.wheels = update s.wheel.wheels slot (key :: s.wheel.wheels slot)
  slot : slot = s.wheel.slotAfter (wheel.tasks key).timeout
  made : key < wheel.next ∧ s.wheel.next ≤ wheel.next
  others : ∀ other ≠ key, wheel.tasks other = s.wheel.tasks other ∧ (other < wheel.next → other < s.wheel.next)
  same : ∀ slot, key ∈ s.wheel.wheels slot → wheel.tasks key = s.wheel.tasks key
  quiet : key ∉ s.wheel.ran

theorem Armed.grows (arm : Armed s wheel slot key) (slot' : Nat) (other : Nat)
    (found : other ∈ s.wheel.wheels slot') : other ∈ wheel.wheels slot' := by
  rw [arm.wheels]
  by_cases here : slot' = slot
  · subst slot'; rw [Function.update_self]; exact List.mem_cons_of_mem _ found
  · rw [Function.update_of_ne here]; exact found

theorem Armed.found (arm : Armed s wheel slot key) (slot' : Nat) (other : Nat)
    (found : other ∈ wheel.wheels slot') : (slot' = slot ∧ other = key) ∨ other ∈ s.wheel.wheels slot' := by
  rw [arm.wheels] at found
  by_cases here : slot' = slot
  · subst slot'
    rw [Function.update_self] at found
    rcases List.mem_cons.mp found with same | old
    · exact .inl ⟨rfl,same⟩
    · exact .inr old
  · rw [Function.update_of_ne here] at found; exact .inr found

theorem Ticking.arm (ticking : Ticking s) (arm : Armed s wheel slot key) :
    Ticking {s with wheel := wheel, armed := update s.armed key s.ticks} := by
  have at' : slot = (s.ticks % 60 + (wheel.tasks key).timeout) % 2^32 % 60 := by
    rw [arm.slot,TimerWheel.slotAfter,ticking.sized,ticking.tick]
  have here : key ∈ wheel.wheels slot := by rw [arm.wheels,Function.update_self]; exact List.mem_cons_self
  refine ⟨arm.sized.trans ticking.sized,arm.tick.trans ticking.tick,?placed,?armed,?due,?booked,?waiting,?gone,?once,?stamped,?punctual⟩
  case placed =>
    intro slot' other found
    rcases arm.found slot' other found with ⟨rfl,rfl⟩ | old
    · exact ⟨by rw [at']; exact Nat.mod_lt _ (by decide),arm.made.1⟩
    · exact ⟨(ticking.placed slot' other old).1,Nat.lt_of_lt_of_le (ticking.placed slot' other old).2 arm.made.2⟩
  case armed =>
    intro other
    dsimp only
    by_cases same : other = key
    · subst other
      exact Nat.le_of_eq (Function.update_self key s.ticks s.armed)
    · rw [Function.update_of_ne same]; exact ticking.armed other
  case due =>
    intro slot' other found m later bound turn
    dsimp only at *
    by_cases same : other = key
    · subst other
      rw [Function.update_self]
      rcases arm.found slot' key found with ⟨rfl,_⟩ | old
      · by_cases short : Short (wheel.tasks key).timeout
        · rw [reach_short short]
          exact Nat.le_of_eq (slot_of_short short later bound (turn.trans at'))
        · rw [reach,if_neg short]; exact bound
      · have early := ticking.due slot' key old m later bound turn
        rw [arm.same slot' old]
        exact Nat.le_trans early (Nat.add_le_add_right (ticking.armed key) _)
    · rw [Function.update_of_ne same,(arm.others other same).1]
      rcases arm.found slot' other found with ⟨_,rfl⟩ | old
      · exact absurd rfl same
      · exact ticking.due slot' other old m later bound turn
  case booked =>
    intro other below short later
    dsimp only at *
    by_cases same : other = key
    · subst other
      rw [Function.update_self]
      have equal : (s.ticks + (wheel.tasks key).timeout) % 60 = slot := by
        obtain ⟨_,high⟩ := short
        omega
      rw [equal]; exact here
    · rw [Function.update_of_ne same,(arm.others other same).1] at later ⊢
      rw [(arm.others other same).1] at short
      exact arm.grows _ other (ticking.booked other ((arm.others other same).2 below) short later)
  case waiting =>
    intro other below active unran
    dsimp only at *
    by_cases same : other = key
    · subst other; exact ⟨slot,here⟩
    · rw [(arm.others other same).1] at active
      rw [arm.ran] at unran
      obtain ⟨slot',found⟩ := ticking.waiting other ((arm.others other same).2 below) active unran
      exact ⟨slot',arm.grows slot' other found⟩
  case gone =>
    intro other ran
    dsimp only at *
    rw [arm.ran] at ran
    obtain ⟨below,nowhere⟩ := ticking.gone other ran
    refine ⟨Nat.lt_of_lt_of_le below arm.made.2,fun slot' found => ?_⟩
    rcases arm.found slot' other found with ⟨_,rfl⟩ | old
    · exact arm.quiet ran
    · exact nowhere slot' old
  case once => dsimp only; rw [arm.ran]; exact ticking.once
  case stamped => dsimp only; rw [arm.ran]; exact ticking.stamped
  case punctual =>
    intro other m found
    dsimp only at *
    have ran : other ∈ s.wheel.ran := by
      rw [← ticking.stamped]; exact List.mem_map_of_mem (f := Prod.fst) found
    have different : other ≠ key := fun same => arm.quiet (same ▸ ran)
    rw [Function.update_of_ne different,(arm.others other different).1]
    exact ticking.punctual other m found

theorem Ticking.still (ticking : Ticking s) (still : Still s.wheel wheel)
    (wheels : wheel.wheels = s.wheel.wheels) (ran : wheel.ran = s.wheel.ran) :
    Ticking {s with wheel := wheel} := by
  refine ⟨still.capacity.trans ticking.sized,still.tick.trans ticking.tick,?placed,ticking.armed,?due,?booked,?waiting,?gone,?once,?stamped,?punctual⟩
  case placed =>
    intro slot key found
    dsimp only at *
    rw [wheels] at found
    rw [still.made]; exact ticking.placed slot key found
  case due =>
    intro slot key found
    dsimp only at *
    rw [wheels] at found
    rw [still.timeout]; exact ticking.due slot key found
  case booked =>
    intro key below
    dsimp only at *
    rw [still.made] at below
    rw [still.timeout,wheels]; exact ticking.booked key below
  case waiting =>
    intro key below active unran
    dsimp only at *
    rw [still.made] at below
    rw [ran] at unran
    rw [wheels]
    apply ticking.waiting key below _ unran
    cases was : (s.wheel.tasks key).cancel with
    | false => rfl
    | true => rw [still.cancelled key was] at active; cases active
  case gone =>
    intro key found
    dsimp only at *
    rw [ran] at found
    rw [still.made,wheels]; exact ticking.gone key found
  case once => dsimp only; rw [ran]; exact ticking.once
  case stamped => dsimp only; rw [ran]; exact ticking.stamped
  case punctual =>
    intro key m found
    dsimp only at *
    rw [still.timeout]; exact ticking.punctual key m found

theorem Ticking.clear (ticking : Ticking s) (cleared : Cleared s.wheel.turn wheel ((s.ticks+1) % 60) news) :
    Ticking {s with wheel := wheel, ticks := s.ticks+1, fired := news.map (·,s.ticks+1) ++ s.fired} := by
  have sized : s.wheel.turn.capacity = 60 := ticking.sized
  have found : ∀ slot key, key ∈ wheel.wheels slot → slot ≠ (s.ticks+1) % 60 ∧ key ∈ s.wheel.wheels slot :=
    cleared.elsewhere
  have kept : ∀ slot key, slot ≠ (s.ticks+1) % 60 → key ∈ s.wheel.wheels slot → key ∈ wheel.wheels slot :=
    cleared.stays
  have last : ∀ key ∈ news, ∀ slot, slot ≠ (s.ticks+1) % 60 → key ∉ s.wheel.wheels slot := by
    intro key called slot here member
    have bound : slot < s.wheel.turn.capacity := by rw [sized]; exact (ticking.placed slot key member).1
    exact cleared.last key called slot (Ne.symm here) bound member
  refine ⟨cleared.capacity.trans sized,?tick,?placed,?armed,?due,?booked,?waiting,?gone,?once,?stamped,?punctual⟩
  case tick =>
    dsimp only
    rw [cleared.tick]
    change (s.wheel.tick+1) % s.wheel.capacity = _
    rw [ticking.sized,ticking.tick]; omega
  case placed =>
    intro slot key member
    dsimp only at *
    rw [cleared.made]; exact ticking.placed slot key (found slot key member).2
  case armed => intro key; exact Nat.le_succ_of_le (ticking.armed key)
  case due =>
    intro slot key member m later bound turn
    dsimp only at *
    obtain ⟨here,old⟩ := found slot key member
    have early : m ≤ s.ticks+60 := by
      by_contra beyond
      have equal : m = s.ticks+1+60 := by omega
      apply here
      rw [← turn,equal,Nat.add_mod_right]
    rw [cleared.timeout]
    exact ticking.due slot key old m (Nat.lt_of_succ_lt later) early turn
  case booked =>
    intro key below short later
    dsimp only at *
    rw [cleared.made] at below
    rw [cleared.timeout] at short later ⊢
    change Short (s.wheel.tasks key).timeout at short
    change s.ticks + 1 < s.armed key + (s.wheel.tasks key).timeout at later
    apply kept _ key _ (ticking.booked key below short (Nat.lt_of_succ_lt later))
    have armed := ticking.armed key
    obtain ⟨_,high⟩ := short
    change (s.armed key + (s.wheel.tasks key).timeout) % 60 ≠ _
    omega
  case waiting =>
    intro key below active unran
    dsimp only at *
    rw [cleared.made] at below
    rw [cleared.ran,List.mem_append,not_or] at unran
    have was : (s.wheel.tasks key).cancel = false := by
      cases was : (s.wheel.tasks key).cancel with
      | false => rfl
      | true => rw [cleared.cancelled key was] at active; cases active
    obtain ⟨slot,member⟩ := ticking.waiting key below was unran.2
    by_cases here : slot = (s.ticks+1) % 60
    · subst slot
      by_contra none
      apply unran.1
      apply cleared.called key member _ active
      intro other apart _ elsewhere
      exact none ⟨other,kept other key (Ne.symm apart) elsewhere⟩
    · exact ⟨slot,kept slot key here member⟩
  case gone =>
    intro key ran
    dsimp only at *
    rw [cleared.made]
    rw [cleared.ran] at ran
    rcases List.mem_append.mp ran with new | old
    · refine ⟨(ticking.placed _ key (cleared.here key new)).2,fun slot member => ?_⟩
      obtain ⟨here,member⟩ := found slot key member
      exact last key new slot here member
    · refine ⟨(ticking.gone key old).1,fun slot member => ?_⟩
      exact (ticking.gone key old).2 slot (found slot key member).2
  case once =>
    dsimp only
    rw [cleared.ran]
    apply List.Nodup.append cleared.apart ticking.once
    intro key new old
    exact (ticking.gone key old).2 _ (cleared.here key new)
  case stamped =>
    dsimp only
    rw [cleared.ran,List.map_append,ticking.stamped,List.map_map]
    congr 1
    exact List.map_id news
  case punctual =>
    intro key m stamp
    dsimp only at *
    rw [cleared.timeout]
    rcases List.mem_append.mp stamp with new | old
    · obtain ⟨_,called,equal⟩ := List.mem_map.mp new
      cases equal
      have member := cleared.here key called
      refine ⟨ticking.due _ key member _ (Nat.lt_succ_self _) (by omega) rfl,fun short => ?_⟩
      by_contra early
      have later : s.ticks + 1 < s.armed key + (s.wheel.tasks key).timeout := Nat.lt_of_not_le early
      have below := (ticking.placed _ key member).2
      apply last key called _ _ (ticking.booked key below short (Nat.lt_of_succ_lt later))
      have armed := ticking.armed key
      have high : (s.wheel.tasks key).timeout ≤ 60 := short.2
      omega
    · exact ticking.punctual key m old

theorem take_news (news old : List Nat) : (news ++ old).take ((news ++ old).length - old.length) = news := by
  rw [List.length_append,Nat.add_sub_cancel]
  exact List.take_left

theorem turn_cleared (ticking : Ticking s) : ∃ wheel news, Cleared s.wheel.turn wheel ((s.ticks+1) % 60) news ∧
    s.turn = {s with wheel := wheel, ticks := s.ticks+1, fired := news.map (·,s.ticks+1) ++ s.fired} := by
  have slot : s.wheel.turn.tick = (s.ticks+1) % 60 := by
    change (s.wheel.tick+1) % s.wheel.capacity = _
    rw [ticking.sized,ticking.tick]; omega
  have bound : (s.ticks+1) % 60 < s.wheel.turn.capacity := by
    change _ < s.wheel.capacity
    rw [ticking.sized]; exact Nat.mod_lt _ (by decide)
  obtain ⟨news,cleared⟩ := TimerWheel.clear_cleared (w := s.wheel.turn) _ bound rfl
  refine ⟨_,news,cleared,?_⟩
  have ran : (TimerWheel.tickNums 1 s.wheel).ran = news ++ s.wheel.ran := by
    change (TimerWheel.clearSlot _ _ s.wheel.turn).ran = _
    rw [slot]; exact cleared.ran
  unfold turn
  dsimp only
  rw [ran,take_news]
  change ({s with wheel := TimerWheel.clearSlot _ _ s.wheel.turn, ticks := _, fired := _} : Clock) = _
  rw [slot]

theorem turn_ticking (ticking : Ticking s) : Ticking s.turn := by
  obtain ⟨wheel,news,cleared,turned⟩ := turn_cleared ticking
  rw [turned]; exact ticking.clear cleared

theorem set_cases (ticking : Ticking s) (id timeout : Nat) (timerFunc : List Nat) :
    s.setTimerTask id timeout timerFunc = s ∨ (s.wheel.timersRecord id = none ∧
      s.setTimerTask id timeout timerFunc = {s with
        wheel := s.wheel.setTimerTask id timeout timerFunc
        armed := update s.armed s.wheel.next s.ticks} ∧
      Armed s (s.wheel.setTimerTask id timeout timerFunc) (s.wheel.slotAfter timeout) s.wheel.next) := by
  unfold setTimerTask TimerWheel.setTimerTask
  split
  · exact .inl rfl
  · rename_i free
    refine .inr ⟨by simpa [TimerWheel.ifExists] using free,rfl,rfl,rfl,rfl,rfl,?_,?_,?_,?_,?_⟩
    · simp [TimerWheel.pushFront,TimerWheel.makeTask]
    · exact ⟨Nat.lt_succ_self _,Nat.le_succ _⟩
    · intro other apart
      refine ⟨by simp [TimerWheel.pushFront,TimerWheel.makeTask,apart],fun below => ?_⟩
      exact Nat.lt_of_le_of_ne (Nat.le_of_lt_succ below) apart
    · intro slot found
      exact absurd (ticking.placed slot _ found).2 (Nat.lt_irrefl _)
    · intro ran
      exact absurd (ticking.gone _ ran).1 (Nat.lt_irrefl _)

theorem refresh_cases (ticking : Ticking s) (id : Nat) :
    s.refreshTimerTask id = s ∨ ∃ key, s.wheel.timersRecord id = some key ∧
      s.refreshTimerTask id = {s with
        wheel := s.wheel.pushFront (s.wheel.slotAfter (s.wheel.tasks key).timeout) key
        armed := update s.armed key s.ticks} ∧
      Armed s (s.wheel.pushFront (s.wheel.slotAfter (s.wheel.tasks key).timeout) key)
        (s.wheel.slotAfter (s.wheel.tasks key).timeout) key := by
  unfold refreshTimerTask TimerWheel.refreshTimerTask
  cases locked : s.wheel.lock id with
  | none => exact .inl (by split <;> rfl)
  | some key =>
    obtain ⟨listed,live⟩ := (TimerWheel.lock_iff _ id key).mp locked
    obtain ⟨slot,_,member⟩ := (TimerWheel.alive_iff _ key).mp live
    refine .inr ⟨key,listed,?_,rfl,rfl,rfl,rfl,rfl,⟨(ticking.placed slot key member).2,Nat.le_refl _⟩,
      fun _ _ => ⟨rfl,fun below => below⟩,fun _ _ => rfl,fun ran => (ticking.gone key ran).2 slot member⟩
    simp [TimerWheel.ifExists,listed]

theorem tick_ticking (nums : Nat) (ticking : Ticking s) : Ticking (tickNums nums s) := by
  induction nums generalizing s with
  | zero => exact ticking
  | succ nums ih => exact ih (turn_ticking ticking)

theorem step_ticking (s : Clock) (op : Op) (next : Clock) (ticking : Ticking s)
    (taken : step s op = some next) : Ticking next := by
  cases op with
  | setTimerTask id timeout timerFunc =>
    cases taken
    rcases set_cases ticking id timeout timerFunc with same | ⟨_,equal,arm⟩
    · rw [same]; exact ticking
    · rw [equal]; exact ticking.arm arm
  | refreshTimerTask id =>
    cases taken
    rcases refresh_cases ticking id with same | ⟨key,_,equal,arm⟩
    · rw [same]; exact ticking
    · rw [equal]; exact ticking.arm arm
  | removeTimerTask id =>
    cases taken
    obtain ⟨_,wheels,_,_,ran,_⟩ := s.wheel.remove_frame id
    exact ticking.still (TimerWheel.remove_still s.wheel id) wheels ran
  | tick nums =>
    cases taken
    exact tick_ticking nums ticking

theorem run_ticking (ops : List Op) (ran : Machine.run step {} ops = some s) : Ticking s :=
  Machine.run_invariant step_ticking start_ticking ran

theorem Ticking.overdue (ticking : Ticking s) (made : key < s.wheel.next)
    (active : (s.wheel.tasks key).cancel = false)
    (late : s.armed key + reach (s.wheel.tasks key).timeout ≤ s.ticks) : ∃ m, (key,m) ∈ s.fired := by
  by_cases ran : key ∈ s.wheel.ran
  · rw [← ticking.stamped] at ran
    obtain ⟨⟨_,m⟩,found,rfl⟩ := List.mem_map.mp ran
    exact ⟨m,found⟩
  · obtain ⟨slot,found⟩ := ticking.waiting key made active ran
    have low := (ticking.placed slot key found).1
    -- the next tick that clears the slot
    have turn : (s.ticks + 1 + (slot + 60 - (s.ticks+1) % 60) % 60) % 60 = slot := by omega
    have early := ticking.due slot key found _ (by omega) (by omega) turn
    exact absurd (Nat.le_trans early late) (by omega)

theorem callbacks_exactly_once (ops : List Op) (s : Clock) (ran : Machine.run step {} ops = some s) :
    (s.wheel.tick < 60 ∧ (∀ timeout, s.wheel.slotAfter timeout < 60) ∧
      ∀ slot key, key ∈ s.wheel.wheels slot → slot < 60) ∧
    (s.fired.map Prod.fst).Nodup ∧ s.fired.map Prod.fst = s.wheel.ran ∧
    (∀ key m, (key,m) ∈ s.fired → m ≤ s.armed key + 60) ∧
    ∀ key < s.wheel.next, (s.wheel.tasks key).cancel = false →
      (key ∈ s.wheel.ran ∨ s.wheel.alive key = true) ∧
      (s.armed key + 60 ≤ s.ticks → ∃ m ≤ s.armed key + 60, (key,m) ∈ s.fired) := by
  have ticking := run_ticking ops ran
  have soon : ∀ key m, (key,m) ∈ s.fired → m ≤ s.armed key + 60 := by
    intro key m found
    have reached := reach_le (s.wheel.tasks key).timeout
    exact Nat.le_trans (ticking.punctual key m found).1 (Nat.add_le_add_left reached _)
  refine ⟨⟨?_,?_,fun slot key found => (ticking.placed slot key found).1⟩,?_,ticking.stamped,soon,?_⟩
  · rw [ticking.tick]; exact Nat.mod_lt _ (by decide)
  · intro timeout
    rw [TimerWheel.slotAfter,ticking.sized]; exact Nat.mod_lt _ (by decide)
  · rw [ticking.stamped]; exact ticking.once
  · intro key made active
    refine ⟨?_,fun late => ?_⟩
    · by_cases called : key ∈ s.wheel.ran
      · exact .inl called
      · obtain ⟨slot,found⟩ := ticking.waiting key made active called
        have bound : slot < s.wheel.capacity := by rw [ticking.sized]; exact (ticking.placed slot key found).1
        exact .inr ((TimerWheel.alive_iff _ key).mpr ⟨slot,bound,found⟩)
    · have reached := reach_le (s.wheel.tasks key).timeout
      obtain ⟨m,found⟩ := ticking.overdue made active (Nat.le_trans (Nat.add_le_add_left reached _) late)
      exact ⟨m,soon key m found,found⟩

def refreshed : List Op := [.setTimerTask 1 70 [1],.tick 3,.refreshTimerTask 1,.tick 60]

theorem callbacks_exactly_once_refreshed : ∃ s, Machine.run step {} refreshed = some s ∧
    (s.wheel.tick < 60 ∧ (∀ timeout, s.wheel.slotAfter timeout < 60) ∧
      ∀ slot key, key ∈ s.wheel.wheels slot → slot < 60) ∧
    (s.fired.map Prod.fst).Nodup ∧ s.fired.map Prod.fst = s.wheel.ran ∧
    (∀ key m, (key,m) ∈ s.fired → m ≤ s.armed key + 60) ∧ ∃ m ≤ s.armed 0 + 60, (0,m) ∈ s.fired := by
  obtain ⟨slots,once,fired,soon,called⟩ := callbacks_exactly_once refreshed _ rfl
  exact ⟨_,rfl,slots,once,fired,soon,(called 0 (by decide +kernel) (by decide +kernel)).2 (by decide +kernel)⟩

end Clock
end LinuxOS.Muduo
