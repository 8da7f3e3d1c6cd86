import LinuxOS.Watchdog
import LinuxOS.Muduo.TimerDeadline

namespace LinuxOS.Muduo

-- Of a connection: `_enable_inactive_release`, and whether ReleaseInLoop has run.
structure Idling where
  enable : Bool := false
  released : Bool := false
  deriving DecidableEq, Repr

-- The connections of one loop, by their timer id, beside the wheel of that loop.
structure InactiveRelease where
  clock : Clock := {}
  conns : Nat → Option Idling := fun _ => none

namespace InactiveRelease
open Function (update)
open Machine (run Throughout)
open TimerWheel (Sound Registered Held)

def change (s : InactiveRelease) (id : Nat) (f : Idling → Idling) : InactiveRelease :=
  {s with conns := update s.conns id ((s.conns id).map f)}

-- The callback calls ReleaseInLoop, which calls RemoveTimerTask on the same id.
def enableInactiveReleaseInLoop (s : InactiveRelease) (id sec : Nat) : InactiveRelease :=
  let on := s.change id fun c => {c with enable := true}
  if s.clock.wheel.ifExists id then {on with clock := s.clock.refreshTimerTask id}
  else {on with clock := s.clock.setTimerTask id sec [id]}

def cancelInactiveReleaseInLoop (s : InactiveRelease) (id : Nat) : InactiveRelease :=
  let off := s.change id fun c => {c with enable := false}
  if s.clock.wheel.ifExists id then
    {off with clock := {s.clock with wheel := s.clock.wheel.removeTimerTask id}}
  else off

def releaseInLoop (s : InactiveRelease) (id : Nat) : InactiveRelease :=
  let gone := s.change id fun c => {c with released := true}
  if s.clock.wheel.ifExists id then gone.cancelInactiveReleaseInLoop id else gone

def handleAnyEvent (s : InactiveRelease) (id : Nat) : InactiveRelease :=
  if (s.conns id).any (·.enable) then {s with clock := s.clock.refreshTimerTask id} else s

-- What the callback of a task does to its connection: ReleaseInLoop turns the
-- flag off if the registry still knows the id.
def expire (conns : Nat → Option Idling) (id : Nat) (known : Bool) : Nat → Option Idling :=
  update conns id ((conns id).map fun c => {enable := c.enable && !known, released := true})

def sweep (slot : Nat) : List Nat → TimerWheel → (Nat → Option Idling) → Nat → Option Idling
  | [],_,conns => conns
  | key :: rest,w,conns =>
    let dropped := w.dropFront slot rest
    if dropped.alive key then sweep slot rest dropped conns
    else sweep slot rest (dropped.destroy key)
      (if (dropped.tasks key).cancel then conns
        else expire conns (dropped.tasks key).id (dropped.ifExists (dropped.tasks key).id))

def turn (s : InactiveRelease) : InactiveRelease :=
  let w := s.clock.wheel.turn
  {clock := s.clock.turn, conns := sweep w.tick (w.wheels w.tick) w s.conns}

def tickNums : Nat → InactiveRelease → InactiveRelease
  | 0,s => s
  | nums+1,s => tickNums nums s.turn

-- `release` stands for every other way to ReleaseInLoop.
inductive Action where
  | accept (id : Nat)
  | enableInactiveRelease (id sec : Nat)
  | cancelInactiveRelease (id : Nat)
  | handleAnyEvent (id : Nat)
  | release (id : Nat)
  | tick (nums : Nat)
  deriving DecidableEq, Repr

def step (s : InactiveRelease) : Action → Option InactiveRelease
  | .accept id => if (s.conns id).isNone then some {s with conns := update s.conns id (some {})} else none
  | .enableInactiveRelease id sec =>
    if (s.conns id).isSome then some (s.enableInactiveReleaseInLoop id sec) else none
  | .cancelInactiveRelease id => if (s.conns id).isSome then some (s.cancelInactiveReleaseInLoop id) else none
  | .handleAnyEvent id => if (s.conns id).isSome then some (s.handleAnyEvent id) else none
  | .release id => if (s.conns id).isSome then some (s.releaseInLoop id) else none
  | .tick nums => some (tickNums nums s)

def follow (d : Watchdog Nat) : Action → Watchdog Nat
  | .accept id => d.join id
  | .enableInactiveRelease id sec => d.change id (·.enable d.now sec)
  | .cancelInactiveRelease id => d.change id Watched.disable
  | .handleAnyEvent id => d.change id (·.active d.now)
  | .release id => d.change id Watched.release
  | .tick nums => Watchdog.pass nums d

-- Release is not turned on for a connection that is gone. It is turned on with a
-- timeout that the wheel can tell, and again only after the time that the last
-- task had left: a cancelled task still takes the entry of its id along.
def Admitted (d : Watchdog Nat) : Action → Prop
  | .accept id => d.members id = none
  | .enableInactiveRelease id sec =>
    ∃ m ∈ d.members id, m.released = false ∧ (m.enabled = false → Clock.Short sec ∧ m.deadline ≤ d.now)
  | .cancelInactiveRelease id | .handleAnyEvent id | .release id => (d.members id).isSome = true
  | .tick _ => True

instance (d : Watchdog Nat) : DecidablePred (Admitted d)
  | .accept id => decidable_of_iff ((d.members id).isNone = true) (by simp [Admitted])
  | .enableInactiveRelease id sec => inferInstanceAs (Decidable (∃ m ∈ d.members id, m.released = false ∧ (_ → _)))
  | .cancelInactiveRelease id | .handleAnyEvent id | .release id =>
    inferInstanceAs (Decidable ((d.members id).isSome = true))
  | .tick _ => .isTrue trivial

-- The connections are as the watchdog has them, and who is still enabled has
-- been active within his timeout.
structure Follows (s : InactiveRelease) (d : Watchdog Nat) : Prop where
  time : s.clock.ticks = d.now
  conns : ∀ id, s.conns id = (d.members id).map fun m => ⟨m.enabled,m.released⟩
  waiting : ∀ id m, d.members id = some m → m.enabled = true → m.released = false ∧ d.now < m.deadline

-- The wheel has a pending task for exactly the ids that are turned on, and the
-- registry knows exactly the pending tasks. No older task of an id is in a slot.
structure Tied (w : TimerWheel) (conns : Nat → Option Idling) : Prop where
  sound : Sound w
  registered : Registered w
  listed : ∀ id key, w.timersRecord id = some key → w.pending id = some key
  calls : ∀ key < w.next, (w.tasks key).timerFunc = [(w.tasks key).id]
  current : ∀ slot key, key ∈ w.wheels slot → w.accepted (w.tasks key).id = some key
  enabled : ∀ id, (∃ key, w.pending id = some key) ↔ ∃ c, conns id = some c ∧ c.enable = true

variable {s : InactiveRelease} {d : Watchdog Nat} {w : TimerWheel} {conns conns' : Nat → Option Idling}
  {id key slot sec : Nat} {rest : List Nat}

theorem start_tied : Tied {} fun _ => none :=
  ⟨TimerWheel.start_sound,by simp [Registered,TimerWheel.pending],by simp,by simp,by simp,by simp [TimerWheel.pending]⟩

theorem Tied.exists_iff (tied : Tied w conns) (id : Nat) : w.ifExists id = true ↔ ∃ key, w.pending id = some key := by
  rw [TimerWheel.ifExists,Option.isSome_iff_exists]
  constructor
  · rintro ⟨key,found⟩; exact ⟨key,tied.listed id key found⟩
  · rintro ⟨key,waiting⟩; exact ⟨key,(tied.registered id key waiting).1⟩

theorem Tied.enable_iff (tied : Tied w conns) (found : conns id = some c) : w.ifExists id = c.enable := by
  apply Bool.eq_iff_iff.mpr
  rw [tied.exists_iff,tied.enabled]
  constructor
  · rintro ⟨c',same,on⟩
    rw [found] at same
    cases same; exact on
  · exact fun on => ⟨c,found,on⟩

theorem Tied.absent (tied : Tied w conns) (none' : conns id = none) : w.pending id = none := by
  cases waiting : w.pending id with
  | none => rfl
  | some key =>
    obtain ⟨c,found,_⟩ := (tied.enabled id).mp ⟨key,waiting⟩
    rw [none'] at found; cases found

theorem Tied.flags (tied : Tied w conns)
    (same : ∀ id, (∃ c, conns id = some c ∧ c.enable = true) ↔ ∃ c, conns' id = some c ∧ c.enable = true) :
    Tied w conns' :=
  ⟨tied.sound,tied.registered,tied.listed,tied.calls,tied.current,fun id => (tied.enabled id).trans (same id)⟩

theorem tasks_removed (w : TimerWheel) (id key : Nat) :
    ((w.removeTimerTask id).tasks key).timerFunc = (w.tasks key).timerFunc := by
  unfold TimerWheel.removeTimerTask
  dsimp only
  split
  · split
    · rename_i held _
      by_cases same : key = held
      · subst key; simp [TimerWheel.eraseRecord,TimerWheel.cancelTask]
      · simp [TimerWheel.eraseRecord,TimerWheel.cancelTask,same]
    · rfl
  · rfl

theorem record_removed (w : TimerWheel) (id : Nat) : (w.removeTimerTask id).timersRecord id = none := by
  unfold TimerWheel.removeTimerTask
  dsimp only
  split
  · split <;> simp [TimerWheel.eraseRecord]
  · rename_i unlisted
    simpa [TimerWheel.ifExists] using unlisted

theorem Tied.remove (tied : Tied w conns) (others : ∀ other ≠ id, conns' other = conns other)
    (off : ∀ c, conns' id = some c → c.enable = false) : Tied (w.removeTimerTask id) conns' := by
  obtain ⟨sound,registered⟩ := TimerWheel.remove_keeps tied.sound tied.registered id
  obtain ⟨_,wheels,made,accepted,_,_,_,records⟩ := w.remove_frame id
  refine ⟨sound,registered,?_,?_,?_,?_⟩
  · intro other key found
    rw [TimerWheel.pending_remove tied.sound]
    by_cases same : other = id
    · subst other
      rw [record_removed] at found; cases found
    · rw [if_neg same]
      rw [records other same] at found
      exact tied.listed other key found
  · intro key below
    rw [made] at below
    rw [tasks_removed,(TimerWheel.remove_tasks id key).1]
    exact tied.calls key below
  · intro slot key member
    rw [wheels] at member
    rw [accepted,(TimerWheel.remove_tasks id key).1]
    exact tied.current slot key member
  · intro other
    rw [TimerWheel.pending_remove tied.sound]
    by_cases same : other = id
    · subst other
      simp only [if_true,reduceCtorEq,exists_false,false_iff]
      rintro ⟨c,found,on⟩
      rw [off c found] at on; cases on
    · rw [if_neg same,others other same]
      exact tied.enabled other

theorem Tied.refresh (tied : Tied w conns) (waiting : w.pending id = some key) : Tied (w.refreshTimerTask id) conns := by
  obtain ⟨sound,registered⟩ := TimerWheel.refresh_keeps tied.sound tied.registered id
  have held := tied.registered id key waiting
  have listed : w.ifExists id = true := (tied.exists_iff id).mpr ⟨key,waiting⟩
  have pushed : w.refreshTimerTask id = w.pushFront (w.slotAfter (w.tasks key).timeout) key := by
    simp [TimerWheel.refreshTimerTask,listed,(TimerWheel.lock_iff w id key).mpr held]
  obtain ⟨newest,_,_⟩ := (TimerWheel.pending_iff w id key).mp waiting
  rw [pushed] at sound registered ⊢
  refine ⟨sound,registered,tied.listed,tied.calls,?_,tied.enabled⟩
  intro slot other member
  by_cases same : other = key
  · subst other
    show w.accepted (w.tasks key).id = some key
    rw [(tied.sound.own id key newest).1]; exact newest
  · by_cases here : slot = w.slotAfter (w.tasks key).timeout
    · subst slot
      simp only [TimerWheel.pushFront,Function.update_self,List.mem_cons,same,false_or] at member
      exact tied.current _ other member
    · exact tied.current slot other (by simpa [TimerWheel.pushFront,here] using member)

theorem set_fresh (unlisted : w.ifExists id = false) (timerFunc : List Nat) : w.setTimerTask id sec timerFunc =
    {(w.makeTask id sec timerFunc).pushFront (w.slotAfter sec) w.next with
      timersRecord := update w.timersRecord id (some w.next)} := by
  unfold TimerWheel.setTimerTask
  rw [if_neg (by simp [unlisted])]
  rfl

theorem pending_set (sound : Sound w) (unlisted : w.ifExists id = false) (timerFunc : List Nat) (other : Nat) :
    (w.setTimerTask id sec timerFunc).pending other = if other = id then some w.next else w.pending other := by
  rw [set_fresh unlisted]
  exact (TimerWheel.pending_made sound other : (w.makeTask id sec timerFunc).pending other = _)

theorem Tied.set (tied : Tied w conns) (unlisted : w.ifExists id = false)
    (clear : ∀ slot key, key ∈ w.wheels slot → (w.tasks key).id ≠ id)
    (others : ∀ other ≠ id, conns' other = conns other) (on : ∃ c, conns' id = some c ∧ c.enable = true) :
    Tied (w.setTimerTask id sec [id]) conns' := by
  obtain ⟨sound,registered⟩ := TimerWheel.set_keeps tied.sound tied.registered id sec [id]
  have pending : ∀ other, (w.setTimerTask id sec [id]).pending other = _ := pending_set tied.sound unlisted [id]
  rw [set_fresh unlisted] at sound registered pending ⊢
  refine ⟨sound,registered,?_,?_,?_,?_⟩
  · intro other key found
    rw [pending]
    by_cases same : other = id
    · subst other
      simpa using found
    · rw [if_neg same]
      exact tied.listed other key (by simpa [same] using found)
  · intro key below
    show ((w.makeTask id sec [id]).tasks key).timerFunc = [((w.makeTask id sec [id]).tasks key).id]
    by_cases same : key = w.next
    · subst key; simp [TimerWheel.makeTask]
    · have old : key < w.next := Nat.lt_of_le_of_ne (Nat.le_of_lt_succ below) same
      rw [TimerWheel.made_tasks old]
      exact tied.calls key old
  · intro slot key member
    show update w.accepted id (some w.next) ((w.makeTask id sec [id]).tasks key).id = some key
    have found : key = w.next ∨ key ∈ w.wheels slot := by
      by_cases here : slot = w.slotAfter sec
      · subst slot
        simpa [TimerWheel.pushFront,TimerWheel.makeTask] using member
      · exact .inr (by simpa [TimerWheel.pushFront,TimerWheel.makeTask,here] using member)
    rcases found with rfl | old
    · simp [TimerWheel.makeTask]
    · rw [TimerWheel.made_tasks (tied.sound.placed slot key old),Function.update_of_ne (clear slot key old)]
      exact tied.current slot key old
  · intro other
    rw [pending]
    by_cases same : other = id
    · subst other
      simpa using on
    · rw [if_neg same,others other same]
      exact tied.enabled other

def Swept (w next : TimerWheel) (conns conns' : Nat → Option Idling) (id : Nat) : Prop :=
  next.pending id = w.pending id ∧ conns' id = conns id ∨
  next.pending id = none ∧ conns' id = (conns id).map (fun _ => ⟨false,true⟩) ∧
    ∃ key, w.pending id = some key ∧ key ∈ next.ran

theorem Swept.trans {middle next : TimerWheel} {between : Nat → Option Idling}
    (first : Swept w middle conns between id) (second : Swept middle next between conns' id)
    (ran : ∀ key ∈ middle.ran, key ∈ next.ran) : Swept w next conns conns' id := by
  rcases first with ⟨pending,same⟩ | ⟨none',released,key,waiting,called⟩
  · rcases second with ⟨pending',same'⟩ | ⟨none',released,key,waiting,called⟩
    · exact .inl ⟨pending'.trans pending,same'.trans same⟩
    · exact .inr ⟨none',by rw [released,same],key,pending ▸ waiting,called⟩
  · rcases second with ⟨pending',same'⟩ | ⟨_,_,other,waiting',_⟩
    · exact .inr ⟨pending'.trans none',same'.trans released,key,waiting,ran key called⟩
    · rw [none'] at waiting'; cases waiting'

theorem Tied.drop (tied : Tied w conns) (placed : w.wheels slot = key :: rest)
    (live : (w.dropFront slot rest).alive key = true) : Tied (w.dropFront slot rest) conns := by
  refine ⟨TimerWheel.drop_sound tied.sound placed,?_,tied.listed,tied.calls,?_,tied.enabled⟩
  · intro id other waiting
    obtain ⟨listed,alive⟩ := tied.registered id other waiting
    refine ⟨listed,?_⟩
    by_cases same : other = key
    · subst other; exact live
    · exact (TimerWheel.alive_drop placed other).2 same alive
  · intro slot' other member
    have old : other ∈ w.wheels slot' := by
      by_cases here : slot' = slot
      · subst slot'
        rw [placed]
        exact List.mem_cons_of_mem _ (by simpa [TimerWheel.dropFront] using member)
      · simpa [TimerWheel.dropFront,here] using member
    exact tied.current slot' other old

theorem destroy_called (active : (w.tasks key).cancel = false) (calls : (w.tasks key).timerFunc = [(w.tasks key).id]) :
    w.destroy key = (w.called key).removeTimerTask (w.tasks key).id := by
  unfold TimerWheel.destroy TimerWheel.removeFromTimerWheel
  simp only [active,calls,Bool.false_eq_true,if_false,List.foldl_cons,List.foldl_nil]
  refine if_neg ?_
  rw [Bool.not_eq_true,TimerWheel.ifExists,Option.isSome_eq_false_iff,Option.isNone_iff_eq_none]
  exact record_removed _ _

theorem destroy_cancelled (cancelled : (w.tasks key).cancel = true) (unlisted : w.timersRecord (w.tasks key).id = none) :
    w.destroy key = w := by
  unfold TimerWheel.destroy TimerWheel.removeFromTimerWheel
  simp [cancelled,TimerWheel.ifExists,unlisted]

-- The last reference to a task goes. It is the newest task of its id.
theorem Tied.dying (tied : Tied w conns) (placed : w.wheels slot = key :: rest)
    (dead : (w.dropFront slot rest).alive key = false) :
    w.accepted (w.tasks key).id = some key ∧ Sound ((w.dropFront slot rest).destroy key) ∧
      Registered ((w.dropFront slot rest).destroy key) ∧
      ((w.dropFront slot rest).destroy key).wheels = (w.dropFront slot rest).wheels := by
  have member : key ∈ w.wheels slot := by rw [placed]; exact List.mem_cons_self
  have newest := tied.current slot key member
  refine ⟨newest,TimerWheel.destroy_keeps (TimerWheel.drop_sound tied.sound placed) (tied.sound.placed slot key member) dead
    ?_ ?_⟩
  · intro id other apart waiting
    obtain ⟨listed,live⟩ := tied.registered id other waiting
    exact ⟨listed,(TimerWheel.alive_drop placed other).2 apart live⟩
  · show (w.pending (w.tasks key).id).any _ = false
    cases waiting : w.pending (w.tasks key).id with
    | none => rfl
    | some other =>
      have same := ((TimerWheel.pending_iff w _ other).mp waiting).1
      rw [newest] at same
      cases same
      simp

theorem dropped_found (placed : w.wheels slot = key :: rest) (other at' : Nat)
    (found : at' ∈ (w.dropFront slot rest).wheels other) : at' ∈ w.wheels other := by
  by_cases here : other = slot
  · subst other
    rw [placed]
    exact List.mem_cons_of_mem _ (by simpa [TimerWheel.dropFront] using found)
  · simpa [TimerWheel.dropFront,here] using found

theorem Tied.destroy_cancelled (tied : Tied w conns) (placed : w.wheels slot = key :: rest)
    (dead : (w.dropFront slot rest).alive key = false) (cancelled : (w.tasks key).cancel = true) :
    (w.dropFront slot rest).destroy key = w.dropFront slot rest ∧ Tied (w.dropFront slot rest) conns := by
  obtain ⟨newest,_,registered,_⟩ := tied.dying placed dead
  have unlisted : w.timersRecord (w.tasks key).id = none := by
    cases found : w.timersRecord (w.tasks key).id with
    | none => rfl
    | some other =>
      have waiting := tied.listed _ other found
      have same := ((TimerWheel.pending_iff w _ other).mp waiting).1
      rw [newest] at same
      cases same
      rw [tied.sound.uncancelled _ key waiting] at cancelled; cases cancelled
  have still : (w.dropFront slot rest).destroy key = w.dropFront slot rest := InactiveRelease.destroy_cancelled cancelled unlisted
  rw [still] at registered
  exact ⟨still,TimerWheel.drop_sound tied.sound placed,registered,tied.listed,tied.calls,
    fun other at' found => tied.current other at' (dropped_found placed other at' found),tied.enabled⟩

theorem Tied.destroy_called (tied : Tied w conns) (bound : slot < w.capacity) (placed : w.wheels slot = key :: rest)
    (dead : (w.dropFront slot rest).alive key = false) (active : (w.tasks key).cancel = false) :
    Tied ((w.dropFront slot rest).destroy key) (expire conns (w.tasks key).id (w.ifExists (w.tasks key).id)) ∧
      ∀ id, Swept w ((w.dropFront slot rest).destroy key) conns
        (expire conns (w.tasks key).id (w.ifExists (w.tasks key).id)) id := by
  obtain ⟨newest,ends,registered,wheels⟩ := tied.dying placed dead
  have member : key ∈ w.wheels slot := by rw [placed]; exact List.mem_cons_self
  have below := tied.sound.placed slot key member
  have unran : key ∉ w.ran := fun ran => by
    have live := (TimerWheel.alive_iff w key).mpr ⟨slot,bound,member⟩
    rw [(tied.sound.gone key ran).2] at live; cases live
  have kept : key ∉ w.removed := fun removed => by
    have cancelled := (tied.sound.stopped key removed).2.1
    rw [active] at cancelled; cases cancelled
  have waiting : w.pending (w.tasks key).id = some key :=
    (TimerWheel.pending_iff w _ key).mpr ⟨newest,unran,kept⟩
  have released : expire conns (w.tasks key).id (w.ifExists (w.tasks key).id) =
      update conns (w.tasks key).id ((conns (w.tasks key).id).map fun _ => ⟨false,true⟩) := by
    rw [(tied.exists_iff _).mpr ⟨key,waiting⟩,expire]
    simp only [Bool.not_true,Bool.and_false]
  have called : (w.dropFront slot rest).destroy key = _ := InactiveRelease.destroy_called active (tied.calls key below)
  have entered : Sound ((w.dropFront slot rest).called key) :=
    TimerWheel.called_sound (TimerWheel.drop_sound tied.sound placed) below dead active
  obtain ⟨_,_,made,accepted,ran,_,_,records⟩ := ((w.dropFront slot rest).called key).remove_frame (w.tasks key).id
  have pending : ∀ other, ((w.dropFront slot rest).destroy key).pending other =
      if other = (w.tasks key).id then none else w.pending other := by
    intro other
    rw [called,TimerWheel.pending_remove entered]
    by_cases same : other = (w.tasks key).id
    · rw [if_pos same]; exact if_pos same
    · rw [if_neg same]
      refine (if_neg same).trans (Option.ext fun one => ?_)
      rw [TimerWheel.called_pending]
      refine ⟨fun found => found.1,fun found => ⟨found,?_⟩⟩
      rintro rfl
      exact same (TimerWheel.accepted_id tied.sound newest ((TimerWheel.pending_iff w other _).mp found).1)
  rw [released]
  refine ⟨⟨ends,registered,?_,?_,?_,?_⟩,?_⟩
  · intro other one found
    rw [pending]
    rw [called] at found
    by_cases same : other = (w.tasks key).id
    · subst other
      have none' : TimerWheel.timersRecord _ (w.tasks key).id = none :=
        record_removed ((w.dropFront slot rest).called key) (w.tasks key).id
      exact absurd (none'.symm.trans found) nofun
    · rw [if_neg same]
      exact tied.listed other one ((records other same).symm.trans found)
  · intro one low
    rw [called] at low ⊢
    rw [tasks_removed,(TimerWheel.remove_tasks _ one).1]
    exact tied.calls one (Nat.lt_of_lt_of_eq low made)
  · intro slot' one found
    rw [wheels] at found
    rw [called,(TimerWheel.remove_tasks _ one).1]
    exact (congrFun accepted _).trans (tied.current slot' one (dropped_found placed slot' one found))
  · intro other
    rw [pending]
    by_cases same : other = (w.tasks key).id
    · subst other
      simp
    · rw [if_neg same,Function.update_of_ne same]
      exact tied.enabled other
  · intro other
    rw [Swept,pending]
    by_cases same : other = (w.tasks key).id
    · subst other
      refine .inr ⟨if_pos rfl,Function.update_self ..,key,waiting,?_⟩
      rw [called]
      exact ran.symm ▸ List.mem_cons_self
    · exact .inl ⟨if_neg same,Function.update_of_ne same ..⟩

theorem ran_destroyed (w : TimerWheel) (key : Nat) (other : Nat) (ran : other ∈ w.ran) : other ∈ (w.destroy key).ran := by
  rw [(TimerWheel.destroy_still w key).2.2]
  split
  · exact ran
  · exact List.mem_cons_of_mem _ ran

theorem sweep_tied (keys : List Nat) (tied : Tied w conns) (bound : slot < w.capacity) (placed : w.wheels slot = keys) :
    Tied (TimerWheel.clearSlot slot keys w) (sweep slot keys w conns) ∧
      (∀ id, Swept w (TimerWheel.clearSlot slot keys w) conns (sweep slot keys w conns) id) ∧
      ∀ key ∈ w.ran, key ∈ (TimerWheel.clearSlot slot keys w).ran := by
  induction keys generalizing w conns with
  | nil => exact ⟨tied,fun _ => .inl ⟨rfl,rfl⟩,fun _ ran => ran⟩
  | cons key rest ih =>
    have left : (w.dropFront slot rest).wheels slot = rest := Function.update_self ..
    simp only [TimerWheel.clearSlot,sweep]
    split
    · rename_i live
      exact ih (tied.drop placed live) bound left
    · rename_i dead
      have dead : (w.dropFront slot rest).alive key = false := by simpa using dead
      obtain ⟨still,wheels,_⟩ := (w.dropFront slot rest).destroy_still key
      have room : slot < ((w.dropFront slot rest).destroy key).capacity := by rw [still.capacity]; exact bound
      have kept := ran_destroyed (w.dropFront slot rest) key
      split
      · rename_i cancelled
        obtain ⟨same,first⟩ := tied.destroy_cancelled placed dead cancelled
        rw [same]
        exact ih first bound left
      · rename_i active
        obtain ⟨first,swept⟩ := tied.destroy_called bound placed dead (Bool.eq_false_iff.mpr active)
        obtain ⟨last,later,grows⟩ := ih first room (by rw [wheels]; exact left)
        exact ⟨last,fun id => (swept id).trans (later id) grows,fun one ran => grows one (kept one ran)⟩

-- What is in a slot was armed when its connection was last active.
structure Related (s : InactiveRelease) (d : Watchdog Nat) : Prop where
  time : s.clock.ticks = d.now
  conns : ∀ id, s.conns id = (d.members id).map fun m => ⟨m.enabled,m.released⟩
  tied : Tied s.clock.wheel s.conns
  ticking : Clock.Ticking s.clock
  armed : ∀ slot key, key ∈ s.clock.wheel.wheels slot → ∃ m, d.members (s.clock.wheel.tasks key).id = some m ∧
    s.clock.armed key = m.activity ∧ (s.clock.wheel.tasks key).timeout = m.timeout ∧ Clock.Short m.timeout
  ahead : d.Ahead

theorem start_related : Related {} {} :=
  ⟨rfl,fun _ => rfl,start_tied,Clock.start_ticking,by simp,by simp [Watchdog.Ahead]⟩

theorem Related.follows (related : Related s d) : Follows s d :=
  ⟨related.time,related.conns,fun id m member on => ⟨(related.ahead id m member on).1,(related.ahead id m member on).2.2⟩⟩

theorem Related.exists_eq (related : Related s d) (member : d.members id = some m) : s.clock.wheel.ifExists id = m.enabled :=
  related.tied.enable_iff (c := ⟨m.enabled,m.released⟩) (by rw [related.conns,member]; rfl)

theorem join_related (related : Related s d) (new : d.members id = none) :
    Related {s with conns := update s.conns id (some {})} (d.join id) := by
  have none' : s.conns id = none := by rw [related.conns,new]; rfl
  refine ⟨related.time,fun other => ?_,related.tied.flags fun other => ?_,related.ticking,fun slot key found => ?_,
    related.ahead.join id⟩
  · by_cases same : other = id
    · subst other; simp [Watchdog.join]
    · simpa [Watchdog.join,same] using related.conns other
  · by_cases same : other = id
    · subst other; simp [none']
    · simp [same]
  · obtain ⟨m,member,was⟩ := related.armed slot key found
    have apart : (s.clock.wheel.tasks key).id ≠ id := fun same => by
      rw [same,new] at member; cases member
    exact ⟨m,by simpa [Watchdog.join,apart] using member,was⟩

theorem lingers {c : Clock} (ticking : c.Ticking) (found : key ∈ c.wheel.wheels slot) :
    c.ticks < c.armed key + Clock.reach (c.wheel.tasks key).timeout := by
  have low := (ticking.placed slot key found).1
  -- the next tick that clears the slot
  have turn : (c.ticks + 1 + (slot + 60 - (c.ticks+1) % 60) % 60) % 60 = slot := by omega
  have early := ticking.due slot key found _ (by omega) (by omega) turn
  omega

theorem Related.lingers (related : Related s d) (found : key ∈ s.clock.wheel.wheels slot) :
    ∃ m, d.members (s.clock.wheel.tasks key).id = some m ∧ d.now < m.deadline := by
  obtain ⟨m,member,activity,timeout,short⟩ := related.armed slot key found
  have early := InactiveRelease.lingers related.ticking found
  rw [timeout,Clock.reach_short short,related.time,activity] at early
  exact ⟨m,member,early⟩

theorem Related.waiting (related : Related s d) (member : d.members id = some m) (on : m.enabled = true) :
    ∃ key slot, s.clock.wheel.pending id = some key ∧ key ∈ s.clock.wheel.wheels slot ∧
      (s.clock.wheel.tasks key).id = id := by
  have flag : s.conns id = some ⟨m.enabled,m.released⟩ := by rw [related.conns,member]; rfl
  obtain ⟨key,waiting⟩ := (related.tied.enabled id).mpr ⟨_,flag,on⟩
  obtain ⟨slot,_,found⟩ := (TimerWheel.alive_iff _ key).mp (related.tied.registered id key waiting).2
  have newest := ((TimerWheel.pending_iff _ id key).mp waiting).1
  exact ⟨key,slot,waiting,found,(related.tied.sound.own id key newest).1⟩

theorem change_member {f : Watched → Watched} (member : d.members id = some m) (other : Nat) :
    (d.change id f).members other = if other = id then some (f m) else d.members other := by
  by_cases same : other = id
  · subst other; simp [Watchdog.change,member]
  · simp [Watchdog.change,same]

theorem touch_related (related : Related s d) (member : d.members id = some m) (on : m.enabled = true)
    {f : Watched → Watched} (touched : f m = {m with activity := d.now}) :
    Related {s with clock := s.clock.refreshTimerTask id} (d.change id f) := by
  obtain ⟨key,slot,waiting,found,owner⟩ := related.waiting member on
  have held := (TimerWheel.lock_iff _ id key).mpr (related.tied.registered id key waiting)
  have listed : s.clock.wheel.ifExists id = true := (related.tied.exists_iff id).mpr ⟨key,waiting⟩
  have refreshed : s.clock.refreshTimerTask id = {s.clock with
      wheel := s.clock.wheel.pushFront (s.clock.wheel.slotAfter (s.clock.wheel.tasks key).timeout) key
      armed := update s.clock.armed key s.clock.ticks} := by
    simp [Clock.refreshTimerTask,TimerWheel.refreshTimerTask,listed,held]
  refine ⟨?_,fun other => ?_,related.tied.refresh waiting,?_,fun slot' other member' => ?_,
    related.ahead.change id f fun old member' => ?_⟩
  · rw [refreshed]; exact related.time
  · rw [change_member member]
    by_cases same : other = id
    · subst other
      rw [if_pos rfl,touched,related.conns,member]; rfl
    · rw [if_neg same]; exact related.conns other
  · exact Clock.step_ticking s.clock (.refreshTimerTask id) _ related.ticking rfl
  · rw [change_member member]
    rw [refreshed] at member' ⊢
    by_cases same : other = key
    · subst other
      obtain ⟨old,member',_,timeout,short⟩ := related.armed slot key found
      rw [owner,member] at member'
      cases member'
      refine ⟨f m,if_pos owner,?_,by rw [touched]; exact timeout,by rw [touched]; exact short⟩
      rw [touched]
      exact (Function.update_self ..).trans related.time
    · have old : other ∈ s.clock.wheel.wheels slot' := by
        by_cases here : slot' = s.clock.wheel.slotAfter (s.clock.wheel.tasks key).timeout
        · subst slot'
          simpa [TimerWheel.pushFront,same] using member'
        · simpa [TimerWheel.pushFront,here] using member'
      obtain ⟨m',was,activity,rest⟩ := related.armed slot' other old
      have apart : (s.clock.wheel.tasks other).id ≠ id := fun equal => by
        have newest := related.tied.current slot' other old
        rw [equal,((TimerWheel.pending_iff _ id key).mp waiting).1] at newest
        exact same (Option.some.inj newest).symm
      exact ⟨m',(if_neg apart).trans was,(Function.update_of_ne same ..).trans activity,rest⟩
  · rw [member] at member'
    cases member'
    rw [touched]
    exact (related.ahead id m member).touch

theorem set_related (related : Related s d) (member : d.members id = some m) (off : m.enabled = false)
    (there : m.released = false) (short : Clock.Short sec) (quiet : m.deadline ≤ d.now) :
    Related {clock := s.clock.setTimerTask id sec [id], conns := update s.conns id (some ⟨true,m.released⟩)}
      (d.change id (·.enable d.now sec)) := by
  have unlisted : s.clock.wheel.ifExists id = false := (related.exists_eq member).trans off
  have clear : ∀ slot key, key ∈ s.clock.wheel.wheels slot → (s.clock.wheel.tasks key).id ≠ id := by
    intro slot key found same
    obtain ⟨m',member',later⟩ := related.lingers found
    rw [same,member] at member'
    cases member'
    exact absurd quiet (Nat.not_le_of_lt later)
  have fresh : m.enable d.now sec = {m with enabled := true, timeout := sec, activity := d.now} := by
    simp [Watched.enable,off]
  have set : s.clock.setTimerTask id sec [id] = {s.clock with
      wheel := {(s.clock.wheel.makeTask id sec [id]).pushFront (s.clock.wheel.slotAfter sec) s.clock.wheel.next with
        timersRecord := update s.clock.wheel.timersRecord id (some s.clock.wheel.next)}
      armed := update s.clock.armed s.clock.wheel.next s.clock.ticks} := by
    rw [Clock.setTimerTask,set_fresh unlisted,if_neg (by simp [unlisted])]
  refine ⟨?time,fun other => ?conns,?tied,?ticking,fun slot key found => ?armed,related.ahead.change id _ fun old member' => ?ahead⟩
  case time => rw [set]; exact related.time
  case conns =>
    rw [change_member member]
    by_cases same : other = id
    · subst other
      simp [fresh]
    · simpa [same] using related.conns other
  case tied => exact related.tied.set unlisted clear (fun other apart => Function.update_of_ne apart ..) ⟨_,Function.update_self ..,rfl⟩
  case ticking => exact Clock.step_ticking s.clock (.setTimerTask id sec [id]) _ related.ticking rfl
  case armed =>
    rw [change_member member]
    rw [set] at found ⊢
    by_cases same : key = s.clock.wheel.next
    · subst key
      refine ⟨m.enable d.now sec,if_pos (by simp [TimerWheel.makeTask,TimerWheel.pushFront]),?_,?_,by rw [fresh]; exact short⟩
      · rw [fresh]
        exact (Function.update_self ..).trans related.time
      · simp [fresh,TimerWheel.makeTask,TimerWheel.pushFront]
    · have old : key ∈ s.clock.wheel.wheels slot := by
        by_cases here : slot = s.clock.wheel.slotAfter sec
        · subst slot
          simpa [TimerWheel.pushFront,TimerWheel.makeTask,same] using found
        · simpa [TimerWheel.pushFront,TimerWheel.makeTask,here] using found
      have tasks : (s.clock.wheel.makeTask id sec [id]).tasks key = s.clock.wheel.tasks key :=
        TimerWheel.made_tasks (related.tied.sound.placed slot key old)
      obtain ⟨m',was,activity,timeout,rest⟩ := related.armed slot key old
      have owner := congrArg TimerTask.id tasks
      have apart : ((s.clock.wheel.makeTask id sec [id]).tasks key).id ≠ id := by rw [owner]; exact clear slot key old
      exact ⟨m',(if_neg apart).trans ((congrArg d.members owner).trans was),(Function.update_of_ne same ..).trans activity,
        (congrArg TimerTask.timeout tasks).trans timeout,rest⟩
  case ahead =>
    rw [member] at member'
    cases member'
    exact (related.ahead id m member).enable there fun _ => short.1

theorem stop_related (related : Related s d) (member : d.members id = some m) {f : Watched → Watched} {c : Idling}
    (off : (f m).enabled = false) (activity : (f m).activity = m.activity) (timeout : (f m).timeout = m.timeout)
    (flags : c = ⟨false,(f m).released⟩) :
    Related {
      clock := if s.clock.wheel.ifExists id then {s.clock with wheel := s.clock.wheel.removeTimerTask id} else s.clock
      conns := update s.conns id (some c)} (d.change id f) := by
  have viewed : ∀ other, update s.conns id (some c) other =
      ((d.change id f).members other).map fun m => ⟨m.enabled,m.released⟩ := by
    intro other
    rw [change_member member]
    by_cases same : other = id
    · subst other; simp [flags,off]
    · simpa [same] using related.conns other
  have ahead : (d.change id f).Ahead := related.ahead.change id f fun old member' => by
    rw [member] at member'
    cases member'
    intro on
    rw [off] at on; cases on
  have armed : ∀ slot key, key ∈ s.clock.wheel.wheels slot →
      ∃ m', (d.change id f).members (s.clock.wheel.tasks key).id = some m' ∧
      s.clock.armed key = m'.activity ∧ (s.clock.wheel.tasks key).timeout = m'.timeout ∧ Clock.Short m'.timeout := by
    intro slot key found
    obtain ⟨m',was,rest⟩ := related.armed slot key found
    rw [change_member member]
    by_cases same : (s.clock.wheel.tasks key).id = id
    · rw [same,member] at was
      cases was
      exact ⟨f m,if_pos same,by rw [activity,timeout]; exact rest⟩
    · exact ⟨m',(if_neg same).trans was,rest⟩
  split
  · have still := TimerWheel.remove_still s.clock.wheel id
    have wheels := (s.clock.wheel.remove_frame id).2.1
    refine ⟨related.time,viewed,?_,Clock.step_ticking s.clock (.removeTimerTask id) _ related.ticking rfl,?_,ahead⟩
    · apply related.tied.remove (fun other apart => Function.update_of_ne apart ..)
      intro c' found
      change update s.conns id (some c) id = some c' at found
      rw [Function.update_self,flags] at found
      cases found; rfl
    · intro slot key found
      change key ∈ (s.clock.wheel.removeTimerTask id).wheels slot at found
      rw [wheels] at found
      simp only [still.owner,still.timeout]
      exact armed slot key found
  · rename_i unlisted
    have was : m.enabled = false := (related.exists_eq member).symm.trans (Bool.eq_false_iff.mpr unlisted)
    refine ⟨related.time,viewed,related.tied.flags fun other => ?_,related.ticking,armed,ahead⟩
    by_cases same : other = id
    · subst other
      simp [related.conns,member,was,flags]
    · simp [same]

theorem expire_quiet {m : Watched} {now : Nat} (later : m.enabled = true → now < m.deadline) : m.expire now = m :=
  if_neg fun due => absurd due.2 (Nat.not_le_of_lt (later due.1))

theorem expire_same (m : Watched) (now : Nat) : (m.expire now).activity = m.activity ∧ (m.expire now).timeout = m.timeout := by
  unfold Watched.expire
  split <;> exact ⟨rfl,rfl⟩

theorem turn_tied (related : Related s d) : Tied s.turn.clock.wheel s.turn.conns ∧
    ∀ id, Swept s.clock.wheel s.turn.clock.wheel s.conns s.turn.conns id := by
  have sound := related.tied.sound
  have turned : Tied s.clock.wheel.turn s.conns :=
    ⟨⟨sound.sized,sound.placed,sound.own,sound.entry,sound.uncancelled,sound.gone,sound.stopped⟩,
      related.tied.registered,related.tied.listed,related.tied.calls,related.tied.current,related.tied.enabled⟩
  have bound : s.clock.wheel.turn.tick < s.clock.wheel.turn.capacity := Nat.mod_lt _ sound.sized
  obtain ⟨tied,swept,_⟩ := sweep_tied _ turned bound rfl
  exact ⟨tied,swept⟩

structure Turned (s next : InactiveRelease) (news : List Nat) : Prop where
  ticks : next.clock.ticks = s.clock.ticks+1
  armed : next.clock.armed = s.clock.armed
  fired : next.clock.fired = news.map (·,s.clock.ticks+1) ++ s.clock.fired
  owner : ∀ key, (next.clock.wheel.tasks key).id = (s.clock.wheel.tasks key).id
  timeout : ∀ key, (next.clock.wheel.tasks key).timeout = (s.clock.wheel.tasks key).timeout
  placed : ∀ slot key, key ∈ next.clock.wheel.wheels slot → key ∈ s.clock.wheel.wheels slot

theorem turn_turned (ticking : s.clock.Ticking) : ∃ news, Turned s s.turn news := by
  obtain ⟨wheel,news,cleared,equal⟩ := Clock.turn_cleared ticking
  have same : s.turn.clock = _ := equal
  refine ⟨news,?_,?_,?_,?_,?_,?_⟩ <;> rw [same]
  · exact cleared.owner
  · exact cleared.timeout
  · exact fun slot key found => (cleared.elsewhere slot key found).2

theorem turn_member (member : d.members id = some m) : d.turn.members id = some (m.expire (d.now+1)) := by
  rw [Watchdog.turn]
  simp only [member,Option.map_some]

theorem turn_armed (related : Related s d) (slot key : Nat) (found : key ∈ s.turn.clock.wheel.wheels slot) :
    ∃ m, d.turn.members (s.turn.clock.wheel.tasks key).id = some m ∧ s.turn.clock.armed key = m.activity ∧
      (s.turn.clock.wheel.tasks key).timeout = m.timeout ∧ Clock.Short m.timeout := by
  obtain ⟨news,turned⟩ := turn_turned related.ticking
  obtain ⟨m,member,activity,timeout,short⟩ := related.armed slot key (turned.placed slot key found)
  obtain ⟨activity',timeout'⟩ := expire_same m (d.now+1)
  rw [turned.owner,turned.armed,turned.timeout]
  exact ⟨_,turn_member member,by rw [activity']; exact activity,by rw [timeout']; exact timeout,by rw [timeout']; exact short⟩

-- Whoever still has a task in a slot has time left.
theorem turn_waiting (related : Related s d) (member : d.members id = some m) (waiting : s.turn.clock.wheel.pending id = some key) :
    d.now+1 < m.deadline := by
  obtain ⟨tied,_⟩ := turn_tied related
  obtain ⟨news,turned⟩ := turn_turned related.ticking
  obtain ⟨slot,_,found⟩ := (TimerWheel.alive_iff _ key).mp (tied.registered id key waiting).2
  have newest := ((TimerWheel.pending_iff _ id key).mp waiting).1
  obtain ⟨m',member',activity,timeout,short⟩ := turn_armed related slot key found
  have early := lingers (Clock.turn_ticking related.ticking) found
  change s.turn.clock.ticks < s.turn.clock.armed key + Clock.reach (s.turn.clock.wheel.tasks key).timeout at early
  rw [timeout,Clock.reach_short short,turned.ticks,related.time,activity] at early
  rw [(tied.sound.own id key newest).1,turn_member member] at member'
  cases member'
  obtain ⟨activity',timeout'⟩ := expire_same m (d.now+1)
  rw [activity',timeout'] at early
  exact early

-- Whoever's task was called had been quiet for his whole timeout.
theorem turn_called (related : Related s d) (member : d.members id = some m) (waiting : s.clock.wheel.pending id = some key)
    (called : key ∈ s.turn.clock.wheel.ran) : m.enabled = true ∧ m.deadline ≤ d.now+1 := by
  obtain ⟨news,turned⟩ := turn_turned related.ticking
  have ticking := Clock.turn_ticking related.ticking
  obtain ⟨newest,unran,_⟩ := (TimerWheel.pending_iff _ id key).mp waiting
  have flag : s.conns id = some ⟨m.enabled,m.released⟩ := by rw [related.conns,member]; rfl
  obtain ⟨c,found,on⟩ := (related.tied.enabled id).mp ⟨key,waiting⟩
  rw [flag] at found
  cases found
  obtain ⟨slot,_,placed⟩ := (TimerWheel.alive_iff _ key).mp (related.tied.registered id key waiting).2
  obtain ⟨m',member',activity,timeout,short⟩ := related.armed slot key placed
  rw [(related.tied.sound.own id key newest).1,member] at member'
  cases member'
  have stamped : (key,s.clock.ticks+1) ∈ s.turn.clock.fired := by
    have ran : key ∈ s.turn.clock.fired.map Prod.fst := by
      rw [show s.turn.clock.fired.map Prod.fst = _ from ticking.stamped]; exact called
    obtain ⟨⟨_,t⟩,stamp,rfl⟩ := List.mem_map.mp ran
    rw [turned.fired] at stamp ⊢
    rcases List.mem_append.mp stamp with new | old
    · obtain ⟨_,_,equal⟩ := List.mem_map.mp new
      cases equal
      exact List.mem_append_left _ new
    · exact absurd (related.ticking.stamped ▸ List.mem_map_of_mem old) unran
  have late : Clock.Short (s.turn.clock.wheel.tasks key).timeout →
      s.turn.clock.armed key + (s.turn.clock.wheel.tasks key).timeout ≤ s.clock.ticks+1 := (ticking.punctual key _ stamped).2
  rw [turned.timeout,turned.armed,timeout,activity,related.time] at late
  exact ⟨on,late short⟩

theorem turn_related (related : Related s d) : Related s.turn d.turn := by
  obtain ⟨tied,swept⟩ := turn_tied related
  obtain ⟨news,turned⟩ := turn_turned related.ticking
  refine ⟨turned.ticks.trans (congrArg (· + 1) related.time),fun id => ?_,tied,Clock.turn_ticking related.ticking,
    turn_armed related,related.ahead.turn⟩
  have was := related.conns id
  cases member : d.members id with
  | none =>
    rw [member] at was
    have none' : d.turn.members id = none := by
      rw [Watchdog.turn]
      simp only [member,Option.map_none]
    rw [none']
    rcases swept id with ⟨_,kept⟩ | ⟨_,kept,_⟩
    · exact kept.trans was
    · exact kept.trans (by rw [was]; rfl)
  | some m =>
    rw [member] at was
    rw [turn_member member]
    rcases swept id with ⟨pending,kept⟩ | ⟨_,kept,key,waiting,called⟩
    · have quiet : m.enabled = true → d.now+1 < m.deadline := by
        intro on
        obtain ⟨key,waiting⟩ := (related.tied.enabled id).mpr ⟨_,was,on⟩
        exact turn_waiting related member (pending.trans waiting)
      rw [expire_quiet quiet]
      exact kept.trans was
    · rw [Watched.expire,if_pos (turn_called related member waiting called)]
      exact kept.trans (by rw [was]; rfl)

theorem tick_related (nums : Nat) (related : Related s d) : Related (tickNums nums s) (Watchdog.pass nums d) := by
  induction nums generalizing s d with
  | zero => exact related
  | succ nums ih => exact ih (turn_related related)

theorem step_related (s : InactiveRelease) (d : Watchdog Nat) (action : Action) (related : Related s d)
    (admitted : Admitted d action) : ∃ next, step s action = some next ∧ Related next (follow d action) := by
  have flag : ∀ id m, d.members id = some m → s.conns id = some ⟨m.enabled,m.released⟩ := fun id m member => by
    rw [related.conns,member]; rfl
  cases action with
  | accept id =>
    have new : d.members id = none := admitted
    exact ⟨_,if_pos (by rw [related.conns,new]; rfl),join_related related new⟩
  | enableInactiveRelease id sec =>
    obtain ⟨m,member,there,ready⟩ := admitted
    refine ⟨_,if_pos (by rw [flag id m member]; rfl),?_⟩
    have turnedOn : (s.change id fun c => {c with enable := true}).conns = update s.conns id (some ⟨true,m.released⟩) := by
      simp [change,flag id m member]
    unfold enableInactiveReleaseInLoop
    split
    · rename_i listed
      have on : m.enabled = true := (related.exists_eq member).symm.trans listed
      have still : (s.change id fun c => {c with enable := true}).conns = s.conns := by
        rw [turnedOn,← on,← flag id m member,Function.update_eq_self]
      simp only [still]
      exact touch_related related member on (if_pos on)
    · rename_i unlisted
      have off : m.enabled = false := (related.exists_eq member).symm.trans (Bool.eq_false_iff.mpr unlisted)
      obtain ⟨short,quiet⟩ := ready off
      simp only [turnedOn]
      exact set_related related member off there short quiet
  | cancelInactiveRelease id =>
    obtain ⟨m,member⟩ := Option.isSome_iff_exists.mp admitted
    refine ⟨_,if_pos (by rw [flag id m member]; rfl),?_⟩
    have cancelled : s.cancelInactiveReleaseInLoop id = {
        clock := if s.clock.wheel.ifExists id then {s.clock with wheel := s.clock.wheel.removeTimerTask id} else s.clock
        conns := update s.conns id (some ⟨false,m.released⟩)} := by
      unfold cancelInactiveReleaseInLoop
      split <;> simp [change,flag id m member]
    rw [cancelled]
    exact stop_related related member rfl rfl rfl rfl
  | handleAnyEvent id =>
    obtain ⟨m,member⟩ := Option.isSome_iff_exists.mp admitted
    refine ⟨_,if_pos (by rw [flag id m member]; rfl),?_⟩
    unfold handleAnyEvent
    rw [flag id m member]
    split
    · rename_i on
      exact touch_related related member on (if_pos on)
    · rename_i off
      have quiet : m.active d.now = m := if_neg off
      rw [follow,Watchdog.change,member,Option.map_some,quiet,← member,Function.update_eq_self]
      exact related
  | release id =>
    obtain ⟨m,member⟩ := Option.isSome_iff_exists.mp admitted
    refine ⟨_,if_pos (by rw [flag id m member]; rfl),?_⟩
    have released : s.releaseInLoop id = {
        clock := if s.clock.wheel.ifExists id then {s.clock with wheel := s.clock.wheel.removeTimerTask id} else s.clock
        conns := update s.conns id (some ⟨false,true⟩)} := by
      unfold releaseInLoop cancelInactiveReleaseInLoop
      split
      · rename_i listed
        simp [change,flag id m member,listed]
      · rename_i unlisted
        have off : m.enabled = false := (related.exists_eq member).symm.trans (Bool.eq_false_iff.mpr unlisted)
        simp [change,flag id m member,off]
    rw [released]
    exact stop_related related member rfl rfl rfl rfl
  | tick nums => exact ⟨_,rfl,tick_related nums related⟩

theorem idle_connections_released (actions : List Action)
    (admitted : Throughout (fun d action => some (follow d action)) Admitted {} actions) :
    ∃ s, run step {} actions = some s ∧ Follows s (actions.foldl follow {}) := by
  obtain ⟨s,ran,related⟩ := Machine.run_refines step_related start_related admitted
  exact ⟨s,ran,related.follows⟩

theorem idle_connections_released_three : ∃ s, run step {} [.accept 1,.enableInactiveRelease 1 5,.accept 2,
    .enableInactiveRelease 2 5,.accept 3,.enableInactiveRelease 3 2,.tick 1,.cancelInactiveRelease 3,.tick 3,
    .handleAnyEvent 1,.enableInactiveRelease 3 60,.tick 4] = some s ∧
    Follows s (List.foldl follow {} [.accept 1,.enableInactiveRelease 1 5,.accept 2,
    .enableInactiveRelease 2 5,.accept 3,.enableInactiveRelease 3 2,.tick 1,.cancelInactiveRelease 3,.tick 3,
    .handleAnyEvent 1,.enableInactiveRelease 3 60,.tick 4]) :=
  idle_connections_released _ (by decide)

-- Turned on again too early, the connection loses its entry to the cancelled
-- task: no event refreshes it any more, and it is released while it is in use.
example : ((run step {} [.accept 1,.enableInactiveRelease 1 5,.tick 1,.cancelInactiveRelease 1,
    .enableInactiveRelease 1 30,.tick 29,.handleAnyEvent 1,.tick 1]).bind (·.conns 1)) = some ⟨true,true⟩ := by decide

end InactiveRelease
end LinuxOS.Muduo
