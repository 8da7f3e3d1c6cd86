import LinuxOS.Muduo.TimerWheel

namespace LinuxOS.Muduo.TimerWheel
open Function (update)
variable {w : TimerWheel} {id timeout slot key : Nat} {timerFunc : List Nat}

theorem alive_iff (w : TimerWheel) (key : Nat) :
    w.alive key = true ↔ ∃ slot < w.capacity, key ∈ w.wheels slot := by simp [alive]

theorem pending_iff (w : TimerWheel) (id key : Nat) :
    w.pending id = some key ↔ w.accepted id = some key ∧ key ∉ w.ran ∧ key ∉ w.removed := by
  simp [pending,Option.filter_eq_some_iff]

theorem lock_iff (w : TimerWheel) (id key : Nat) :
    w.lock id = some key ↔ w.timersRecord id = some key ∧ w.alive key = true := by
  simp [lock,Option.filter_eq_some_iff]

theorem slotAfter_lt {w : TimerWheel} (sized : 0 < w.capacity) (timeout : Nat) :
    w.slotAfter timeout < w.capacity := Nat.mod_lt _ sized

-- A task of the same id that is newer than `key` is still waiting: erasing the
-- id's registry entry on behalf of `key` takes that task's entry.
def superseded (w : TimerWheel) (key : Nat) : Bool :=
  (w.pending (w.tasks key).id).any fun newer => newer != key

-- What holds between operations. `held` is the half a destructor can break.
structure Sound (w : TimerWheel) : Prop where
  sized : 0 < w.capacity
  placed : ∀ slot key, key ∈ w.wheels slot → key < w.next
  own : ∀ id key, w.accepted id = some key → (w.tasks key).id = id ∧ key < w.next
  entry : ∀ id key, w.timersRecord id = some key → w.accepted id = some key
  uncancelled : ∀ id key, w.pending id = some key → (w.tasks key).cancel = false
  gone : ∀ key ∈ w.ran, key < w.next ∧ w.alive key = false
  stopped : ∀ key ∈ w.removed, key < w.next ∧ (w.tasks key).cancel = true ∧ key ∉ w.ran

def Held (w : TimerWheel) (id key : Nat) : Prop := w.timersRecord id = some key ∧ w.alive key = true

def Registered (w : TimerWheel) : Prop := ∀ id key, w.pending id = some key → Held w id key

theorem start_sound : Sound {} := by
  constructor <;> simp [pending]

theorem pending_same {w next : TimerWheel} (accepted : next.accepted = w.accepted)
    (ran : next.ran = w.ran) (removed : next.removed = w.removed) : next.pending = w.pending := by
  funext id; simp [pending,accepted,ran,removed]

theorem alive_pushFront {w : TimerWheel} (bound : slot < w.capacity) (other : Nat) :
    (w.pushFront slot key).alive other = true ↔ other = key ∨ w.alive other = true := by
  rw [alive_iff,alive_iff]
  constructor
  · rintro ⟨at',lt,found⟩
    by_cases same : at' = slot
    · subst at'
      simp only [pushFront,Function.update_self,List.mem_cons] at found
      rcases found with rfl | old
      · exact .inl rfl
      · exact .inr ⟨slot,lt,old⟩
    · exact .inr ⟨at',lt,by simpa [pushFront,same] using found⟩
  · rintro (rfl | ⟨at',lt,found⟩)
    · exact ⟨slot,bound,by simp [pushFront]⟩
    · refine ⟨at',lt,?_⟩
      by_cases same : at' = slot
      · subst at'; simp [pushFront,found]
      · simpa [pushFront,same] using found

theorem pushFront_sound (sound : Sound w) (bound : slot < w.capacity) (made : key < w.next)
    (waiting : key ∉ w.ran) : Sound (w.pushFront slot key) := by
  refine ⟨sound.sized,?_,sound.own,sound.entry,sound.uncancelled,?_,sound.stopped⟩
  · intro other id found
    by_cases same : other = slot
    · subst other
      simp only [pushFront,Function.update_self,List.mem_cons] at found
      rcases found with rfl | old
      · exact made
      · exact sound.placed _ _ old
    · exact sound.placed other id (by simpa [pushFront,same] using found)
  · intro other found
    refine ⟨(sound.gone other found).1,Bool.eq_false_iff.mpr fun live => ?_⟩
    rcases (alive_pushFront bound other).mp live with rfl | old
    · exact waiting found
    · rw [(sound.gone other found).2] at old; cases old

theorem pushFront_registered (registered : Registered w) (bound : slot < w.capacity) :
    Registered (w.pushFront slot key) := by
  intro id other waiting
  obtain ⟨entry,live⟩ := registered id other waiting
  exact ⟨entry,(alive_pushFront bound other).mpr (.inr live)⟩

theorem refresh_keeps (sound : Sound w) (registered : Registered w) (id : Nat) :
    Sound (w.refreshTimerTask id) ∧ Registered (w.refreshTimerTask id) := by
  unfold refreshTimerTask
  split
  · cases found : w.lock id with
    | none => exact ⟨sound,registered⟩
    | some key =>
      have live := ((lock_iff w id key).mp found).2
      have bound := slotAfter_lt sound.sized (w.tasks key).timeout
      obtain ⟨slot,_,member⟩ := (alive_iff w key).mp live
      have waiting : key ∉ w.ran := by
        intro ran; rw [(sound.gone key ran).2] at live; cases live
      exact ⟨pushFront_sound sound bound (sound.placed _ _ member) waiting,
        pushFront_registered registered bound⟩
  · exact ⟨sound,registered⟩

theorem made_tasks (below : key < w.next) : (w.makeTask id timeout timerFunc).tasks key = w.tasks key := by
  simp [makeTask,Nat.ne_of_lt below]

theorem pending_made (sound : Sound w) (other : Nat) : (w.makeTask id timeout timerFunc).pending other =
    if other = id then some w.next else w.pending other := by
  have unran : w.next ∉ w.ran := fun found => Nat.lt_irrefl _ (sound.gone _ found).1
  have unremoved : w.next ∉ w.removed := fun found => Nat.lt_irrefl _ (sound.stopped _ found).1
  by_cases same : other = id
  · subst other; simp [pending,makeTask,unran,unremoved]
  · simp [pending,makeTask,same]

theorem made_sound (sound : Sound w) (absent : w.timersRecord id = none) : Sound (w.makeTask id timeout timerFunc) := by
  refine ⟨sound.sized,?placed,?own,?entry,?uncancelled,?gone,?stopped⟩
  case placed =>
    intro slot key found
    exact Nat.lt_succ_of_lt (sound.placed slot key found)
  case own =>
    intro other key newest
    by_cases same : other = id
    · subst other
      have equal : w.next = key := by simpa [makeTask] using newest
      subst key
      exact ⟨by simp [makeTask],Nat.lt_succ_self _⟩
    · obtain ⟨ownId,below⟩ := sound.own other key (by simpa [makeTask,same] using newest)
      exact ⟨by rw [made_tasks below]; exact ownId,Nat.lt_succ_of_lt below⟩
  case entry =>
    intro other key listed
    have listed : w.timersRecord other = some key := listed
    by_cases same : other = id
    · subst other; rw [absent] at listed; cases listed
    · simpa [makeTask,same] using sound.entry other key listed
  case uncancelled =>
    intro other key waiting
    rw [pending_made sound] at waiting
    split at waiting
    · cases waiting; simp [makeTask]
    · rw [made_tasks (sound.own other key ((pending_iff w other key).mp waiting).1).2]
      exact sound.uncancelled other key waiting
  case gone =>
    intro key found
    exact ⟨Nat.lt_succ_of_lt (sound.gone key found).1,(sound.gone key found).2⟩
  case stopped =>
    intro key found
    obtain ⟨below,cancelled,quiet⟩ := sound.stopped key found
    exact ⟨Nat.lt_succ_of_lt below,by rw [made_tasks below]; exact cancelled,quiet⟩

theorem set_keeps (sound : Sound w) (registered : Registered w) (id timeout : Nat) (timerFunc : List Nat) :
    Sound (w.setTimerTask id timeout timerFunc) ∧ Registered (w.setTimerTask id timeout timerFunc) := by
  unfold setTimerTask
  split
  · exact ⟨sound,registered⟩
  · rename_i free
    have absent : w.timersRecord id = none := by simpa [ifExists] using free
    have bound := slotAfter_lt sound.sized timeout
    have unran : w.next ∉ w.ran := fun found => Nat.lt_irrefl _ (sound.gone _ found).1
    have placedSound : Sound ((w.makeTask id timeout timerFunc).pushFront
        ((w.makeTask id timeout timerFunc).slotAfter timeout) w.next) := pushFront_sound (made_sound sound absent) bound (Nat.lt_succ_self _) unran
    refine ⟨⟨placedSound.sized,placedSound.placed,placedSound.own,?_,placedSound.uncancelled,
      placedSound.gone,placedSound.stopped⟩,?_⟩
    · intro other key listed
      by_cases same : other = id
      · subst other; simpa [pushFront,makeTask] using listed
      · exact placedSound.entry other key (by simpa [same] using listed)
    intro other key waiting
    have waiting : (w.makeTask id timeout timerFunc).pending other = some key := waiting
    rw [pending_made sound] at waiting
    by_cases same : other = id
    · subst other
      have equal : w.next = key := by simpa using waiting
      subst key
      exact ⟨by simp,(alive_pushFront bound _).mpr (.inl rfl)⟩
    · obtain ⟨entry,live⟩ := registered other key (by simpa [same] using waiting)
      exact ⟨by simpa [same,pushFront,makeTask] using entry,(alive_pushFront bound _).mpr (.inr live)⟩

theorem accepted_id (sound : Sound w) (one : w.accepted id = some key)
    (two : w.accepted other = some key) : other = id :=
  (sound.own other key two).1.symm.trans (sound.own id key one).1

theorem pending_noted (sound : Sound w) (id other : Nat) :
    ({w with removed := (w.pending id).toList ++ w.removed} : TimerWheel).pending other =
      if other = id then none else w.pending other := by
  cases waiting : w.pending id with
  | none =>
    by_cases same : other = id
    · subst other; simpa [pending] using waiting
    · simp [pending,same]
  | some key =>
    have newest := ((pending_iff w id key).mp waiting).1
    by_cases same : other = id
    · subst other; simp [pending,newest]
    · rw [if_neg same]
      cases found : w.accepted other with
      | none => simp [pending,found]
      | some held =>
        have apart : held ≠ key := fun equal => same (accepted_id sound newest (equal ▸ found))
        simp only [pending,found,Option.filter]
        simp [apart]

theorem pending_remove (sound : Sound w) (id other : Nat) : (w.removeTimerTask id).pending other =
    if other = id then none else w.pending other := by
  rw [← pending_noted sound id other]
  unfold removeTimerTask
  dsimp only
  split
  · split <;> exact congrFun (pending_same rfl rfl rfl) other
  · rfl

theorem cancel_keeps (key other : Nat) (cancelled : (w.tasks other).cancel = true) :
    ((w.cancelTask key).tasks other).cancel = true := by
  by_cases same : other = key
  · subst other; simp [cancelTask]
  · simpa [cancelTask,same] using cancelled

theorem cancel_id (key other : Nat) : ((w.cancelTask key).tasks other).id = (w.tasks other).id := by
  by_cases same : other = key
  · subst other; simp [cancelTask]
  · simp [cancelTask,same]

theorem remove_tasks (id other : Nat) :
    ((w.removeTimerTask id).tasks other).id = (w.tasks other).id ∧
      ((w.tasks other).cancel = true → ((w.removeTimerTask id).tasks other).cancel = true) := by
  unfold removeTimerTask
  dsimp only
  split
  · split
    · exact ⟨cancel_id _ other,cancel_keeps _ other⟩
    · exact ⟨rfl,fun h => h⟩
  · exact ⟨rfl,fun h => h⟩

theorem remove_frame (w : TimerWheel) (id : Nat) :
    (w.removeTimerTask id).capacity = w.capacity ∧ (w.removeTimerTask id).wheels = w.wheels ∧
      (w.removeTimerTask id).next = w.next ∧ (w.removeTimerTask id).accepted = w.accepted ∧
      (w.removeTimerTask id).ran = w.ran ∧ (w.removeTimerTask id).tick = w.tick ∧
      (w.removeTimerTask id).removed = (w.pending id).toList ++ w.removed ∧
      ∀ other ≠ id, (w.removeTimerTask id).timersRecord other = w.timersRecord other := by
  unfold removeTimerTask
  dsimp only
  split
  · split <;> exact ⟨rfl,rfl,rfl,rfl,rfl,rfl,rfl,fun other apart => by simp [eraseRecord,cancelTask,apart]⟩
  · exact ⟨rfl,rfl,rfl,rfl,rfl,rfl,rfl,fun _ _ => rfl⟩

theorem alive_same {next : TimerWheel} (capacity : next.capacity = w.capacity)
    (wheels : next.wheels = w.wheels) (key : Nat) : next.alive key = w.alive key := by
  simp [alive,capacity,wheels]

theorem remove_pending (waiting : w.pending id = some key) (held : Held w id key) :
    w.removeTimerTask id =
      (({w with removed := key :: w.removed} : TimerWheel).cancelTask key).eraseRecord id := by
  have locked : ({w with removed := key :: w.removed} : TimerWheel).lock id = some key :=
    (lock_iff _ _ _).mpr held
  have listed : ({w with removed := key :: w.removed} : TimerWheel).ifExists id = true := by
    simp [ifExists,held.1]
  simp [removeTimerTask,waiting,locked,listed]

theorem remove_cancel (sound : Sound w) (id other : Nat) (newest : w.accepted other = some key)
    (apart : other ≠ id) : ((w.removeTimerTask id).tasks key).cancel = (w.tasks key).cancel := by
  unfold removeTimerTask
  dsimp only
  split
  · split
    · rename_i held locked
      have mine := sound.entry id held ((lock_iff _ id held).mp locked).1
      have different : key ≠ held := fun equal => apart (accepted_id sound mine (equal ▸ newest))
      simp [eraseRecord,cancelTask,different]
    · rfl
  · rfl

theorem remove_sound (sound : Sound w) (registered : Registered w) (id : Nat) :
    Sound (w.removeTimerTask id) := by
  obtain ⟨capacity,wheels,fresh,newest,ran,_,removed,others⟩ := w.remove_frame id
  refine ⟨by rw [capacity]; exact sound.sized,?placed,?own,?entry,?uncancelled,?gone,?stopped⟩
  case placed => intro slot key; rw [wheels,fresh]; exact sound.placed slot key
  case own => intro other key; rw [newest,fresh,(remove_tasks id key).1]; exact sound.own other key
  case entry =>
    intro other key listed
    rw [newest]
    by_cases same : other = id
    · subst other
      unfold removeTimerTask at listed
      dsimp only at listed
      split at listed
      · split at listed <;> simp [eraseRecord] at listed
      · exact sound.entry _ _ listed
    · rw [others other same] at listed
      exact sound.entry other key listed
  case uncancelled =>
    intro other key waiting
    rw [pending_remove sound] at waiting
    by_cases same : other = id
    · simp [same] at waiting
    · rw [if_neg same] at waiting
      rw [remove_cancel sound id other ((pending_iff w other key).mp waiting).1 same]
      exact sound.uncancelled other key waiting
  case gone =>
    intro key found
    rw [ran] at found
    rw [fresh,alive_same capacity wheels]
    exact sound.gone key found
  case stopped =>
    intro key found
    rw [removed,List.mem_append] at found
    rw [fresh,ran]
    rcases found with mine | old
    · have waiting : w.pending id = some key := by simpa using mine
      obtain ⟨accepted,unran,_⟩ := (pending_iff w id key).mp waiting
      refine ⟨(sound.own id key accepted).2,?_,unran⟩
      rw [remove_pending waiting (registered id key waiting)]
      simp [eraseRecord,cancelTask]
    · obtain ⟨below,cancelled,quiet⟩ := sound.stopped key old
      exact ⟨below,(remove_tasks id key).2 cancelled,quiet⟩

theorem remove_registered (sound : Sound w) (registered : Registered w) (id : Nat) :
    Registered (w.removeTimerTask id) := by
  obtain ⟨capacity,wheels,_,_,_,_,_,others⟩ := w.remove_frame id
  intro other key waiting
  rw [pending_remove sound] at waiting
  by_cases same : other = id
  · simp [same] at waiting
  · rw [if_neg same] at waiting
    obtain ⟨listed,live⟩ := registered other key waiting
    exact ⟨by rw [others other same]; exact listed,by rw [alive_same capacity wheels]; exact live⟩

theorem remove_keeps (sound : Sound w) (registered : Registered w) (id : Nat) :
    Sound (w.removeTimerTask id) ∧ Registered (w.removeTimerTask id) :=
  ⟨remove_sound sound registered id,remove_registered sound registered id⟩

-- A callback only calls RemoveTimerTask: it keeps the invariant, leaves the
-- slots alone and never makes a task pending.
theorem callback_keeps (calls : List Nat) (sound : Sound w) (registered : Registered w) :
    Sound (calls.foldl removeTimerTask w) ∧ Registered (calls.foldl removeTimerTask w) ∧
      (calls.foldl removeTimerTask w).wheels = w.wheels ∧
      ∀ id, w.pending id = none → (calls.foldl removeTimerTask w).pending id = none := by
  induction calls generalizing w with
  | nil => exact ⟨sound,registered,rfl,fun _ h => h⟩
  | cons call rest ih =>
    obtain ⟨nextSound,nextRegistered⟩ := remove_keeps sound registered call
    obtain ⟨last,kept,wheels,quiet⟩ := ih nextSound nextRegistered
    refine ⟨last,kept,wheels.trans (w.remove_frame call).2.1,?_⟩
    intro id none
    apply quiet
    rw [pending_remove sound,none]
    split <;> rfl

theorem erase_keeps (sound : Sound w) (registered : Registered w) (idle : w.pending id = none) :
    Sound (w.removeFromTimerWheel id) ∧ Registered (w.removeFromTimerWheel id) := by
  unfold removeFromTimerWheel
  split
  · refine ⟨⟨sound.sized,sound.placed,sound.own,?_,sound.uncancelled,sound.gone,sound.stopped⟩,?_⟩
    · intro other key listed
      by_cases same : other = id
      · subst other; simp [eraseRecord] at listed
      · exact sound.entry other key (by simpa [eraseRecord,same] using listed)
    · intro other key waiting
      have waiting : w.pending other = some key := waiting
      by_cases same : other = id
      · subst other; rw [idle] at waiting; cases waiting
      · obtain ⟨listed,live⟩ := registered other key waiting
        exact ⟨by simpa [eraseRecord,same] using listed,live⟩
  · exact ⟨sound,registered⟩

def called (w : TimerWheel) (key : Nat) : TimerWheel := {w with ran := key :: w.ran}

theorem called_pending (id : Nat) : (w.called key).pending id = some other ↔
    w.pending id = some other ∧ other ≠ key := by
  rw [pending_iff,pending_iff]
  simp only [called,List.mem_cons,not_or]
  tauto

theorem called_sound (sound : Sound w) (below : key < w.next) (dead : w.alive key = false)
    (active : (w.tasks key).cancel = false) : Sound (w.called key) := by
  refine ⟨sound.sized,sound.placed,sound.own,sound.entry,?_,?_,?_⟩
  · intro id other waiting
    exact sound.uncancelled id other ((called_pending id).mp waiting).1
  · intro other found
    rcases List.mem_cons.mp found with rfl | old
    · exact ⟨below,dead⟩
    · exact sound.gone other old
  · intro other found
    obtain ⟨made,cancelled,quiet⟩ := sound.stopped other found
    refine ⟨made,cancelled,?_⟩
    intro ran
    rcases List.mem_cons.mp ran with rfl | old
    · rw [active] at cancelled; cases cancelled
    · exact quiet old

-- The step in which a registry entry can be lost. The dying task is the only
-- one that may be pending without being held by a slot.
theorem destroy_keeps (sound : Sound w) (below : key < w.next) (dead : w.alive key = false)
    (others : ∀ id other, other ≠ key → w.pending id = some other → Held w id other)
    (clean : w.superseded key = false) :
    Sound (w.destroy key) ∧ Registered (w.destroy key) ∧ (w.destroy key).wheels = w.wheels := by
  have mine : ∀ newer, w.pending (w.tasks key).id = some newer → newer = key := by
    intro newer waiting
    simpa [superseded,waiting] using clean
  have wheels : ∀ v : TimerWheel, (v.removeFromTimerWheel (w.tasks key).id).wheels = v.wheels := by
    intro v; unfold removeFromTimerWheel; split <;> rfl
  unfold destroy
  dsimp only
  by_cases cancelled : (w.tasks key).cancel = true
  · rw [if_pos cancelled,wheels]
    have apart : ∀ id, w.pending id ≠ some key := by
      intro id waiting
      rw [sound.uncancelled id key waiting] at cancelled; cases cancelled
    have idle : w.pending (w.tasks key).id = none := by
      cases waiting : w.pending (w.tasks key).id with
      | none => rfl
      | some newer => exact absurd (mine newer waiting ▸ waiting) (apart _)
    have registered : Registered w := fun id other waiting =>
      others id other (fun equal => apart id (equal ▸ waiting)) waiting
    obtain ⟨last,kept⟩ := erase_keeps sound registered idle
    exact ⟨last,kept,rfl⟩
  · have active : (w.tasks key).cancel = false := by simpa using cancelled
    rw [if_neg cancelled,wheels]
    have registered : Registered (w.called key) := by
      intro id other waiting
      obtain ⟨old,apart⟩ := (called_pending id).mp waiting
      exact others id other apart old
    have idle : (w.called key).pending (w.tasks key).id = none := by
      cases waiting : (w.called key).pending (w.tasks key).id with
      | none => rfl
      | some newer =>
        obtain ⟨old,apart⟩ := (called_pending _).mp waiting
        exact absurd (mine newer old) apart
    obtain ⟨ranSound,ranRegistered,slots,quiet⟩ := callback_keeps (w.tasks key).timerFunc
      (called_sound sound below dead active) registered
    obtain ⟨last,kept⟩ := erase_keeps ranSound ranRegistered (quiet _ idle)
    exact ⟨last,kept,slots⟩

def clearClean (slot : Nat) : List Nat → TimerWheel → Bool
  | [],_ => true
  | key :: rest,w =>
    let dropped := w.dropFront slot rest
    if dropped.alive key then clearClean slot rest dropped
    else !dropped.superseded key && clearClean slot rest (dropped.destroy key)

theorem alive_drop (placed : w.wheels slot = key :: rest) (other : Nat) :
    ((w.dropFront slot rest).alive other = true → w.alive other = true) ∧
      (other ≠ key → w.alive other = true → (w.dropFront slot rest).alive other = true) := by
  rw [alive_iff,alive_iff]
  constructor
  · rintro ⟨at',lt,found⟩
    refine ⟨at',lt,?_⟩
    by_cases same : at' = slot
    · subst at'
      rw [placed]
      exact List.mem_cons_of_mem _ (by simpa [dropFront] using found)
    · simpa [dropFront,same] using found
  · rintro apart ⟨at',lt,found⟩
    refine ⟨at',lt,?_⟩
    by_cases same : at' = slot
    · subst at'
      rw [placed] at found
      rcases List.mem_cons.mp found with equal | old
      · exact absurd equal apart
      · simpa [dropFront] using old
    · simpa [dropFront,same] using found

theorem drop_sound (sound : Sound w) (placed : w.wheels slot = key :: rest) :
    Sound (w.dropFront slot rest) := by
  refine ⟨sound.sized,?_,sound.own,sound.entry,sound.uncancelled,?_,sound.stopped⟩
  · intro at' other found
    by_cases same : at' = slot
    · subst at'
      refine sound.placed slot other ?_
      rw [placed]
      exact List.mem_cons_of_mem _ (by simpa [dropFront] using found)
    · exact sound.placed at' other (by simpa [dropFront,same] using found)
  · intro other ran
    obtain ⟨made,dead⟩ := sound.gone other ran
    refine ⟨made,Bool.eq_false_iff.mpr fun live => ?_⟩
    rw [(alive_drop placed other).1 live] at dead; cases dead

theorem clear_keeps (keys : List Nat) (sound : Sound w) (registered : Registered w)
    (placed : w.wheels slot = keys) (clean : clearClean slot keys w = true) :
    Sound (clearSlot slot keys w) ∧ Registered (clearSlot slot keys w) := by
  induction keys generalizing w with
  | nil => exact ⟨sound,registered⟩
  | cons key rest ih =>
    have dropped := drop_sound sound placed
    have others : ∀ id other, other ≠ key → (w.dropFront slot rest).pending id = some other →
        Held (w.dropFront slot rest) id other := by
      intro id other apart waiting
      obtain ⟨listed,live⟩ := registered id other waiting
      exact ⟨listed,(alive_drop placed other).2 apart live⟩
    have left : (w.dropFront slot rest).wheels slot = rest := by simp [dropFront]
    simp only [clearClean] at clean
    simp only [clearSlot]
    split
    · rename_i live
      rw [if_pos live] at clean
      refine ih dropped ?_ left clean
      intro id other waiting
      by_cases same : other = key
      · subst other; exact ⟨(registered id key waiting).1,live⟩
      · exact others id other same waiting
    · rename_i dead
      rw [if_neg dead,Bool.and_eq_true] at clean
      have below : key < w.next := sound.placed slot key (by rw [placed]; exact List.mem_cons_self)
      obtain ⟨nextSound,nextRegistered,wheels⟩ := destroy_keeps dropped below (by simpa using dead)
        others (by simpa using clean.1)
      exact ih nextSound nextRegistered (wheels ▸ left) clean.2

def tickClean : Nat → TimerWheel → Bool
  | 0,_ => true
  | nums+1,w => clearClean w.turn.tick (w.turn.wheels w.turn.tick) w.turn &&
      tickClean nums (clearSlot w.turn.tick (w.turn.wheels w.turn.tick) w.turn)

theorem tick_keeps (nums : Nat) (sound : Sound w) (registered : Registered w)
    (clean : tickClean nums w = true) : Sound (tickNums nums w) ∧ Registered (tickNums nums w) := by
  induction nums generalizing w with
  | zero => exact ⟨sound,registered⟩
  | succ nums ih =>
    simp only [tickClean,Bool.and_eq_true] at clean
    have turned : Sound w.turn := ⟨sound.sized,sound.placed,sound.own,sound.entry,sound.uncancelled,
      sound.gone,sound.stopped⟩
    obtain ⟨nextSound,nextRegistered⟩ := clear_keeps _ turned registered rfl clean.1
    exact ih nextSound nextRegistered clean.2

def Clean (w : TimerWheel) : Op → Prop
  | .tick nums => tickClean nums w = true
  | _ => True

instance (w : TimerWheel) (op : Op) : Decidable (Clean w op) := by
  cases op <;> unfold Clean <;> infer_instance

theorem step_keeps (w : TimerWheel) (op : Op) (next : TimerWheel)
    (valid : Sound w ∧ Registered w) (clean : Clean w op) (taken : step w op = some next) :
    Sound next ∧ Registered next := by
  cases op with
  | setTimerTask id timeout timerFunc => cases taken; exact set_keeps valid.1 valid.2 id timeout timerFunc
  | refreshTimerTask id => cases taken; exact refresh_keeps valid.1 valid.2 id
  | removeTimerTask id => cases taken; exact remove_keeps valid.1 valid.2 id
  | tick nums => cases taken; exact tick_keeps nums valid.1 valid.2 clean

def Exact (w : TimerWheel) : Prop :=
  (∀ id key, w.pending id = some key → w.ifExists id = true ∧
    w.refreshTimerTask id = w.pushFront (w.slotAfter (w.tasks key).timeout) key ∧
    w.removeTimerTask id =
      (({w with removed := key :: w.removed} : TimerWheel).cancelTask key).eraseRecord id) ∧
  ∀ key ∈ w.removed, key ∉ w.ran

theorem sound_exact (sound : Sound w) (registered : Registered w) : Exact w := by
  refine ⟨?_,fun key found => (sound.stopped key found).2.2⟩
  intro id key waiting
  have held := registered id key waiting
  have listed : w.ifExists id = true := by simp [ifExists,held.1]
  refine ⟨listed,?_,remove_pending waiting held⟩
  simp [refreshTimerTask,listed,(lock_iff w id key).mpr held]

theorem registry_exact (ops : List Op) (w : TimerWheel)
    (clean : Machine.Throughout step Clean {} ops) (ran : Machine.run step {} ops = some w) : Exact w := by
  have start : Sound ({} : TimerWheel) ∧ Registered ({} : TimerWheel) :=
    ⟨start_sound,fun id key waiting => by simp [pending] at waiting⟩
  obtain ⟨sound,registered⟩ := Machine.run_keeps step_keeps start clean ran
  exact sound_exact sound registered

def reenabled : List Op := [.setTimerTask 1 5 [1],.removeTimerTask 1,.tick 5,
  .setTimerTask 1 10 [1],.tick 3,.refreshTimerTask 1,.tick 8]

theorem registry_exact_reenabled : ∃ w, Machine.run step {} reenabled = some w ∧ Exact w :=
  ⟨_,rfl,registry_exact reenabled _ (by decide) rfl⟩

-- The condition is sharp: the destructor of a superseded task leaves a pending
-- task that the registry no longer knows.
theorem superseded_loses (cancelled : (w.tasks key).cancel = true) (late : w.superseded key = true) :
    ∃ id newer, (w.destroy key).pending id = some newer ∧ (w.destroy key).ifExists id = false := by
  unfold superseded at late
  cases waiting : w.pending (w.tasks key).id with
  | none => simp [waiting] at late
  | some newer =>
    refine ⟨(w.tasks key).id,newer,?_,?_⟩
    · unfold destroy removeFromTimerWheel
      simp only [cancelled,if_true]
      split <;> exact waiting
    · unfold destroy removeFromTimerWheel
      simp only [cancelled,if_true]
      split
      · simp [ifExists,eraseRecord]
      · simp_all

def Op.Legal : Op → Prop
  | .setTimerTask _ timeout _ => 1 ≤ timeout ∧ timeout ≤ 60
  | _ => True

instance (op : Op) : Decidable op.Legal := by
  cases op <;> unfold Op.Legal <;> infer_instance

-- Set, removed and set again within the first task's five ticks: the first
-- task's destructor takes the second task's entry.
theorem reused_id_breaks_registry : ¬ ∀ (ops : List Op) (w : TimerWheel), (∀ op ∈ ops, op.Legal) →
    Machine.run step {} ops = some w → Exact w := by
  intro claimed
  have exact' := claimed [.setTimerTask 1 5 [],.removeTimerTask 1,.setTimerTask 1 10 [],.tick 5,
    .removeTimerTask 1,.tick 5] _ (by decide) rfl
  exact absurd (exact'.2 1 (by decide)) (by decide)

end LinuxOS.Muduo.TimerWheel
