import LinuxOS.Machine
import LinuxOS.Ring

namespace LinuxOS.Muduo.LoopThreads
open Function (update)
open Machine LinuxOS.Ring

-- A pointer to an EventLoop: the base loop, or the one that the thread of a LoopThread has on its stack.
inductive LoopPtr where
  | null
  | base
  | of (thread : Nat)
  deriving DecidableEq

-- ThreadEntry: the loop is being made, `_mtx` is held, `_loop` is set, all are notified, Loop() runs.
inductive Entry where
  | absent
  | entered
  | locked
  | published
  | notified
  | looping
  deriving DecidableEq

inductive Owner where
  | main
  | thread
  deriving DecidableEq

-- InitPool in the thread that calls it: before the test of the for loop; in the constructor of a
-- LoopThread, whose thread runs before `_mtx` and `_cond` are made; and in GetLoopPtr.
inductive Phase where
  | idle
  | starting
  | building
  | locking
  | testing
  | waiting
  | woken
  | unlocking
  | returning
  deriving DecidableEq

-- LoopThreads are numbered in the order in which they are made; `left` more are still to be made.
-- `handed` is history: what GetNextLoopThread has returned since SetThreadCountAndInit. All calls
-- come from one thread.
structure LoopThreadPool where
  threadsSize : Int := 0
  threadIndex : Nat := 0
  made : Nat := 0
  phase : Phase := .idle
  left : Nat := 0
  entry : Nat → Entry := fun _ => .absent
  loop : Nat → LoopPtr := fun _ => .null
  mutex : Nat → Option Owner := fun _ => none
  built : Nat → Bool := fun _ => false
  loops : List LoopPtr := []
  handed : List LoopPtr := []

inductive Action where
  | setThreadCountAndInit (nums : Int)
  | initPool
  | threadEntry (k : Nat)
  | spurious
  | getNextLoopThread
  deriving DecidableEq

namespace LoopThreadPool
variable (s : LoopThreadPool)

def current : Nat := s.made - 1

def setThreadCountAndInit (nums : Int) : Option LoopThreadPool :=
  if s.phase = .idle then
    some {s with threadsSize := nums, phase := .starting, left := nums.toNat, handed := []}
  else none

def getLock (owner : Owner) (k : Nat) : Option LoopThreadPool :=
  if s.mutex k = none then some {s with mutex := update s.mutex k (some owner)} else none

def initPool : Option LoopThreadPool :=
  match s.phase with
  | .idle | .waiting => none
  | .starting =>
    if s.left = 0 then some {s with phase := .idle}
    else some {s with
      phase := .building
      left := s.left - 1
      made := s.made + 1
      entry := update s.entry s.made .entered}
  | .building => some {s with phase := .locking, built := update s.built s.current true}
  | .locking | .woken => (s.getLock .main s.current).map ({· with phase := .testing})
  | .testing =>
    if s.loop s.current = .null then some {s with phase := .waiting, mutex := update s.mutex s.current none}
    else some {s with phase := .unlocking}
  | .unlocking => some {s with phase := .returning, mutex := update s.mutex s.current none}
  | .returning => some {s with phase := .starting, loops := s.loops ++ [s.loop s.current]}

-- notify_all reaches the thread that waits on the same LoopThread.
def threadEntry (k : Nat) : Option LoopThreadPool :=
  match s.entry k with
  | .absent | .looping => none
  | .entered => (s.getLock .thread k).map ({· with entry := update s.entry k .locked})
  | .locked => some {s with entry := update s.entry k .published, loop := update s.loop k (.of k)}
  | .published => some {s with
      entry := update s.entry k .notified
      phase := if s.phase = .waiting ∧ s.current = k then .woken else s.phase}
  | .notified => some {s with entry := update s.entry k .looping, mutex := update s.mutex k none}

-- An index that is not in `_loops` is undefined behaviour.
def getNextLoopThread : Option LoopThreadPool :=
  if s.phase = .idle then
    if 0 < s.threadsSize then
      let index := (s.threadIndex + 1) % s.threadsSize.toNat
      s.loops[index]?.map fun loop => {s with threadIndex := index, handed := s.handed ++ [loop]}
    else some {s with handed := s.handed ++ [.base]}
  else none

def step : Action → Option LoopThreadPool
  | .setThreadCountAndInit nums => s.setThreadCountAndInit nums
  | .initPool => s.initPool
  | .threadEntry k => s.threadEntry k
  | .spurious => if s.phase = .waiting then some {s with phase := .woken} else none
  | .getNextLoopThread => s.getNextLoopThread

-- `_thread` stands before `_mtx` and `_cond`: nothing else makes a thread wait until they are made.
def Built : Action → Prop
  | .threadEntry k => s.entry k = .entered → s.built k = true
  | _ => True

instance : DecidablePred s.Built := fun action => by
  unfold Built
  split <;> infer_instance

def advance (action : Action) : Option LoopThreadPool :=
  match action with
  | .initPool => s.step action
  | .threadEntry _ => if s.Built action then s.step action else none
  | _ => none

end LoopThreadPool

def Entry.hasLoop : Entry → Bool
  | .published | .notified | .looping => true
  | _ => false

def Entry.holds : Entry → Bool
  | .locked | .published | .notified => true
  | _ => false

def Phase.holds : Phase → Bool
  | .testing | .unlocking => true
  | _ => false

def Phase.making : Phase → Bool
  | .idle | .starting => false
  | _ => true

-- What is left to do, for GetLoopPtr by whether the loop is there; only a spurious wake-up adds to it.
def Phase.cost (hasLoop : Bool) : Phase → Nat
  | .idle => 0
  | .starting => 1
  | .returning => 2
  | .unlocking => 3
  | .testing => if hasLoop then 4 else 7
  | .locking | .woken => if hasLoop then 5 else 8
  | .waiting => 6
  | .building => 9

def Entry.cost : Entry → Nat
  | .absent | .looping => 0
  | .notified => 1
  | .published => 2
  | .locked => 3
  | .entered => 4

-- How far GetLoopPtr and the thread of LoopThread k can have got at the same time: the thread waits
-- for the constructor, a waiting GetLoopPtr is yet to be notified, and one that has found the loop has
-- had the lock after the thread.
structure Shake (k : Nat) (phase : Phase) (entry : Entry) (loop : LoopPtr) (mutex : Option Owner) (built : Bool) : Prop where
  there : entry ≠ .absent
  pointer : loop = if entry.hasLoop then .of k else .null
  thread : mutex = some .thread ↔ entry.holds = true
  main : mutex = some .main ↔ phase.holds = true
  built : built = true ↔ phase ≠ .building
  early : phase = .building → entry = .entered
  missed : phase = .waiting → entry ≠ .notified ∧ entry ≠ .looping
  seen : phase = .unlocking ∨ phase = .returning → entry = .looping

namespace Shake
variable {k : Nat} {phase : Phase} {entry : Entry} {loop : LoopPtr} {mutex : Option Owner} {built : Bool}

theorem start (k : Nat) : Shake k .building .entered .null none false :=
  ⟨nofun,rfl,⟨nofun,nofun⟩,⟨nofun,nofun⟩,⟨nofun,nofun⟩,fun _ => rfl,nofun,nofun⟩

theorem free (shake : Shake k phase entry loop none built) : entry.holds = false ∧ phase.holds = false :=
  ⟨Bool.eq_false_of_not_eq_true fun held => (nomatch shake.thread.mpr held),
    Bool.eq_false_of_not_eq_true fun held => (nomatch shake.main.mpr held)⟩

theorem build (shake : Shake k .building entry loop mutex built) : Shake k .locking entry loop mutex true :=
  ⟨shake.there,shake.pointer,shake.thread,shake.main,⟨nofun,fun _ => rfl⟩,nofun,nofun,nofun⟩

theorem lock (shake : Shake k phase entry loop none built) (wants : phase = .locking ∨ phase = .woken) :
    Shake k .testing entry loop (some .main) built := by
  have made : built = true := shake.built.mpr (by rcases wants with rfl | rfl <;> nofun)
  exact ⟨shake.there,shake.pointer,⟨nofun,fun held => by rw [shake.free.1] at held; cases held⟩,⟨fun _ => rfl,fun _ => rfl⟩,
    ⟨nofun,fun _ => made⟩,nofun,nofun,nofun⟩

theorem aside (shake : Shake k .testing entry loop mutex built) :
    mutex = some .main ∧ built = true ∧ entry.holds = false := by
  have held := shake.main.mpr rfl
  refine ⟨held,shake.built.mpr nofun,Bool.eq_false_of_not_eq_true fun other => ?_⟩
  have both := shake.thread.mpr other
  rw [held] at both; cases both

theorem wait (shake : Shake k .testing entry .null mutex built) : Shake k .waiting entry .null none built := by
  obtain ⟨_,made,other⟩ := shake.aside
  have hidden : entry.hasLoop = false := by
    by_contra shown
    have pointer := shake.pointer
    rw [Bool.eq_true_of_not_eq_false shown] at pointer
    cases pointer
  refine ⟨shake.there,shake.pointer,⟨nofun,fun held => ?_⟩,⟨nofun,nofun⟩,⟨nofun,fun _ => made⟩,nofun,fun _ => ?_,nofun⟩
  · rw [other] at held; cases held
  · constructor
    · rintro rfl; cases hidden
    · rintro rfl; cases hidden

theorem pass (shake : Shake k .testing entry loop mutex built) (set : loop ≠ .null) :
    Shake k .unlocking entry loop mutex built := by
  obtain ⟨held,made,other⟩ := shake.aside
  have ready : entry = .looping := by
    have pointer := shake.pointer
    cases entry with
    | absent | entered | locked => exact absurd pointer set
    | published | notified => cases other
    | looping => rfl
  exact ⟨shake.there,shake.pointer,shake.thread,⟨fun _ => rfl,fun _ => held⟩,⟨nofun,fun _ => made⟩,nofun,nofun,
    fun _ => ready⟩

theorem unlock (shake : Shake k .unlocking entry loop mutex built) : Shake k .returning entry loop none built := by
  have ready := shake.seen (.inl rfl)
  subst ready
  exact ⟨nofun,shake.pointer,⟨nofun,nofun⟩,⟨nofun,nofun⟩,⟨nofun,fun _ => shake.built.mpr nofun⟩,nofun,nofun,
    fun _ => rfl⟩

theorem wake (shake : Shake k .waiting entry loop mutex built) : Shake k .woken entry loop mutex built :=
  ⟨shake.there,shake.pointer,shake.thread,shake.main,⟨nofun,fun _ => shake.built.mpr nofun⟩,nofun,nofun,nofun⟩

theorem enter (shake : Shake k phase .entered loop none true) : Shake k phase .locked loop (some .thread) true := by
  have outside := shake.free.2
  refine ⟨nofun,shake.pointer,⟨fun _ => rfl,fun _ => rfl⟩,⟨nofun,fun held => ?_⟩,shake.built,fun building => ?_,
    fun _ => ⟨nofun,nofun⟩,fun later => ?_⟩
  · rw [outside] at held; cases held
  · exact absurd building (shake.built.mp rfl)
  · cases shake.seen later

theorem publish (shake : Shake k phase .locked loop mutex built) : Shake k phase .published (.of k) mutex built := by
  refine ⟨nofun,rfl,shake.thread,shake.main,shake.built,fun building => ?_,fun _ => ⟨nofun,nofun⟩,fun later => ?_⟩
  · cases shake.early building
  · cases shake.seen later

theorem notify (shake : Shake k phase .published loop mutex built) :
    Shake k (if phase = .waiting then .woken else phase) .notified loop mutex built := by
  split
  · rename_i waits
    subst waits
    have woken := shake.wake
    exact ⟨nofun,woken.pointer,woken.thread,woken.main,woken.built,nofun,nofun,nofun⟩
  · rename_i other
    refine ⟨nofun,shake.pointer,shake.thread,shake.main,shake.built,fun building => ?_,fun waits => absurd waits other,
      fun later => ?_⟩
    · cases shake.early building
    · cases shake.seen later

theorem leave (shake : Shake k phase .notified loop mutex built) : Shake k phase .looping loop none built := by
  have held := shake.thread.mpr rfl
  have outside : phase.holds = false := by
    by_contra inside
    have other := shake.main.mpr (Bool.eq_true_of_not_eq_false inside)
    rw [held] at other; cases other
  refine ⟨nofun,shake.pointer,⟨nofun,nofun⟩,⟨nofun,fun inside => ?_⟩,shake.built,fun building => ?_,fun waits => ?_,
    fun _ => rfl⟩
  · rw [outside] at inside; cases inside
  · cases shake.early building
  · exact absurd rfl (shake.missed waits).1

end Shake

namespace LoopThreadPool
variable {s next : LoopThreadPool} {action : Action} {k : Nat}

structure Handing (size : Int) (index : Nat) (handed : List LoopPtr) : Prop where
  turns : 0 < size → ∃ place, handed = (turns size.toNat place handed.length).map .of ∧
    (index + 1) % size.toNat = (place + 1 + handed.length) % size.toNat
  base : size ≤ 0 → ∀ loop ∈ handed, loop = .base

structure Sound (s : LoopThreadPool) : Prop where
  loops : s.loops = (List.range s.loops.length).map .of
  settled : ∀ k < s.loops.length, s.entry k = .looping
  fresh : ∀ k, s.made ≤ k → s.entry k = .absent ∧ s.loop k = .null ∧ s.mutex k = none ∧ s.built k = false
  counted : s.made = s.loops.length + if s.phase.making then 1 else 0
  shake : s.phase.making = true → Shake s.loops.length s.phase (s.entry s.loops.length) (s.loop s.loops.length)
    (s.mutex s.loops.length) (s.built s.loops.length)
  enough : s.threadsSize.toNat ≤ s.made + s.left
  finished : s.phase = .idle → s.left = 0
  handing : Handing s.threadsSize s.threadIndex s.handed

theorem start_sound : Sound {} :=
  ⟨rfl,nofun,fun _ _ => ⟨rfl,rfl,rfl,rfl⟩,rfl,nofun,Nat.le_refl _,fun _ => rfl,fun _ => ⟨0,rfl,rfl⟩,nofun⟩

theorem Sound.current (sound : Sound s) (making : s.phase.making = true) : s.current = s.loops.length := by
  have counted := sound.counted
  rw [if_pos making] at counted
  rw [LoopThreadPool.current,counted,Nat.add_sub_cancel]

theorem Sound.during (sound : Sound s) (making : s.phase.making = true) {phase' : Phase} (making' : phase'.making = true)
    (shake : Shake s.loops.length phase' entry' loop' mutex' built') : Sound {s with
      phase := phase'
      entry := update s.entry s.loops.length entry'
      loop := update s.loop s.loops.length loop'
      mutex := update s.mutex s.loops.length mutex'
      built := update s.built s.loops.length built'} := by
  have counted := sound.counted
  rw [if_pos making] at counted
  refine ⟨sound.loops,fun k early => ?_,fun k late => ?_,?_,fun _ => ?_,sound.enough,fun idle => ?_,sound.handing⟩
  · dsimp only at early ⊢
    rw [Function.update_of_ne (Nat.ne_of_lt early)]
    exact sound.settled k early
  · dsimp only at late
    have other : k ≠ s.loops.length := by omega
    simp only [Function.update_of_ne other]
    exact sound.fresh k late
  · dsimp only
    rw [if_pos making',counted]
  · simp only [Function.update_self]
    exact shake
  · dsimp only at idle
    rw [idle] at making'; cases making'

theorem Sound.starts (sound : Sound s) (phase : s.phase = .starting) (taken : s.initPool = some next) : Sound next := by
  have counted := sound.counted
  rw [phase,if_neg nofun] at counted
  have same : s.made = s.loops.length := counted
  simp only [initPool,phase] at taken
  split at taken
  · rename_i done
    cases taken
    exact ⟨sound.loops,sound.settled,sound.fresh,counted,nofun,sound.enough,fun _ => done,sound.handing⟩
  · rename_i more
    cases taken
    obtain ⟨_,loop,mutex,built⟩ := sound.fresh s.made (Nat.le_refl _)
    have enough := sound.enough
    refine ⟨sound.loops,fun k early => ?_,fun k late => ?_,by rw [same]; rfl,fun _ => ?_,?_,nofun,sound.handing⟩
    · dsimp only at early ⊢
      rw [Function.update_of_ne (by omega)]
      exact sound.settled k early
    · dsimp only at late ⊢
      rw [Function.update_of_ne (by omega)]
      exact sound.fresh k (by omega)
    · dsimp only
      rw [← same,Function.update_self,loop,mutex,built]
      exact .start _
    · dsimp only
      omega

theorem Sound.returns (sound : Sound s) (phase : s.phase = .returning) : Sound {s with
    phase := .starting
    loops := s.loops ++ [s.loop s.loops.length]} := by
  have counted := sound.counted
  have shake := sound.shake (by rw [phase]; rfl)
  rw [phase] at counted shake
  have ready := shake.seen (.inr rfl)
  have pointer : s.loop s.loops.length = .of s.loops.length := by rw [shake.pointer,ready]; rfl
  refine ⟨?_,fun k early => ?_,sound.fresh,?_,nofun,sound.enough,nofun,sound.handing⟩
  · dsimp only
    rw [List.length_append,List.length_singleton,List.range_succ,List.map_append,← sound.loops,pointer]
    rfl
  · dsimp only at early ⊢
    rw [List.length_append,List.length_singleton] at early
    rcases Nat.lt_succ_iff_lt_or_eq.mp early with older | rfl
    · exact sound.settled k older
    · exact ready
  · dsimp only
    rw [List.length_append]
    exact counted

theorem getLock_taken {owner : Owner} (taken : s.getLock owner k = some next) :
    s.mutex k = none ∧ next = {s with mutex := update s.mutex k (some owner)} := by
  unfold getLock at taken
  split at taken
  · rename_i free
    exact ⟨free,(Option.some.inj taken).symm⟩
  · cases taken

theorem Sound.lock (sound : Sound s) (wants : s.phase = .locking ∨ s.phase = .woken) (free : s.mutex s.loops.length = none) :
    Sound {s with phase := .testing, mutex := update s.mutex s.loops.length (some .main)} := by
  have making : s.phase.making = true := by rcases wants with phase | phase <;> rw [phase] <;> rfl
  have shake := sound.shake making
  rw [free] at shake
  have moved := sound.during making rfl (shake.lock wants)
  simp only [Function.update_eq_self] at moved
  exact moved

theorem initPool_sound (sound : Sound s) (taken : s.initPool = some next) : Sound next := by
  cases phase : s.phase with
  | starting => exact sound.starts phase taken
  | idle | waiting => simp only [initPool,phase] at taken; cases taken
  | building =>
    have making : s.phase.making = true := by rw [phase]; rfl
    have shake := sound.shake making
    rw [phase] at shake
    simp only [initPool,phase,sound.current making] at taken
    cases taken
    have moved := sound.during making rfl shake.build
    simp only [Function.update_eq_self] at moved
    exact moved
  | locking | woken =>
    simp only [initPool,phase,sound.current (by rw [phase]; rfl)] at taken
    obtain ⟨locked,got,equal⟩ := Option.map_eq_some_iff.mp taken
    obtain ⟨free,rfl⟩ := getLock_taken got
    cases equal
    exact sound.lock (by simp [phase]) free
  | testing =>
    have making : s.phase.making = true := by rw [phase]; rfl
    have shake := sound.shake making
    rw [phase] at shake
    simp only [initPool,phase,sound.current making] at taken
    split at taken
    · rename_i none'
      cases taken
      rw [none'] at shake
      have moved := sound.during making rfl shake.wait
      rw [← none'] at moved
      simp only [Function.update_eq_self] at moved
      exact moved
    · rename_i set
      cases taken
      have moved := sound.during making rfl (shake.pass set)
      simp only [Function.update_eq_self] at moved
      exact moved
  | unlocking =>
    have making : s.phase.making = true := by rw [phase]; rfl
    have shake := sound.shake making
    rw [phase] at shake
    simp only [initPool,phase,sound.current making] at taken
    cases taken
    have moved := sound.during making rfl shake.unlock
    simp only [Function.update_eq_self] at moved
    exact moved
  | returning =>
    simp only [initPool,phase,sound.current (by rw [phase]; rfl)] at taken
    cases taken
    exact sound.returns phase

theorem Sound.acting (sound : Sound s) (taken : s.threadEntry k = some next) : s.phase.making = true ∧ k = s.loops.length := by
  have counted := sound.counted
  have outside : ¬k < s.loops.length ∧ ¬s.made ≤ k := by
    constructor
    · intro early
      simp only [threadEntry,sound.settled k early] at taken
      cases taken
    · intro late
      simp only [threadEntry,(sound.fresh k late).1] at taken
      cases taken
  split at counted
  · rename_i making
    exact ⟨making,by omega⟩
  · omega

theorem threadEntry_sound (sound : Sound s) (built : s.Built (.threadEntry k)) (taken : s.threadEntry k = some next) :
    Sound next := by
  obtain ⟨making,rfl⟩ := sound.acting taken
  have shake := sound.shake making
  cases entry : s.entry s.loops.length with
  | absent | looping => simp only [threadEntry,entry] at taken; cases taken
  | entered =>
    simp only [threadEntry,entry] at taken
    obtain ⟨locked,got,equal⟩ := Option.map_eq_some_iff.mp taken
    obtain ⟨free,rfl⟩ := getLock_taken got
    cases equal
    rw [entry,free,built entry] at shake
    have moved := sound.during making making shake.enter
    rw [← built entry] at moved
    simp only [Function.update_eq_self] at moved
    exact moved
  | locked =>
    simp only [threadEntry,entry] at taken
    cases taken
    rw [entry] at shake
    have moved := sound.during making making shake.publish
    simp only [Function.update_eq_self] at moved
    exact moved
  | published =>
    simp only [threadEntry,entry,sound.current making,and_true] at taken
    cases taken
    rw [entry] at shake
    have still : (if s.phase = .waiting then Phase.woken else s.phase).making = true := by
      split
      · rfl
      · exact making
    have moved := sound.during making still shake.notify
    simp only [Function.update_eq_self] at moved
    exact moved
  | notified =>
    simp only [threadEntry,entry] at taken
    cases taken
    rw [entry] at shake
    have moved := sound.during making making shake.leave
    simp only [Function.update_eq_self] at moved
    exact moved

theorem spurious_sound (sound : Sound s) (waits : s.phase = .waiting) : Sound {s with phase := .woken} := by
  have making : s.phase.making = true := by rw [waits]; rfl
  have shake := sound.shake making
  rw [waits] at shake
  have moved := sound.during making rfl shake.wake
  simp only [Function.update_eq_self] at moved
  exact moved

theorem Sound.turn (sound : Sound s) (idle : s.phase = .idle) (positive : 0 < s.threadsSize) :
    s.loops[(s.threadIndex + 1) % s.threadsSize.toNat]? = some (.of ((s.threadIndex + 1) % s.threadsSize.toNat)) := by
  have counted := sound.counted
  have enough := sound.enough
  rw [idle,if_neg nofun] at counted
  rw [sound.finished idle] at enough
  have inside : (s.threadIndex + 1) % s.threadsSize.toNat < s.threadsSize.toNat := Nat.mod_lt _ (by omega)
  rw [sound.loops,List.getElem?_map,List.getElem?_range (by omega)]
  rfl

theorem getNextLoopThread_sound (sound : Sound s) (taken : s.getNextLoopThread = some next) : Sound next := by
  unfold getNextLoopThread at taken
  split at taken
  · rename_i idle
    split at taken
    · rename_i positive
      obtain ⟨place,handed,index⟩ := sound.handing.turns positive
      simp only [sound.turn idle positive,Option.map_some] at taken
      cases taken
      refine ⟨sound.loops,sound.settled,sound.fresh,sound.counted,sound.shake,sound.enough,sound.finished,?_,fun none' => ?_⟩
      · refine fun _ => ⟨place,?_,?_⟩
        · dsimp only
          rw [List.length_append,List.length_singleton,turns_succ,List.map_append,← handed,index]
          rfl
        · dsimp only
          rw [List.length_append,List.length_singleton,index,Nat.mod_add_mod]
          rfl
      · exact absurd positive (Int.not_lt.mpr none')
    · rename_i none'
      cases taken
      refine ⟨sound.loops,sound.settled,sound.fresh,sound.counted,sound.shake,sound.enough,sound.finished,
        fun positive => absurd positive none',fun zero loop member => ?_⟩
      rcases List.mem_append.mp member with old | new
      · exact sound.handing.base zero loop old
      · exact List.mem_singleton.mp new
  · cases taken

theorem setThreadCountAndInit_sound {nums : Int} (sound : Sound s) (taken : s.setThreadCountAndInit nums = some next) :
    Sound next := by
  unfold setThreadCountAndInit at taken
  split at taken
  · rename_i idle
    cases taken
    have counted := sound.counted
    rw [idle] at counted
    exact ⟨sound.loops,sound.settled,sound.fresh,counted,nofun,Nat.le_add_left _ _,nofun,
      fun _ => ⟨s.threadIndex,rfl,rfl⟩,fun _ => nofun⟩
  · cases taken

theorem step_sound (sound : Sound s) (built : s.Built action) (taken : s.step action = some next) : Sound next := by
  cases action with
  | setThreadCountAndInit nums => exact setThreadCountAndInit_sound sound taken
  | initPool => exact initPool_sound sound taken
  | threadEntry k => exact threadEntry_sound sound built taken
  | spurious =>
    simp only [step] at taken
    split at taken
    · rename_i waits
      cases taken
      exact spurious_sound sound waits
    · cases taken
  | getNextLoopThread => exact getNextLoopThread_sound sound taken

def work (s : LoopThreadPool) : Nat :=
  20 * s.left + s.phase.cost (s.entry s.current).hasLoop + (s.entry s.current).cost

theorem initPool_costs (sound : Sound s) (taken : s.initPool = some next) : next.work < s.work := by
  cases phase : s.phase with
  | idle | waiting => simp only [initPool,phase] at taken; cases taken
  | starting =>
    simp only [initPool,phase] at taken
    split at taken
    · cases taken
      simp only [work,phase,Phase.cost,current]
      omega
    · cases taken
      simp only [work,phase,Phase.cost,current,Nat.add_sub_cancel,Function.update_self,Entry.cost]
      omega
  | building =>
    have shake := sound.shake (by rw [phase]; rfl)
    rw [phase] at shake
    simp only [initPool,phase] at taken
    cases taken
    have early : s.entry s.current = .entered := by rw [sound.current (by rw [phase]; rfl)]; exact shake.early rfl
    simp only [current] at early
    simp [work,phase,Phase.cost,current,early,Entry.hasLoop]
  | locking | woken =>
    simp only [initPool,phase] at taken
    obtain ⟨locked,got,equal⟩ := Option.map_eq_some_iff.mp taken
    obtain ⟨free,rfl⟩ := getLock_taken got
    cases equal
    have cheaper : Phase.testing.cost (s.entry s.current).hasLoop < s.phase.cost (s.entry s.current).hasLoop := by
      rw [phase]
      cases (s.entry s.current).hasLoop <;> decide
    simp only [work,current] at cheaper ⊢
    omega
  | testing =>
    have shake := sound.shake (by rw [phase]; rfl)
    rw [← sound.current (by rw [phase]; rfl),phase] at shake
    have pointer := shake.pointer
    simp only [initPool,phase] at taken
    split at taken
    · rename_i none'
      cases taken
      cases shown : (s.entry s.current).hasLoop with
      | true => rw [shown,none'] at pointer; cases pointer
      | false =>
        simp only [current] at shown
        simp [work,phase,Phase.cost,current,shown]
    · cases taken
      have cheaper : Phase.unlocking.cost (s.entry s.current).hasLoop < s.phase.cost (s.entry s.current).hasLoop := by
        rw [phase]
        cases (s.entry s.current).hasLoop <;> decide
      simp only [work,current] at cheaper ⊢
      omega
  | unlocking | returning =>
    simp only [initPool,phase] at taken
    cases taken
    simp [work,phase,Phase.cost,current]

theorem threadEntry_costs (sound : Sound s) (taken : s.threadEntry k = some next) : next.work < s.work := by
  obtain ⟨making,rfl⟩ := sound.acting taken
  have at' := sound.current making
  rw [← at'] at taken
  cases entry : s.entry s.current with
  | absent | looping => simp only [threadEntry,entry] at taken; cases taken
  | entered =>
    simp only [threadEntry,entry] at taken
    obtain ⟨locked,got,equal⟩ := Option.map_eq_some_iff.mp taken
    obtain ⟨free,rfl⟩ := getLock_taken got
    cases equal
    simp only [current] at entry
    simp [work,current,entry,Entry.hasLoop,Entry.cost]
  | locked =>
    simp only [threadEntry,entry] at taken
    cases taken
    simp only [current] at entry
    have lower : s.phase.cost true ≤ s.phase.cost false := by cases s.phase <;> decide
    simp only [work,current,entry,Function.update_self,Entry.hasLoop,Entry.cost]
    omega
  | published =>
    simp only [threadEntry,entry] at taken
    cases taken
    simp only [current] at entry
    simp only [work,current,entry,Function.update_self,Entry.hasLoop,Entry.cost,and_true]
    split
    · rename_i waits
      rw [waits]
      simp only [Phase.cost,if_true]
      omega
    · omega
  | notified =>
    simp only [threadEntry,entry] at taken
    cases taken
    simp only [current] at entry
    simp [work,current,entry,Entry.hasLoop,Entry.cost]

theorem holder_proceeds (holds : (s.entry k).holds = true) : ∃ next, s.advance (.threadEntry k) = some next := by
  have built : s.Built (.threadEntry k) := fun entered => by rw [entered] at holds; cases holds
  simp only [advance,if_pos built,step,threadEntry]
  cases entry : s.entry k with
  | absent | entered | looping => rw [entry] at holds; cases holds
  | locked | published | notified => exact ⟨_,rfl⟩

theorem locker_proceeds (sound : Sound s) (wants : s.phase = .locking ∨ s.phase = .woken) :
    ∃ action next, s.advance action = some next := by
  have making : s.phase.making = true := by rcases wants with phase | phase <;> rw [phase] <;> rfl
  have outside : s.phase.holds = false := by rcases wants with phase | phase <;> rw [phase] <;> rfl
  have shake := sound.shake making
  rw [← sound.current making] at shake
  cases held : s.mutex s.current with
  | none =>
    have got : s.getLock .main s.current = some {s with mutex := update s.mutex s.current (some .main)} := if_pos held
    refine ⟨.initPool,?_⟩
    rcases wants with phase | phase <;> simp only [advance,step,initPool,phase,got,Option.map_some] <;> exact ⟨_,rfl⟩
  | some owner =>
    cases owner with
    | main =>
      have inside := shake.main.mp held
      rw [outside] at inside; cases inside
    | thread => exact ⟨_,holder_proceeds (shake.thread.mp held)⟩

theorem waiter_proceeds (sound : Sound s) (waits : s.phase = .waiting) : ∃ action next, s.advance action = some next := by
  have making : s.phase.making = true := by rw [waits]; rfl
  have shake := sound.shake making
  rw [← sound.current making,waits] at shake
  refine ⟨.threadEntry s.current,?_⟩
  cases entry : s.entry s.current with
  | absent => exact absurd entry shake.there
  | notified => exact absurd entry (shake.missed rfl).1
  | looping => exact absurd entry (shake.missed rfl).2
  | locked | published => exact holder_proceeds (by rw [entry]; rfl)
  | entered =>
    have built : s.Built (.threadEntry s.current) := fun _ => shake.built.mpr nofun
    have free : s.mutex s.current = none := by
      cases held : s.mutex s.current with
      | none => rfl
      | some owner =>
        cases owner with
        | main => cases shake.main.mp held
        | thread =>
          have holds := shake.thread.mp held
          rw [entry] at holds; cases holds
    have got : s.getLock .thread s.current = some {s with mutex := update s.mutex s.current (some .thread)} := if_pos free
    simp only [advance,if_pos built,step,threadEntry,entry,got,Option.map_some]
    exact ⟨_,rfl⟩

-- As long as InitPool is not done, it or the thread it waits for can go on.
theorem Sound.proceeds (sound : Sound s) (busy : s.phase ≠ .idle) : ∃ action next, s.advance action = some next := by
  cases phase : s.phase with
  | idle => exact absurd phase busy
  | starting | testing =>
    refine ⟨.initPool,?_⟩
    simp only [advance,step,initPool,phase]
    split
    · exact ⟨_,rfl⟩
    · exact ⟨_,rfl⟩
  | building | unlocking | returning =>
    refine ⟨.initPool,?_⟩
    simp only [advance,step,initPool,phase]
    exact ⟨_,rfl⟩
  | locking => exact locker_proceeds sound (.inl phase)
  | woken => exact locker_proceeds sound (.inr phase)
  | waiting => exact waiter_proceeds sound phase

theorem advance_costs (sound : Sound s) (taken : s.advance action = some next) : Sound next ∧ next.work < s.work := by
  cases action with
  | initPool => exact ⟨initPool_sound sound taken,initPool_costs sound taken⟩
  | threadEntry k =>
    simp only [advance] at taken
    split at taken
    · rename_i built
      exact ⟨threadEntry_sound sound built taken,threadEntry_costs sound taken⟩
    · cases taken
  | setThreadCountAndInit | spurious | getNextLoopThread => cases taken

structure Served (s : LoopThreadPool) : Prop where
  running : ∀ loop ∈ s.loops, ∃ k, loop = .of k ∧ s.entry k = .looping
  distinct : s.loops.Nodup
  inside : s.phase = .idle → ∃ next, s.getNextLoopThread = some next
  even : 0 < s.threadsSize → ∀ k < s.threadsSize.toNat,
    s.handed.length / s.threadsSize.toNat ≤ s.handed.count (.of k) ∧
      s.handed.count (.of k) ≤ s.handed.length / s.threadsSize.toNat + 1
  base : s.threadsSize ≤ 0 → ∀ loop ∈ s.handed, loop = .base
  ends : ∀ actions next, run advance s actions = some next →
    actions.length ≤ s.work ∧ ((∀ action, next.advance action = none) → next.phase = .idle)

theorem of_injective : Function.Injective LoopPtr.of := fun _ _ same => LoopPtr.of.inj same

theorem Sound.served (sound : Sound s) : Served s := by
  refine ⟨fun loop member => ?_,?_,fun idle => ?_,fun positive k inside => ?_,sound.handing.base,fun actions next ran => ?_⟩
  · rw [sound.loops] at member
    obtain ⟨k,early,rfl⟩ := List.mem_map.mp member
    exact ⟨k,rfl,sound.settled k (List.mem_range.mp early)⟩
  · rw [sound.loops]
    exact List.nodup_range.map of_injective
  · unfold getNextLoopThread
    rw [if_pos idle]
    split
    · rename_i positive
      dsimp only
      rw [sound.turn idle positive]
      exact ⟨_,rfl⟩
    · exact ⟨_,rfl⟩
  · obtain ⟨place,handed,_⟩ := sound.handing.turns positive
    have counted : s.handed.count (.of k) = (turns s.threadsSize.toNat place s.handed.length).count k := by
      conv_lhs => rw [handed]
      exact List.count_map_of_injective _ _ of_injective k
    rw [counted]
    exact turns_even inside
  · obtain ⟨valid,bound⟩ := run_bounded (fun s action next sound taken => advance_costs sound taken) sound ran
    refine ⟨Nat.le_trans (Nat.le_add_right _ _) bound,fun stuck => ?_⟩
    by_contra busy
    obtain ⟨action,after,taken⟩ := valid.proceeds busy
    rw [stuck action] at taken; cases taken

-- As long as no thread locks a mutex before it is constructed: whatever the order in which InitPool and
-- the threads it starts take their steps, and however often the wait wakes up for nothing, InitPool ends
-- with one loop for each thread, all of them running, and connections are handed to them evenly.
theorem loops_served (actions : List Action) (s : LoopThreadPool) (built : Throughout step Built {} actions)
    (ran : run step {} actions = some s) : Served s :=
  (run_keeps (fun _ _ _ sound built taken => step_sound sound built taken) start_sound built ran).served

def twoThreads : List Action := [.setThreadCountAndInit 2,.initPool,.initPool,.initPool,.initPool,.threadEntry 0,
  .threadEntry 0,.spurious,.threadEntry 0,.threadEntry 0,.initPool,.initPool,.initPool,.initPool,.initPool,.initPool,
  .threadEntry 1,.threadEntry 1,.threadEntry 1,.threadEntry 1,.initPool,.initPool,.initPool,.initPool,.initPool,
  .getNextLoopThread,.getNextLoopThread,.getNextLoopThread]

theorem loops_served_two : ∃ s, run step {} twoThreads = some s ∧ s.handed = [.of 1,.of 0,.of 1] ∧ Served s :=
  ⟨_,rfl,rfl,loops_served twoThreads _ (by decide) rfl⟩

-- Nothing makes a thread wait for the constructor.
example : (run step {} [.setThreadCountAndInit 1,.initPool,.threadEntry 0]).map (fun s => (s.entry 0,s.built 0)) =
    some (.locked,false) := by decide

end LoopThreadPool
end LinuxOS.Muduo.LoopThreads
