import LinuxOS.Condition
import LinuxOS.Machine

namespace LinuxOS.Threads
open Function (update)
open Census Machine
variable {T : Type} {n : Nat}

-- Where a thread is. In Enqueue: behind P, behind lock, behind the access, behind the
-- load of `_data_sem`, behind its store, behind unlock. In Dequeue: behind P, behind
-- lock, behind the access, behind unlock.
inductive RingPlace (T : Type) where
  | outside
  | admitted (task : T) | locked (task : T) | written | loaded (value : Nat) | stored | unlocked
  | wanting | holding | taken | released

def RingPlace.owes : RingPlace T → Bool
  | .written | .loaded _ | .stored | .unlocked => true
  | _ => false

def RingPlace.claims : RingPlace T → Bool
  | .wanting | .holding => true
  | _ => false

-- The semaphores are integers. The vector is what the constructor made of it: `_cap` is
-- declared after `_ring_queue`, so its size need not be `_cap`. `accesses` are the
-- indices used so far; the counters at the end are the P and V made so far.
structure RingQueue (T : Type) (n : Nat) where
  ringQueue : List T
  cap : Nat
  spaceSem : Nat
  dataSem : Nat := 0
  produceStep : Nat := 0
  consumerStep : Nat := 0
  mutex : Option (Fin n) := none
  places : Fin n → RingPlace T := fun _ => .outside
  accesses : List Nat := []
  enqueued : List T := []
  dequeued : List (Option T) := []
  spaceP : Nat := 0
  spaceV : Nat := 0
  dataP : Nat := 0
  dataV : Nat := 0

inductive RingQueueAction (T : Type) (n : Nat) where
  | enqueue (t : Fin n) (task : T)
  | dequeue (t : Fin n)
  | go (t : Fin n)

namespace RingQueue
variable (s : RingQueue T n) (t : Fin n)

def create (cap : Nat) (ringQueue : List T) : RingQueue T n where
  ringQueue := ringQueue
  cap := cap
  spaceSem := cap

def move (place : RingPlace T) : RingQueue T n := {s with places := update s.places t place}

def lock (place : RingPlace T) : Option (RingQueue T n) :=
  if s.mutex = none then some {s.move t place with mutex := some t} else none

-- `_ring_queue[_produce_step++] = task;`
def write (task : T) : RingQueue T n :=
  {s.move t .written with
    ringQueue := s.ringQueue.set s.produceStep task
    produceStep := s.produceStep + 1
    accesses := s.accesses ++ [s.produceStep]
    enqueued := s.enqueued ++ [task]}

-- `*task = _ring_queue[_consumer_step++]; _consumer_step %= _cap;` A value that is not
-- in the vector is none.
def take : RingQueue T n :=
  {s.move t .taken with
    consumerStep := (s.consumerStep + 1) % s.cap
    accesses := s.accesses ++ [s.consumerStep]
    dequeued := s.dequeued ++ [s.ringQueue[s.consumerStep]?]}

-- `_data_sem %= _cap;` is a load and a store; the lock does not keep P and V out.
def advance : Option (RingQueue T n) :=
  match s.places t with
  | .outside => none
  | .admitted task => s.lock t (.locked task)
  | .locked task => some (s.write t task)
  | .written => some (s.move t (.loaded s.dataSem))
  | .loaded value => some {s.move t .stored with dataSem := value % s.cap}
  | .stored => some {s.move t .unlocked with mutex := none}
  | .unlocked => some {s.move t .outside with dataSem := s.dataSem + 1, dataV := s.dataV + 1}
  | .wanting => s.lock t .holding
  | .holding => some (s.take t)
  | .taken => some {s.move t .released with mutex := none}
  | .released => some {s.move t .outside with spaceSem := s.spaceSem + 1, spaceV := s.spaceV + 1}

def step : RingQueueAction T n → Option (RingQueue T n)
  | .enqueue t task =>
    match s.places t with
    | .outside =>
      if 0 < s.spaceSem then
        some {s.move t (.admitted task) with spaceSem := s.spaceSem - 1, spaceP := s.spaceP + 1}
      else none
    | _ => none
  | .dequeue t =>
    match s.places t with
    | .outside =>
      if 0 < s.dataSem then some {s.move t .wanting with dataSem := s.dataSem - 1, dataP := s.dataP + 1}
      else none
    | _ => none
  | .go t => s.advance t

-- The ring has not been filled once yet, and the store puts back what is there.
def Harmless (s : RingQueue T n) : RingQueueAction T n → Prop
  | .go t =>
    match s.places t with
    | .locked _ => s.enqueued.length < s.cap
    | .loaded value => s.dataSem = value
    | _ => True
  | _ => True

instance (s : RingQueue T n) : DecidablePred s.Harmless
  | .enqueue .. | .dequeue _ => .isTrue trivial
  | .go t => by
    unfold Harmless
    dsimp only
    split <;> infer_instance

def owing : Nat := census s.places (·.owes = true)
def claiming : Nat := census s.places (·.claims = true)

structure Sound (capacity : Nat) (s : RingQueue T n) : Prop where
  sized : s.cap = capacity
  room : capacity ≤ s.ringQueue.length
  produced : s.produceStep = s.enqueued.length
  notFull : s.enqueued.length ≤ capacity
  consumed : s.consumerStep = s.dequeued.length % capacity
  held : ∀ k < s.enqueued.length, s.ringQueue[k]? = s.enqueued[k]?
  order : s.dequeued = (s.enqueued.take s.dequeued.length).map some
  inside : ∀ i ∈ s.accesses, i < capacity
  announced : s.dataV + s.owing = s.enqueued.length
  asked : s.dataP = s.dequeued.length + s.claiming
  space : s.spaceSem + s.spaceP = capacity + s.spaceV
  data : s.dataSem + s.dataP = s.dataV

variable {s t} {capacity : Nat} {next : RingQueue T n} {action : RingQueueAction T n} {place : RingPlace T}

theorem start_sound {ringQueue : List T} (room : capacity ≤ ringQueue.length) :
    Sound capacity (create capacity ringQueue : RingQueue T n) := by
  have nobody : census (create capacity ringQueue : RingQueue T n).places (·.owes = true) = 0 :=
    census_eq_zero.mpr fun _ owes => by cases owes
  have none_claims : census (create capacity ringQueue : RingQueue T n).places (·.claims = true) = 0 :=
    census_eq_zero.mpr fun _ claims => by cases claims
  exact {
    sized := rfl, room := room, produced := rfl, notFull := Nat.zero_le _, consumed := (Nat.zero_mod _).symm
    held := fun k below => absurd below (Nat.not_lt_zero k)
    order := rfl, inside := fun i used => by cases used
    announced := by rw [owing,nobody]; rfl
    asked := by rw [claiming,none_claims]; rfl
    space := rfl, data := rfl}

theorem owing_move (s : RingQueue T n) (t : Fin n) (place : RingPlace T) :
    (s.move t place).owing + (if (s.places t).owes = true then 1 else 0) = s.owing + if place.owes = true then 1 else 0 :=
  census_update s.places (·.owes = true) t place

theorem claiming_move (s : RingQueue T n) (t : Fin n) (place : RingPlace T) :
    (s.move t place).claiming + (if (s.places t).claims = true then 1 else 0) =
      s.claiming + if place.claims = true then 1 else 0 :=
  census_update s.places (·.claims = true) t place

theorem Sound.move (sound : Sound capacity s) (owes : place.owes = (s.places t).owes)
    (claims : place.claims = (s.places t).claims) : Sound capacity (s.move t place) := by
  have owing := owing_move s t place
  have claiming := claiming_move s t place
  rw [owes] at owing
  rw [claims] at claiming
  exact {sound with
    announced := by rw [Nat.add_right_cancel owing]; exact sound.announced
    asked := by rw [Nat.add_right_cancel claiming]; exact sound.asked}

theorem Sound.mutex (sound : Sound capacity s) (mutex : Option (Fin n)) : Sound capacity {s with mutex := mutex} :=
  {sound with}

theorem Sound.lock (sound : Sound capacity s) (owes : place.owes = (s.places t).owes)
    (claims : place.claims = (s.places t).claims) (taken : s.lock t place = some next) : Sound capacity next := by
  obtain ⟨_,equal⟩ := Option.ite_none_right_eq_some.mp taken
  cases equal
  exact (sound.move owes claims).mutex (some t)

theorem Sound.supplied (sound : Sound capacity s) (at' : s.places t = .holding) :
    s.dequeued.length < s.enqueued.length := by
  have some_claim : 0 < s.claiming := census_pos.mpr ⟨t,by rw [at']; rfl⟩
  have announced := sound.announced
  have asked := sound.asked
  have data := sound.data
  omega

theorem Sound.write (sound : Sound capacity s) {task : T} (at' : s.places t = .locked task)
    (room : s.enqueued.length < s.cap) : Sound capacity (s.write t task) := by
  have owing := owing_move s t .written
  have claiming := claiming_move s t .written
  simp only [at',RingPlace.owes,RingPlace.claims] at owing claiming
  rw [sound.sized] at room
  have announced := sound.announced
  have fits := sound.room
  exact {
    sized := sound.sized
    room := by rw [RingQueue.write,List.length_set]; exact sound.room
    produced := by
      show s.produceStep + 1 = (s.enqueued ++ [task]).length
      rw [sound.produced,List.length_append]
      rfl
    notFull := by
      show (s.enqueued ++ [task]).length ≤ capacity
      rw [List.length_append]
      exact room
    consumed := sound.consumed
    held := by
      intro k below
      show (s.ringQueue.set s.produceStep task)[k]? = (s.enqueued ++ [task])[k]?
      rw [sound.produced]
      by_cases last : k = s.enqueued.length
      · rw [last,List.getElem?_set_self (Nat.lt_of_lt_of_le room fits),List.getElem?_concat_length]
      · have older : k < s.enqueued.length := by
          have size : (s.write t task).enqueued.length = s.enqueued.length + 1 := List.length_append
          omega
        rw [List.getElem?_set_ne (Ne.symm last),List.getElem?_append_left older]
        exact sound.held k older
    order := by
      have fewer : s.dequeued.length ≤ s.enqueued.length := by
        have size := congrArg List.length sound.order
        rw [List.length_map,List.length_take] at size
        omega
      show s.dequeued = ((s.enqueued ++ [task]).take s.dequeued.length).map some
      rw [List.take_append_of_le_length fewer]
      exact sound.order
    inside := by
      intro i used
      rcases List.mem_append.mp used with before | now
      · exact sound.inside i before
      · rw [List.mem_singleton.mp now,sound.produced]
        exact room
    announced := by
      show s.dataV + (s.move t .written).owing = (s.enqueued ++ [task]).length
      rw [List.length_append]
      simp at owing ⊢
      omega
    asked := by
      show s.dataP = s.dequeued.length + (s.move t .written).claiming
      have asked := sound.asked
      simp at claiming
      omega
    space := sound.space
    data := sound.data}

theorem Sound.take (sound : Sound capacity s) (at' : s.places t = .holding) : Sound capacity (s.take t) := by
  have owing := owing_move s t .taken
  have claiming := claiming_move s t .taken
  simp only [at',RingPlace.owes,RingPlace.claims] at owing claiming
  have supplied := sound.supplied at'
  have notFull := sound.notFull
  have index : s.consumerStep = s.dequeued.length := by
    rw [sound.consumed,Nat.mod_eq_of_lt (by omega)]
  have size : (s.take t).dequeued.length = s.dequeued.length + 1 := List.length_append
  exact {
    sized := sound.sized
    room := sound.room
    produced := sound.produced
    notFull := sound.notFull
    consumed := by
      rw [size]
      show (s.consumerStep + 1) % s.cap = _
      rw [index,sound.sized]
    held := sound.held
    order := by
      rw [size]
      show s.dequeued ++ [s.ringQueue[s.consumerStep]?] = (s.enqueued.take (s.dequeued.length + 1)).map some
      rw [index,sound.held _ supplied,List.take_add_one,List.map_append,← sound.order,List.getElem?_eq_getElem supplied]
      rfl
    inside := by
      intro i used
      rcases List.mem_append.mp used with before | now
      · exact sound.inside i before
      · rw [List.mem_singleton.mp now,index]
        omega
    announced := by
      show s.dataV + (s.move t .taken).owing = s.enqueued.length
      have announced := sound.announced
      simp at owing
      omega
    asked := by
      rw [size]
      show s.dataP = s.dequeued.length + 1 + (s.move t .taken).claiming
      have asked := sound.asked
      simp at claiming
      omega
    space := sound.space
    data := sound.data}

theorem Sound.spaceTaken (sound : Sound capacity s) (some_space : 0 < s.spaceSem) :
    Sound capacity {s with spaceSem := s.spaceSem - 1, spaceP := s.spaceP + 1} :=
  {sound with
    space := by
      show s.spaceSem - 1 + (s.spaceP + 1) = capacity + s.spaceV
      have space := sound.space
      omega}

theorem Sound.spaceGiven (sound : Sound capacity s) :
    Sound capacity {s with spaceSem := s.spaceSem + 1, spaceV := s.spaceV + 1} :=
  {sound with
    space := by
      show s.spaceSem + 1 + s.spaceP = capacity + (s.spaceV + 1)
      have space := sound.space
      omega}

theorem Sound.dataTaken (sound : Sound capacity s) (at' : s.places t = .outside) (some_data : 0 < s.dataSem) :
    Sound capacity {s.move t .wanting with dataSem := s.dataSem - 1, dataP := s.dataP + 1} := by
  have owing := owing_move s t .wanting
  have claiming := claiming_move s t .wanting
  have announced := sound.announced
  have asked := sound.asked
  have data := sound.data
  simp [at',RingPlace.owes,RingPlace.claims] at owing claiming
  exact {sound with
    announced := by
      show s.dataV + (s.move t .wanting).owing = s.enqueued.length
      omega
    asked := by
      show s.dataP + 1 = s.dequeued.length + (s.move t .wanting).claiming
      omega
    data := by
      show s.dataSem - 1 + (s.dataP + 1) = s.dataV
      omega}

theorem Sound.dataGiven (sound : Sound capacity s) (at' : s.places t = .unlocked) :
    Sound capacity {s.move t .outside with dataSem := s.dataSem + 1, dataV := s.dataV + 1} := by
  have owing := owing_move s t .outside
  have claiming := claiming_move s t .outside
  have announced := sound.announced
  have asked := sound.asked
  have data := sound.data
  simp [at',RingPlace.owes,RingPlace.claims] at owing claiming
  exact {sound with
    announced := by
      show s.dataV + 1 + (s.move t .outside).owing = s.enqueued.length
      omega
    asked := by
      show s.dataP = s.dequeued.length + (s.move t .outside).claiming
      omega
    data := by
      show s.dataSem + 1 + s.dataP = s.dataV + 1
      omega}

-- The thread at the store has not announced its value yet, so fewer are announced
-- than the ring has places, and the remainder is the number itself.
theorem Sound.store (sound : Sound capacity s) (at' : s.places t = .loaded s.dataSem) :
    Sound capacity {s.move t .stored with dataSem := s.dataSem % s.cap} := by
  have one_owes : 0 < s.owing := census_pos.mpr ⟨t,by rw [at']; rfl⟩
  have announced := sound.announced
  have data := sound.data
  have notFull := sound.notFull
  have small : s.dataSem % s.cap = s.dataSem := by
    rw [sound.sized]
    exact Nat.mod_eq_of_lt (by omega)
  have moved : Sound capacity (s.move t .stored) := sound.move (by rw [at']; rfl) (by rw [at']; rfl)
  rw [small]
  exact {moved with}

theorem Sound.advance (sound : Sound capacity s) (harmless : s.Harmless (.go t)) (stepped : s.advance t = some next) :
    Sound capacity next := by
  unfold RingQueue.advance at stepped
  unfold Harmless at harmless
  cases at' : s.places t with
  | outside => simp [at'] at stepped
  | admitted task =>
    simp only [at'] at stepped
    exact sound.lock (by rw [at']; rfl) (by rw [at']; rfl) stepped
  | locked task =>
    simp only [at'] at stepped harmless
    cases stepped
    exact sound.write at' harmless
  | written =>
    simp only [at'] at stepped
    cases stepped
    exact sound.move (by rw [at']; rfl) (by rw [at']; rfl)
  | loaded value =>
    simp only [at'] at stepped harmless
    cases stepped
    subst harmless
    exact sound.store at'
  | stored =>
    simp only [at'] at stepped
    cases stepped
    exact (sound.move (by rw [at']; rfl) (by rw [at']; rfl)).mutex none
  | unlocked =>
    simp only [at'] at stepped
    cases stepped
    exact sound.dataGiven at'
  | wanting =>
    simp only [at'] at stepped
    exact sound.lock (by rw [at']; rfl) (by rw [at']; rfl) stepped
  | holding =>
    simp only [at'] at stepped
    cases stepped
    exact sound.take at'
  | taken =>
    simp only [at'] at stepped
    cases stepped
    exact (sound.move (by rw [at']; rfl) (by rw [at']; rfl)).mutex none
  | released =>
    simp only [at'] at stepped
    cases stepped
    exact (sound.move (by rw [at']; rfl) (by rw [at']; rfl)).spaceGiven

theorem step_sound (sound : Sound capacity s) (harmless : s.Harmless action) (stepped : s.step action = some next) :
    Sound capacity next := by
  cases action with
  | enqueue t task =>
    cases at' : s.places t with
    | outside =>
      simp only [step,at'] at stepped
      obtain ⟨some_space,equal⟩ := Option.ite_none_right_eq_some.mp stepped
      cases equal
      exact (sound.move (by rw [at']; rfl) (by rw [at']; rfl)).spaceTaken some_space
    | _ => simp [step,at'] at stepped
  | dequeue t =>
    cases at' : s.places t with
    | outside =>
      simp only [step,at'] at stepped
      obtain ⟨some_data,equal⟩ := Option.ite_none_right_eq_some.mp stepped
      cases equal
      exact sound.dataTaken at' some_data
    | _ => simp [step,at'] at stepped
  | go t => exact sound.advance harmless stepped

theorem run_sound {ringQueue : List T} {actions : List (RingQueueAction T n)} (room : capacity ≤ ringQueue.length)
    (harmless : Throughout step Harmless (create capacity ringQueue) actions)
    (ran : run step (create capacity ringQueue) actions = some next) : Sound capacity next :=
  run_keeps (fun _ _ _ sound harmless stepped => step_sound sound harmless stepped) (start_sound room) harmless ran

theorem ringQueue_until_full (capacity : Nat) (ringQueue : List T) (actions : List (RingQueueAction T n))
    (room : capacity ≤ ringQueue.length) (harmless : Throughout step Harmless (create capacity ringQueue) actions)
    (ran : run step (create capacity ringQueue) actions = some next) :
    (∀ i ∈ next.accesses, i < capacity) ∧ next.spaceSem + next.spaceP = capacity + next.spaceV ∧
      next.dataSem + next.dataP = next.dataV ∧ next.dequeued <+: next.enqueued.map some := by
  have sound := run_sound room harmless ran
  refine ⟨sound.inside,sound.space,sound.data,?_⟩
  rw [sound.order,List.map_take]
  exact List.take_prefix _ _

def roundTrip (task : Nat) : List (RingQueueAction Nat 1) :=
  let t : Fin 1 := ⟨0,Nat.zero_lt_one⟩
  .enqueue t task :: List.replicate 6 (.go t) ++ .dequeue t :: List.replicate 4 (.go t)

theorem ringQueue_until_full_once : ∃ next, run step (create 1 [0]) (roundTrip 7) = some next ∧
    (∀ i ∈ next.accesses, i < 1) ∧ next.spaceSem + next.spaceP = 1 + next.spaceV ∧
    next.dataSem + next.dataP = next.dataV ∧ next.dequeued <+: next.enqueued.map some := by
  refine ⟨_,rfl,?_⟩
  exact ringQueue_until_full 1 [0] (roundTrip 7) (by decide) (by decide) rfl

-- The second Enqueue of a ring with one place writes behind its end.
theorem ringQueue_second_round : ¬∀ (capacity : Nat) (ringQueue : List Nat) (actions : List (RingQueueAction Nat 1))
    (next : RingQueue Nat 1), 1 ≤ capacity → ringQueue.length = capacity →
    run step (create capacity ringQueue) actions = some next → ∀ i ∈ next.accesses, i < capacity := by
  intro holds
  have inside := holds 1 [0] (roundTrip 7 ++ roundTrip 8) _ (Nat.le_refl 1) rfl rfl 1 (by decide)
  exact absurd inside (by decide)

end RingQueue
end LinuxOS.Threads
