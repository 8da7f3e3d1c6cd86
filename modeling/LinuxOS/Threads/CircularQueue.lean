import LinuxOS.Condition
import LinuxOS.Machine
import LinuxOS.Ring

namespace LinuxOS.Threads
open Function (update)
open Census LinuxOS.Ring
variable {T : Type} {n producers consumers : Nat}

-- Where a thread is in Push or Pop: outside, behind P, behind Lock, behind the access to
-- the slot, behind the two statements on the index, behind Unlock and about to V.
inductive Position where
  | outside | admitted | locked | accessed | advanced | unlocked
  deriving DecidableEq, Repr

def Position.Holds (place : Position) : Prop := place = .locked ∨ place = .accessed ∨ place = .advanced
def Position.Claims (place : Position) : Prop := place = .admitted ∨ place = .locked
def Position.Owes (place : Position) : Prop := place = .accessed ∨ place = .advanced ∨ place = .unlocked

instance : DecidablePred Position.Claims := fun _ => inferInstanceAs (Decidable (_ ∨ _))
instance : DecidablePred Position.Owes := fun _ => inferInstanceAs (Decidable (_ ∨ _ ∨ _))

structure Side (n : Nat) where
  suffix : Nat := 0
  mutex : Option (Fin n) := none
  places : Fin n → Position := fun _ => .outside

namespace Side
variable {s next : Side n} {t : Fin n} {count capacity : Nat}

def move (s : Side n) (t : Fin n) (place : Position) : Side n := {s with places := update s.places t place}

-- pthread_mutex_lock blocks while another thread has the mutex.
def lock (s : Side n) (t : Fin n) : Option (Side n) :=
  if s.mutex = none then some {s.move t .locked with mutex := some t} else none

-- `++suffix; suffix %= _max_capacity;`
def advance (s : Side n) (t : Fin n) (capacity : Nat) : Side n :=
  {s.move t .advanced with suffix := (s.suffix + 1) % capacity}

def unlock (s : Side n) (t : Fin n) : Side n := {s.move t .unlocked with mutex := none}

def claims (s : Side n) : Nat := census s.places Position.Claims
def owes (s : Side n) : Nat := census s.places Position.Owes
def behind (s : Side n) : Nat := census s.places (· = .accessed)

-- The index is the number of accesses modulo the capacity, but for the thread that has
-- accessed its slot and still has to move the index.
structure Sound (s : Side n) (capacity count : Nat) : Prop where
  exclusive : ∀ t, (s.places t).Holds → s.mutex = some t
  counted : s.behind ≤ count
  index : s.suffix = (count - s.behind) % capacity

theorem start_sound (capacity : Nat) : Sound ({} : Side n) capacity 0 := by
  have nobody : ({} : Side n).behind = 0 := census_eq_zero.mpr fun _ => Position.noConfusion
  refine ⟨fun t held => ?_,Nat.le_of_eq nobody,?_⟩
  · rcases held with at' | at' | at' <;> cases at'
  · rw [Nat.zero_sub,Nat.zero_mod]

theorem Sound.alone (sound : Sound s capacity count) (held : (s.places t).Holds) (u : Fin n) (other : u ≠ t) :
    ¬(s.places u).Holds := by
  intro held'
  have same := (sound.exclusive u held').symm.trans (sound.exclusive t held)
  exact other (Option.some.inj same)

theorem Sound.none_behind (sound : Sound s capacity count) (at' : s.places t = .locked) : s.behind = 0 := by
  refine census_eq_zero.mpr fun u accessed => ?_
  have held : (s.places t).Holds := .inl at'
  by_cases same : u = t
  · subst u; rw [at'] at accessed; cases accessed
  · exact sound.alone held u same (.inr (.inl accessed))

theorem Sound.one_behind (sound : Sound s capacity count) (at' : s.places t = .accessed) : s.behind = 1 := by
  have held : (s.places t).Holds := .inr (.inl at')
  have moved : census (update s.places t .advanced) (· = .accessed) + 1 = s.behind :=
    census_leave at' Position.noConfusion
  have others : census (update s.places t .advanced) (· = .accessed) = 0 := by
    refine census_eq_zero.mpr fun u accessed => ?_
    by_cases same : u = t
    · subst u; rw [Function.update_self] at accessed; cases accessed
    · rw [Function.update_of_ne same] at accessed
      exact sound.alone held u same (.inr (.inl accessed))
  omega

theorem Sound.move (sound : Sound s capacity count) (place : Position) (outside : ¬place.Holds)
    (kind : s.places t = .accessed ↔ place = .accessed) : Sound (s.move t place) capacity count := by
  have still : (s.move t place).behind = s.behind := census_stay kind
  refine ⟨fun u held => ?_,by rw [still]; exact sound.counted,by rw [still]; exact sound.index⟩
  · change (update s.places t place u).Holds at held
    by_cases same : u = t
    · subst u
      rw [Function.update_self] at held
      exact absurd held outside
    · rw [Function.update_of_ne same] at held
      exact sound.exclusive u held

theorem Sound.lock (sound : Sound s capacity count) (at' : s.places t = .admitted) (taken : s.lock t = some next) :
    Sound next capacity count := by
  obtain ⟨free,equal⟩ := Option.ite_none_right_eq_some.mp taken
  cases equal
  have still : census (update s.places t .locked) (· = .accessed) = s.behind := census_stay (by simp [at'])
  have index := sound.index
  rw [← still] at index
  refine ⟨fun u held => ?_,Nat.le_trans (Nat.le_of_eq still) sound.counted,index⟩
  by_cases same : u = t
  · rw [same]
  · have held' : (s.places u).Holds := by simpa [Side.move,Function.update_of_ne same] using held
    rw [sound.exclusive u held'] at free; cases free

theorem Sound.within (sound : Sound s capacity count) (held : (s.places t).Holds) (place : Position) (u : Fin n)
    (held' : (update s.places t place u).Holds) : s.mutex = some u := by
  by_cases same : u = t
  · rw [same]; exact sound.exclusive t held
  · rw [Function.update_of_ne same] at held'
    exact sound.exclusive u held'

theorem Sound.access (sound : Sound s capacity count) (at' : s.places t = .locked) :
    Sound (s.move t .accessed) capacity (count+1) := by
  have more : (s.move t .accessed).behind = s.behind + 1 := census_enter (by simp [at']) rfl
  refine ⟨sound.within (.inl at') .accessed,?_,?_⟩
  · rw [more]; exact Nat.succ_le_succ sound.counted
  · rw [more,Nat.add_sub_add_right]; exact sound.index

theorem Sound.advance (sound : Sound s capacity count) (at' : s.places t = .accessed) :
    Sound (s.advance t capacity) capacity count := by
  have one := sound.one_behind at'
  have counted := sound.counted
  have less : (s.advance t capacity).behind + 1 = s.behind := census_leave at' Position.noConfusion
  have zero : (s.advance t capacity).behind = 0 := by omega
  refine ⟨sound.within (.inr (.inl at')) .advanced,by omega,?_⟩
  rw [zero]
  change (s.suffix + 1) % capacity = _
  rw [sound.index,one,advance_mod,Nat.sub_add_cancel (by omega),Nat.sub_zero]

theorem Sound.unlock (sound : Sound s capacity count) (at' : s.places t = .advanced) :
    Sound (s.unlock t) capacity count := by
  have held : (s.places t).Holds := .inr (.inr at')
  have still : (s.unlock t).behind = s.behind := census_stay (by simp [at'])
  refine ⟨fun u held' => ?_,by rw [still]; exact sound.counted,by rw [still]; exact sound.index⟩
  change (update s.places t .unlocked u).Holds at held'
  by_cases same : u = t
  · subst u
    rw [Function.update_self] at held'
    exact absurd held' (by simp [Position.Holds])
  · rw [Function.update_of_ne same] at held'
    exact absurd held' (sound.alone held u same)

theorem lock_counts (at' : s.places t = .admitted) (taken : s.lock t = some next) :
    next.claims = s.claims ∧ next.owes = s.owes := by
  obtain ⟨_,equal⟩ := Option.ite_none_right_eq_some.mp taken
  cases equal
  exact ⟨census_stay (by simp [at',Position.Claims]),census_stay (by simp [at',Position.Owes])⟩

end Side

-- The two semaphores, the vector, and the local variables of the calls: `val` of a
-- Push and `*val` of a Pop. `unread` marks the slots that hold a value which nobody has
-- read; `pushed` and `popped` are the values in the order of the accesses.
structure CircularQueue (T : Type) (producers consumers : Nat) where
  maxCapacity : Nat
  circularQueue : List T
  semSpace : Nat
  semData : Nat := 0
  p : Side producers := {}
  c : Side consumers := {}
  vals : Fin producers → T
  results : Fin consumers → T
  unread : Nat → Bool := fun _ => false
  pushed : List T := []
  popped : List T := []

namespace CircularQueue

def semValueMax : Nat := 2^31 - 1

-- sem_init takes an unsigned int. Above the maximum it fails with EINVAL, which the
-- constructor does not look at, and the semaphore lets through what its memory `held`:
-- any number, since waiting on it is undefined then.
def semInit (held value : Nat) : Nat := if value % 2^32 ≤ semValueMax then value % 2^32 else held

-- sem_post fails with EOVERFLOW at the maximum; V does not look at the result either.
def semPost (count : Nat) : Nat := if count < semValueMax then count + 1 else count

def initial [Inhabited T] (maxCapacity held : Nat) : CircularQueue T producers consumers where
  maxCapacity := maxCapacity
  circularQueue := List.replicate maxCapacity default
  semSpace := semInit held maxCapacity
  vals := fun _ => default
  results := fun _ => default

-- `push` and `pop` are calls that get past their first P; `producer` and `consumer`
-- take the next step of the call that the thread is in.
inductive Action (T : Type) (producers consumers : Nat) where
  | push (t : Fin producers) (val : T)
  | producer (t : Fin producers)
  | pop (t : Fin consumers)
  | consumer (t : Fin consumers)

variable (s : CircularQueue T producers consumers)

-- `_circular_queue[_p_suffix] = val`
def store (t : Fin producers) : Option (CircularQueue T producers consumers) :=
  if s.p.suffix < s.circularQueue.length then
    some {s with
      circularQueue := s.circularQueue.set s.p.suffix (s.vals t)
      p := s.p.move t .accessed
      unread := update s.unread s.p.suffix true
      pushed := s.pushed ++ [s.vals t]}
  else none

-- `*val = _circular_queue[_c_suffix]`
def fetch (t : Fin consumers) : Option (CircularQueue T producers consumers) :=
  (s.circularQueue[s.c.suffix]?).map fun val => {s with
    c := s.c.move t .accessed
    results := update s.results t val
    unread := update s.unread s.c.suffix false
    popped := s.popped ++ [val]}

def producerStep (t : Fin producers) : Position → Option (CircularQueue T producers consumers)
  | .outside => none
  | .admitted => (s.p.lock t).map fun p => {s with p}
  | .locked => s.store t
  | .accessed => some {s with p := s.p.advance t s.maxCapacity}
  | .advanced => some {s with p := s.p.unlock t}
  | .unlocked => some {s with p := s.p.move t .outside, semData := semPost s.semData}

def consumerStep (t : Fin consumers) : Position → Option (CircularQueue T producers consumers)
  | .outside => none
  | .admitted => (s.c.lock t).map fun c => {s with c}
  | .locked => s.fetch t
  | .accessed => some {s with c := s.c.advance t s.maxCapacity}
  | .advanced => some {s with c := s.c.unlock t}
  | .unlocked => some {s with c := s.c.move t .outside, semSpace := semPost s.semSpace}

def step : Action T producers consumers → Option (CircularQueue T producers consumers)
  | .push t val =>
    if s.p.places t = .outside ∧ 0 < s.semSpace then
      some {s with semSpace := s.semSpace - 1, p := s.p.move t .admitted, vals := update s.vals t val}
    else none
  | .producer t => s.producerStep t (s.p.places t)
  | .pop t =>
    if s.c.places t = .outside ∧ 0 < s.semData then some {s with semData := s.semData - 1, c := s.c.move t .admitted}
    else none
  | .consumer t => s.consumerStep t (s.c.places t)

-- The invariant: every free slot and every value in the ring is accounted for, by a
-- semaphore or by a thread in the middle of its call.
structure Sound (s : CircularQueue T producers consumers) : Prop where
  positive : 0 < s.maxCapacity
  size : s.circularQueue.length = s.maxCapacity
  producer : s.p.Sound s.maxCapacity s.pushed.length
  consumer : s.c.Sound s.maxCapacity s.popped.length
  space : s.semSpace + s.p.claims + s.c.owes + s.pushed.length ≤ min s.maxCapacity semValueMax + s.popped.length
  data : s.semData + s.c.claims + s.p.owes + s.popped.length = s.pushed.length
  stored : Stored s.circularQueue s.pushed s.popped.length
  order : s.popped <+: s.pushed
  marked : Marked s.unread s.maxCapacity s.popped.length s.pushed.length

variable {s} {next : CircularQueue T producers consumers} {action : Action T producers consumers}

theorem semPost_below {count : Nat} (below : count < semValueMax) : semPost count = count + 1 := if_pos below

theorem semInit_le {maxCapacity held : Nat} (fits : maxCapacity % 2^32 ≤ semValueMax) :
    semInit held maxCapacity ≤ min maxCapacity semValueMax := by
  rw [semInit,if_pos fits]
  exact Nat.le_min.mpr ⟨Nat.mod_le _ _,fits⟩

theorem initial_sound [Inhabited T] {maxCapacity held : Nat} (positive : 1 ≤ maxCapacity)
    (fits : maxCapacity % 2^32 ≤ semValueMax) :
    Sound (initial maxCapacity held : CircularQueue T producers consumers) := by
  have nobody : ∀ (n : Nat) (p : Position → Prop) [DecidablePred p], ¬p .outside → census ({} : Side n).places p = 0 :=
    fun n p _ out => census_eq_zero.mpr fun _ => out
  have claims : ∀ n, ({} : Side n).claims = 0 := fun n => nobody n _ (by simp [Position.Claims])
  have owes : ∀ n, ({} : Side n).owes = 0 := fun n => nobody n _ (by simp [Position.Owes])
  refine ⟨positive,List.length_replicate,Side.start_sound _,Side.start_sound _,?_,?_,Stored.nothing (Nat.le_refl _),
    List.nil_prefix,marked_nothing _⟩
  · change semInit held maxCapacity + ({} : Side producers).claims + ({} : Side consumers).owes + 0 ≤
      min maxCapacity semValueMax + 0
    rw [claims,owes]
    exact semInit_le fits
  · change 0 + ({} : Side consumers).claims + ({} : Side producers).owes + 0 = 0
    rw [claims,owes]

theorem Sound.with_p (sound : Sound s) {p : Side producers} (side : p.Sound s.maxCapacity s.pushed.length)
    (claims : p.claims = s.p.claims) (owes : p.owes = s.p.owes) : Sound {s with p} :=
  ⟨sound.positive,sound.size,side,sound.consumer,by rw [claims]; exact sound.space,by rw [owes]; exact sound.data,
    sound.stored,sound.order,sound.marked⟩

theorem Sound.with_c (sound : Sound s) {c : Side consumers} (side : c.Sound s.maxCapacity s.popped.length)
    (claims : c.claims = s.c.claims) (owes : c.owes = s.c.owes) : Sound {s with c} :=
  ⟨sound.positive,sound.size,sound.producer,side,by rw [owes]; exact sound.space,by rw [claims]; exact sound.data,
    sound.stored,sound.order,sound.marked⟩

theorem Sound.room (sound : Sound s) {t : Fin producers} (at' : s.p.places t = .locked) :
    s.pushed.length < s.popped.length + s.maxCapacity := by
  have claimed : 0 < s.p.claims := census_pos.mpr ⟨t,.inr at'⟩
  have space := sound.space
  omega

theorem Sound.waiting (sound : Sound s) {t : Fin consumers} (at' : s.c.places t = .locked) :
    s.popped.length < s.pushed.length := by
  have claimed : 0 < s.c.claims := census_pos.mpr ⟨t,.inr at'⟩
  have data := sound.data
  omega

theorem Sound.p_suffix (sound : Sound s) {t : Fin producers} (at' : s.p.places t = .locked) :
    s.p.suffix = s.pushed.length % s.maxCapacity := by
  rw [sound.producer.index,sound.producer.none_behind at',Nat.sub_zero]

theorem Sound.c_suffix (sound : Sound s) {t : Fin consumers} (at' : s.c.places t = .locked) :
    s.c.suffix = s.popped.length % s.maxCapacity := by
  rw [sound.consumer.index,sound.consumer.none_behind at',Nat.sub_zero]

theorem Sound.push (sound : Sound s) {t : Fin producers} {val : T} (stepped : s.step (.push t val) = some next) :
    Sound next := by
  obtain ⟨⟨at',some'⟩,equal⟩ := Option.ite_none_right_eq_some.mp stepped
  cases equal
  have claims : (s.p.move t .admitted).claims = s.p.claims + 1 :=
    census_enter (by simp [at',Position.Claims]) (.inl rfl)
  have owes : (s.p.move t .admitted).owes = s.p.owes := census_stay (by simp [at',Position.Owes])
  have side := sound.producer.move (t := t) .admitted (by simp [Position.Holds]) (by simp [at'])
  have space : s.semSpace - 1 + (s.p.move t .admitted).claims + s.c.owes + s.pushed.length ≤
      min s.maxCapacity semValueMax + s.popped.length := by
    have before := sound.space
    omega
  exact ⟨sound.positive,sound.size,side,sound.consumer,space,by rw [owes]; exact sound.data,sound.stored,sound.order,
    sound.marked⟩

theorem Sound.pop (sound : Sound s) {t : Fin consumers} (stepped : s.step (.pop t) = some next) : Sound next := by
  obtain ⟨⟨at',some'⟩,equal⟩ := Option.ite_none_right_eq_some.mp stepped
  cases equal
  have claims : (s.c.move t .admitted).claims = s.c.claims + 1 :=
    census_enter (by simp [at',Position.Claims]) (.inl rfl)
  have owes : (s.c.move t .admitted).owes = s.c.owes := census_stay (by simp [at',Position.Owes])
  have side := sound.consumer.move (t := t) .admitted (by simp [Position.Holds]) (by simp [at'])
  have data : s.semData - 1 + (s.c.move t .admitted).claims + s.p.owes + s.popped.length = s.pushed.length := by
    have before := sound.data
    omega
  exact ⟨sound.positive,sound.size,sound.producer,side,by rw [owes]; exact sound.space,data,sound.stored,sound.order,
    sound.marked⟩

theorem Sound.store (sound : Sound s) {t : Fin producers} (at' : s.p.places t = .locked)
    (stepped : s.store t = some next) : Sound next := by
  obtain ⟨_,equal⟩ := Option.ite_none_right_eq_some.mp stepped
  cases equal
  have room := sound.room at'
  have place := sound.p_suffix at'
  have claims : (s.p.move t .accessed).claims + 1 = s.p.claims := census_leave (.inr at') (by simp [Position.Claims])
  have owes : (s.p.move t .accessed).owes = s.p.owes + 1 := census_enter (by simp [at',Position.Owes]) (.inl rfl)
  have longer : (s.pushed ++ [s.vals t]).length = s.pushed.length + 1 := List.length_append
  have space : s.semSpace + (s.p.move t .accessed).claims + s.c.owes + (s.pushed.length + 1) ≤
      min s.maxCapacity semValueMax + s.popped.length := by
    have before := sound.space
    omega
  have before := sound.data
  have data : s.semData + s.c.claims + (s.p.move t .accessed).owes + s.popped.length = s.pushed.length + 1 := by
    omega
  refine ⟨sound.positive,(List.length_set ..).trans sound.size,?_,sound.consumer,by rw [longer]; exact space,
    by rw [longer]; exact data,?_,sound.order.trans (List.prefix_append ..),?_⟩
  · rw [longer]; exact sound.producer.access at'
  · rw [place,← sound.size]
    exact sound.stored.push (by rw [sound.size]; exact room)
  · rw [longer,place]
    exact sound.marked.push (by omega)

theorem Sound.fetch (sound : Sound s) {t : Fin consumers} (at' : s.c.places t = .locked)
    (stepped : s.fetch t = some next) : Sound next := by
  obtain ⟨val,found,equal⟩ := Option.map_eq_some_iff.mp stepped
  cases equal
  have waiting := sound.waiting at'
  have place := sound.c_suffix at'
  have claims : (s.c.move t .accessed).claims + 1 = s.c.claims := census_leave (.inr at') (by simp [Position.Claims])
  have owes : (s.c.move t .accessed).owes = s.c.owes + 1 := census_enter (by simp [at',Position.Owes]) (.inl rfl)
  have longer : (s.popped ++ [val]).length = s.popped.length + 1 := List.length_append
  have before := sound.space
  have space : s.semSpace + s.p.claims + (s.c.move t .accessed).owes + s.pushed.length ≤
      min s.maxCapacity semValueMax + (s.popped.length + 1) := by omega
  have data : s.semData + (s.c.move t .accessed).claims + s.p.owes + (s.popped.length + 1) = s.pushed.length := by
    have before := sound.data
    omega
  have first : s.pushed[s.popped.length]? = some val := by
    rw [← sound.stored.head waiting,sound.size,← place]; exact found
  refine ⟨sound.positive,sound.size,sound.producer,?_,by rw [longer]; exact space,by rw [longer]; exact data,?_,?_,?_⟩
  · rw [longer]; exact sound.consumer.access at'
  · rw [longer]; exact sound.stored.pop
  · obtain ⟨rest,whole⟩ := sound.order
    rw [← whole,List.getElem?_append_right (Nat.le_refl _),Nat.sub_self] at first
    cases rest with
    | nil => cases first
    | cons head rest =>
      cases first
      exact ⟨rest,by rw [← whole,List.append_assoc,List.singleton_append]⟩
  · rw [longer,place]
    exact sound.marked.pop (by omega)

theorem Sound.producerStep (sound : Sound s) {t : Fin producers}
    (stepped : s.producerStep t (s.p.places t) = some next) : Sound next := by
  cases at' : s.p.places t with
  | outside => rw [at'] at stepped; cases stepped
  | admitted =>
    rw [at'] at stepped
    obtain ⟨p,taken,equal⟩ := Option.map_eq_some_iff.mp stepped
    cases equal
    obtain ⟨claims,owes⟩ := Side.lock_counts at' taken
    exact sound.with_p (sound.producer.lock at' taken) claims owes
  | locked => rw [at'] at stepped; exact sound.store at' stepped
  | accessed =>
    rw [at'] at stepped
    cases stepped
    exact sound.with_p (sound.producer.advance at') (census_stay (by simp [at',Position.Claims]))
      (census_stay (by simp [at',Position.Owes]))
  | advanced =>
    rw [at'] at stepped
    cases stepped
    exact sound.with_p (sound.producer.unlock at') (census_stay (by simp [at',Position.Claims]))
      (census_stay (by simp [at',Position.Owes]))
  | unlocked =>
    rw [at'] at stepped
    cases stepped
    have claims : (s.p.move t .outside).claims = s.p.claims := census_stay (by simp [at',Position.Claims])
    have owes : (s.p.move t .outside).owes + 1 = s.p.owes := census_leave (.inr (.inr at')) (by simp [Position.Owes])
    have side := sound.producer.move (t := t) .outside (by simp [Position.Holds]) (by simp [at'])
    have before := sound.data
    have space := sound.space
    have data : semPost s.semData + s.c.claims + (s.p.move t .outside).owes + s.popped.length = s.pushed.length := by
      rw [semPost_below (by omega)]; omega
    exact ⟨sound.positive,sound.size,side,sound.consumer,by rw [claims]; exact sound.space,data,sound.stored,
      sound.order,sound.marked⟩

theorem Sound.consumerStep (sound : Sound s) {t : Fin consumers}
    (stepped : s.consumerStep t (s.c.places t) = some next) : Sound next := by
  cases at' : s.c.places t with
  | outside => rw [at'] at stepped; cases stepped
  | admitted =>
    rw [at'] at stepped
    obtain ⟨c,taken,equal⟩ := Option.map_eq_some_iff.mp stepped
    cases equal
    obtain ⟨claims,owes⟩ := Side.lock_counts at' taken
    exact sound.with_c (sound.consumer.lock at' taken) claims owes
  | locked => rw [at'] at stepped; exact sound.fetch at' stepped
  | accessed =>
    rw [at'] at stepped
    cases stepped
    exact sound.with_c (sound.consumer.advance at') (census_stay (by simp [at',Position.Claims]))
      (census_stay (by simp [at',Position.Owes]))
  | advanced =>
    rw [at'] at stepped
    cases stepped
    exact sound.with_c (sound.consumer.unlock at') (census_stay (by simp [at',Position.Claims]))
      (census_stay (by simp [at',Position.Owes]))
  | unlocked =>
    rw [at'] at stepped
    cases stepped
    have claims : (s.c.move t .outside).claims = s.c.claims := census_stay (by simp [at',Position.Claims])
    have owes : (s.c.move t .outside).owes + 1 = s.c.owes := census_leave (.inr (.inr at')) (by simp [Position.Owes])
    have side := sound.consumer.move (t := t) .outside (by simp [Position.Holds]) (by simp [at'])
    have before := sound.space
    have data := sound.data
    have space : semPost s.semSpace + s.p.claims + (s.c.move t .outside).owes + s.pushed.length ≤
        min s.maxCapacity semValueMax + s.popped.length := by
      rw [semPost_below (by omega)]; omega
    exact ⟨sound.positive,sound.size,sound.producer,side,space,by rw [claims]; exact sound.data,sound.stored,
      sound.order,sound.marked⟩

theorem Sound.step (sound : Sound s) (stepped : s.step action = some next) : Sound next := by
  cases action with
  | push t val => exact sound.push stepped
  | producer t => exact sound.producerStep stepped
  | pop t => exact sound.pop stepped
  | consumer t => exact sound.consumerStep stepped

theorem step_maxCapacity (stepped : s.step action = some next) : next.maxCapacity = s.maxCapacity := by
  have produced : ∀ t place, s.producerStep t place = some next → next.maxCapacity = s.maxCapacity := by
    intro t place taken
    cases place with
    | outside => cases taken
    | admitted =>
      obtain ⟨p,_,equal⟩ := Option.map_eq_some_iff.mp taken
      cases equal; rfl
    | locked =>
      obtain ⟨_,equal⟩ := Option.ite_none_right_eq_some.mp taken
      cases equal; rfl
    | accessed => cases taken; rfl
    | advanced => cases taken; rfl
    | unlocked => cases taken; rfl
  have consumed : ∀ t place, s.consumerStep t place = some next → next.maxCapacity = s.maxCapacity := by
    intro t place taken
    cases place with
    | outside => cases taken
    | admitted =>
      obtain ⟨c,_,equal⟩ := Option.map_eq_some_iff.mp taken
      cases equal; rfl
    | locked =>
      obtain ⟨val,_,equal⟩ := Option.map_eq_some_iff.mp taken
      cases equal; rfl
    | accessed => cases taken; rfl
    | advanced => cases taken; rfl
    | unlocked => cases taken; rfl
  cases action with
  | push t val =>
    obtain ⟨_,equal⟩ := Option.ite_none_right_eq_some.mp stepped
    cases equal; rfl
  | producer t => exact produced t _ stepped
  | pop t =>
    obtain ⟨_,equal⟩ := Option.ite_none_right_eq_some.mp stepped
    cases equal; rfl
  | consumer t => exact consumed t _ stepped

-- A thread that is about to access its slot finds it as it needs it, and what was
-- popped is the first part of what was pushed.
structure Correct (s : CircularQueue T producers consumers) (capacity : Nat) : Prop where
  size : s.circularQueue.length = capacity
  overwrite : ∀ t, s.p.places t = .locked → s.unread s.p.suffix = false
  unwritten : ∀ t, s.c.places t = .locked → s.unread s.c.suffix = true
  order : s.popped <+: s.pushed
  indices : s.p.suffix < capacity ∧ s.c.suffix < capacity
  bounded : s.semSpace + s.semData ≤ capacity

theorem Sound.correct (sound : Sound s) : Correct s s.maxCapacity := by
  have space := sound.space
  have data := sound.data
  refine ⟨sound.size,fun t at' => ?_,fun t at' => ?_,sound.order,⟨?_,?_⟩,by omega⟩
  · have room := sound.room at'
    rw [Bool.eq_false_iff]
    intro marked
    obtain ⟨k,above,below,same⟩ := (sound.marked _).mp marked
    rw [sound.p_suffix at'] at same
    have equal := place_unique (by omega) (by omega) same
    omega
  · rw [sound.marked,sound.c_suffix at']
    exact ⟨s.popped.length,Nat.le_refl _,sound.waiting at',rfl⟩
  · rw [sound.producer.index]; exact Nat.mod_lt _ sound.positive
  · rw [sound.consumer.index]; exact Nat.mod_lt _ sound.positive

theorem initial_correct [Inhabited T] {capacity held : Nat} (positive : 1 ≤ capacity)
    (fits : capacity % 2^32 ≤ semValueMax) {actions : List (Action T producers consumers)}
    {s : CircularQueue T producers consumers} (ran : Machine.run step (initial capacity held) actions = some s) :
    Correct s capacity := by
  have kept : Sound s ∧ s.maxCapacity = capacity :=
    Machine.run_invariant (motive := fun s => Sound s ∧ s.maxCapacity = capacity)
      (fun s action next held stepped => ⟨held.1.step stepped,(step_maxCapacity stepped).trans held.2⟩)
      ⟨initial_sound positive fits,rfl⟩ ran
  rw [← kept.2]; exact kept.1.correct

theorem bounded_fifo_iff [Inhabited T] (capacity producers consumers : Nat) (positive : 1 ≤ capacity) :
    (∀ (held : Nat) (actions : List (Action T producers consumers)) (s : CircularQueue T producers consumers),
      Machine.run step (initial capacity held) actions = some s → Correct s capacity) ↔
    capacity % 2^32 ≤ semValueMax := by
  constructor
  · intro correct
    by_contra large
    have bounded : semInit (capacity+1) capacity + 0 ≤ capacity := (correct (capacity+1) [] _ rfl).bounded
    rw [semInit,if_neg large] at bounded
    omega
  · intro fits held actions s ran
    exact initial_correct positive fits ran

-- Two producers on a ring of two slots: the first has stored and not posted yet when
-- the second is through and a consumer takes what the second has announced.
def latePost : List (Action Nat 2 1) :=
  let first : Fin 2 := ⟨0,Nat.zero_lt_two⟩
  let other : Fin 2 := ⟨1,Nat.one_lt_two⟩
  let reader : Fin 1 := ⟨0,Nat.zero_lt_one⟩
  .push first 7 :: List.replicate 4 (.producer first) ++ .push other 8 :: List.replicate 5 (.producer other) ++
    [.pop reader,.consumer reader,.consumer reader]

theorem bounded_fifo_late_post : ∃ s, Machine.run step (initial 2 0) latePost = some s ∧ Correct s 2 := by
  have complete : (Machine.run step (initial 2 0) latePost).isSome = true := by decide
  obtain ⟨s,ran⟩ := Option.isSome_iff_exists.mp complete
  exact ⟨s,ran,(bounded_fifo_iff 2 2 1 (by decide)).mpr (by decide) 0 latePost s ran⟩

def call (t : Fin producers) (val : T) : List (Action T producers consumers) :=
  .push t val :: List.replicate 5 (.producer t)

def called (s : CircularQueue T producers consumers) (t : Fin producers) (val : T) : CircularQueue T producers consumers :=
  {s with
    circularQueue := s.circularQueue.set s.p.suffix val
    semSpace := s.semSpace - 1
    semData := semPost s.semData
    p := {s.p with suffix := (s.p.suffix + 1) % s.maxCapacity}
    vals := update s.vals t val
    unread := update s.unread s.p.suffix true
    pushed := s.pushed ++ [val]}

theorem call_runs {t : Fin producers} (val : T) (outside : s.p.places t = .outside) (free : s.p.mutex = none)
    (units : 0 < s.semSpace) (inside : s.p.suffix < s.circularQueue.length) :
    Machine.run step s (call t val) = some (s.called t val) := by
  have back : update s.p.places t .outside = s.p.places := by rw [← outside,Function.update_eq_self]
  simp [call,called,List.replicate,Machine.run_cons,step,producerStep,Side.move,Side.lock,store,Side.advance,Side.unlock,
    outside,free,units,inside,back]

def entered (s : CircularQueue T producers consumers) (t : Fin producers) (val : T) : CircularQueue T producers consumers :=
  {s with
    semSpace := s.semSpace - 1
    p := {(s.p.move t .admitted).move t .locked with mutex := some t}
    vals := update s.vals t val}

theorem enter_runs {t : Fin producers} (val : T) (outside : s.p.places t = .outside) (free : s.p.mutex = none)
    (units : 0 < s.semSpace) : Machine.run step s [.push t val,.producer t] = some (s.entered t val) := by
  simp [entered,Machine.run_cons,step,producerStep,Side.move,Side.lock,outside,free,units]

structure Filled (s : CircularQueue T producers consumers) (t : Fin producers) (capacity units count : Nat) : Prop where
  size : s.circularQueue.length = capacity
  maxCapacity : s.maxCapacity = capacity
  units : s.semSpace + count = units
  outside : s.p.places t = .outside
  free : s.p.mutex = none
  suffix : s.p.suffix = count % capacity
  unread : ∀ i < count, s.unread i = true

theorem initial_filled [Inhabited T] (t : Fin producers) (capacity held : Nat) :
    Filled (initial capacity held : CircularQueue T producers consumers) t capacity (semInit held capacity) 0 :=
  ⟨List.length_replicate,rfl,rfl,rfl,rfl,(Nat.zero_mod capacity).symm,fun i below => absurd below (Nat.not_lt_zero i)⟩

theorem Filled.more {t : Fin producers} {capacity units count : Nat} (filled : Filled s t capacity units count)
    (room : count < capacity) (left : count < units) (val : T) :
    Machine.run step s (call t val) = some (s.called t val) ∧ Filled (s.called t val) t capacity units (count+1) := by
  have place : s.p.suffix = count := filled.suffix.trans (Nat.mod_eq_of_lt room)
  have some' : 0 < s.semSpace := by have := filled.units; omega
  refine ⟨call_runs val filled.outside filled.free some' (by rw [place,filled.size]; exact room),
    (List.length_set ..).trans filled.size,filled.maxCapacity,?_,filled.outside,filled.free,?_,fun i below => ?_⟩
  · change s.semSpace - 1 + (count + 1) = units
    have := filled.units
    omega
  · change (s.p.suffix + 1) % s.maxCapacity = _
    rw [place,filled.maxCapacity]
  · change update s.unread s.p.suffix true i = true
    by_cases last : i = count
    · rw [last,place,Function.update_self]
    · rw [Function.update_of_ne (by rw [place]; exact last)]
      exact filled.unread i (by omega)

theorem fills [Inhabited T] (t : Fin producers) {capacity held : Nat} (more : capacity < semInit held capacity) :
    ∀ count ≤ capacity, ∃ (actions : List (Action T producers consumers)) (s : CircularQueue T producers consumers),
      Machine.run step (initial capacity held) actions = some s ∧ Filled s t capacity (semInit held capacity) count
  | 0,_ => ⟨[],_,rfl,initial_filled t capacity held⟩
  | count+1,room => by
    obtain ⟨(actions : List (Action T producers consumers)),s,ran,filled⟩ := fills t more count (by omega)
    obtain ⟨goes,filled⟩ := filled.more (by omega) (by omega) default
    exact ⟨actions ++ call t default,_,by rw [Machine.run_append,ran,Option.bind_some,goes],filled⟩

-- With more units than slots a producer comes to a slot that nobody has read.
theorem overfull_overwrites [Inhabited T] (t : Fin producers) {capacity held : Nat} (positive : 1 ≤ capacity)
    (more : capacity < semInit held capacity) :
    ∃ (actions : List (Action T producers consumers)) (s : CircularQueue T producers consumers),
      Machine.run step (initial capacity held) actions = some s ∧ s.p.places t = .locked ∧
        s.unread s.p.suffix = true := by
  obtain ⟨actions,s,ran,filled⟩ := @fills T producers consumers _ t capacity held more capacity (Nat.le_refl capacity)
  have some' : 0 < s.semSpace := by have := filled.units; omega
  have first : s.p.suffix = 0 := filled.suffix.trans (Nat.mod_self capacity)
  have unread : s.unread s.p.suffix = true := by rw [first]; exact filled.unread 0 positive
  refine ⟨actions ++ [.push t default,.producer t],s.entered t default,?_,Function.update_self ..,unread⟩
  rw [Machine.run_append,ran,Option.bind_some]
  exact enter_runs default filled.outside filled.free some'

theorem uninitialised_space_overwrites :
    ∃ (actions : List (Action UInt8 1 1)) (s : CircularQueue UInt8 1 1),
      Machine.run step (initial (2^31) (2^32-1)) actions = some s ∧
        (∃ t, s.p.places t = .locked ∧ s.unread s.p.suffix = true) ∧ ¬Correct s (2^31) := by
  have more : 2^31 < semInit (2^32-1) (2^31) := by decide
  obtain ⟨actions,s,ran,at',unread⟩ := @overfull_overwrites UInt8 1 1 _ 0 (2^31) (2^32-1) (by decide) more
  refine ⟨actions,s,ran,⟨0,at',unread⟩,fun correct => ?_⟩
  rw [correct.overwrite 0 at'] at unread
  cases unread

end CircularQueue
end LinuxOS.Threads
