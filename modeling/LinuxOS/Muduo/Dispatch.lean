import LinuxOS.Machine
import Mathlib.Data.List.Induction
import Mathlib.Data.List.TakeWhile
import Mathlib.Logic.Function.Basic

namespace LinuxOS.Muduo

-- A Channel object as the loop sees it: its address and its descriptor.
structure ChannelPtr where
  address : Nat
  fd : Nat
  deriving DecidableEq, Repr

structure Poll where
  careFd : Nat → Option ChannelPtr := fun _ => none
  revents : ChannelPtr → Nat := fun _ => 0

namespace Poll
open Function (update)

def ifExist (p : Poll) (fd : Nat) : Bool := (p.careFd fd).isSome

-- EPOLL_CTL_MOD leaves the table alone, whichever channel it was called with.
def updateEvent (p : Poll) (ch : ChannelPtr) : Poll :=
  if p.ifExist ch.fd then p else {p with careFd := update p.careFd ch.fd (some ch)}

def removeEvent (p : Poll) (ch : ChannelPtr) : Poll :=
  if p.ifExist ch.fd then {p with careFd := update p.careFd ch.fd none} else p

-- The events of one epoll_wait as pairs of a descriptor and its bits.
def polling : List (Nat × Nat) → Poll → Poll × List ChannelPtr
  | [],p => (p,[])
  | (fd,events) :: rest,p =>
    match p.careFd fd with
    | some ch =>
      let (last,active) := polling rest {p with revents := update p.revents ch events}
      (last,ch :: active)
    | none => polling rest p

def registered (p : Poll) (ch : ChannelPtr) : Bool := p.careFd ch.fd == some ch

end Poll

-- What a handler or a task does to Poll: calls of UpdateEvent and RemoveEvent,
-- for its own channel or any other.
inductive Monitor where
  | updateEvent (ch : ChannelPtr)
  | removeEvent (ch : ChannelPtr)
  deriving DecidableEq, Repr

def Monitor.apply (p : Poll) : Monitor → Poll
  | .updateEvent ch => p.updateEvent ch
  | .removeEvent ch => p.removeEvent ch

def Monitor.channel : Monitor → ChannelPtr
  | .updateEvent ch | .removeEvent ch => ch

def Monitor.fd (op : Monitor) : Nat := op.channel.fd

def Monitor.isUpdate : Monitor → Bool
  | .updateEvent _ => true
  | .removeEvent _ => false

-- One turn of EventLoop::Loop: what epoll_wait reports, what the handler of the
-- i-th active channel does, and what the pending tasks do.
structure Round where
  ready : List (Nat × Nat)
  handler : Nat → List Monitor
  tasks : List Monitor

-- Each call of HandleEvents is noted with whether its channel was registered
-- when the call was made.
structure Dispatcher where
  poll : Poll := {}
  calls : List (ChannelPtr × Bool) := []

namespace Dispatcher

def handleEvents (handler : Nat → List Monitor) : Nat → List ChannelPtr → Dispatcher → Dispatcher
  | _,[],s => s
  | i,ch :: rest,s => handleEvents handler (i+1) rest
      {poll := (handler i).foldl Monitor.apply s.poll, calls := (ch,s.poll.registered ch) :: s.calls}

def loop (s : Dispatcher) (r : Round) : Dispatcher :=
  let (polled,active) := Poll.polling r.ready s.poll
  let handled := handleEvents r.handler 0 active {s with poll := polled}
  {handled with poll := r.tasks.foldl Monitor.apply handled.poll}

def step (s : Dispatcher) (r : Round) : Option Dispatcher := some (s.loop r)

end Dispatcher

namespace Poll
open Function (update)
variable {p : Poll} {ch : ChannelPtr}

def Wired (p : Poll) : Prop := ∀ fd ch, p.careFd fd = some ch → ch.fd = fd

theorem registered_iff : p.registered ch = true ↔ p.careFd ch.fd = some ch := by simp [registered]

theorem apply_other (op : Monitor) (fd : Nat) (apart : op.fd ≠ fd) : (op.apply p).careFd fd = p.careFd fd := by
  cases op with
  | updateEvent c =>
    simp only [Monitor.apply,updateEvent]
    split
    · rfl
    · exact Function.update_of_ne (Ne.symm apart) _ _
  | removeEvent c =>
    simp only [Monitor.apply,removeEvent]
    split
    · exact Function.update_of_ne (Ne.symm apart) _ _
    · rfl

theorem apply_remove (c : ChannelPtr) : ((Monitor.removeEvent c).apply p).careFd c.fd = none := by
  simp only [Monitor.apply,removeEvent]
  split
  · exact Function.update_self ..
  · rename_i absent
    simpa [ifExist] using absent

theorem apply_update (c : ChannelPtr) : ((Monitor.updateEvent c).apply p).careFd c.fd =
    some ((p.careFd c.fd).getD c) := by
  simp only [Monitor.apply,updateEvent]
  cases listed : p.careFd c.fd with
  | none => simp [ifExist,listed]
  | some old => simp [ifExist,listed]

theorem apply_wired (op : Monitor) (wired : Wired p) : Wired (op.apply p) := by
  intro fd ch found
  by_cases same : op.fd = fd
  · subst fd
    cases op with
    | updateEvent c =>
      change ((Monitor.updateEvent c).apply p).careFd c.fd = some ch at found
      rw [apply_update] at found
      cases listed : p.careFd c.fd with
      | none => rw [listed] at found; cases found; rfl
      | some old => rw [listed] at found; cases found; exact wired c.fd old listed
    | removeEvent c =>
      change ((Monitor.removeEvent c).apply p).careFd c.fd = some ch at found
      rw [apply_remove] at found; cases found
  · rw [apply_other op fd same] at found
    exact wired fd ch found

theorem applyAll_wired (ops : List Monitor) (wired : Wired p) : Wired (ops.foldl Monitor.apply p) := by
  induction ops generalizing p with
  | nil => exact wired
  | cons op rest ih => exact ih (apply_wired op wired)

theorem polling_spec (ready : List (Nat × Nat)) (wired : Wired p) : (polling ready p).1.careFd = p.careFd ∧
    ∀ ch ∈ (polling ready p).2, p.careFd ch.fd = some ch := by
  induction ready generalizing p with
  | nil => exact ⟨rfl,nofun⟩
  | cons event rest ih =>
    obtain ⟨fd,events⟩ := event
    simp only [polling]
    cases listed : p.careFd fd with
    | none => exact ih wired
    | some ch =>
      obtain ⟨same,each⟩ := ih (p := {p with revents := update p.revents ch events}) wired
      refine ⟨same,?_⟩
      intro other found
      rcases List.mem_cons.mp found with rfl | later
      · rw [wired fd other listed]; exact listed
      · exact each other later

def touching (fd : Nat) (done : List Monitor) : List Monitor := (done.filter fun op => op.fd = fd).reverse

def Stays (ch : ChannelPtr) (done : List Monitor) : Prop :=
  (touching ch.fd done).all Monitor.isUpdate = true ∨
    ((touching ch.fd done).takeWhile Monitor.isUpdate).getLast? = some (.updateEvent ch)

instance (ch : ChannelPtr) (done : List Monitor) : Decidable (Stays ch done) := by
  unfold Stays; infer_instance

theorem touching_snoc (done : List Monitor) (op : Monitor) (fd : Nat) :
    touching fd (done ++ [op]) = if op.fd = fd then op :: touching fd done else touching fd done := by
  by_cases same : op.fd = fd <;> simp [touching,same]

theorem entry_after (done : List Monitor) (start : p.careFd ch.fd = some ch) :
    (done.foldl Monitor.apply p).careFd ch.fd =
      if (touching ch.fd done).all Monitor.isUpdate then some ch
      else ((touching ch.fd done).takeWhile Monitor.isUpdate).getLast?.map Monitor.channel := by
  induction done using List.reverseRecOn with
  | nil => simpa [touching] using start
  | append_singleton done op ih =>
    rw [List.foldl_append,List.foldl_cons,List.foldl_nil,touching_snoc]
    by_cases same : op.fd = ch.fd
    · rw [if_pos same]
      cases op with
      | removeEvent c =>
        change c.fd = ch.fd at same
        rw [← same,apply_remove]; simp [Monitor.isUpdate]
      | updateEvent c =>
        change c.fd = ch.fd at same
        rw [← same,apply_update,same,ih]
        simp only [List.all_cons,Monitor.isUpdate,Bool.true_and,List.takeWhile_cons,if_true]
        split
        · rfl
        · cases (touching ch.fd done).takeWhile Monitor.isUpdate with
          | nil => rfl
          | cons first rest => simp [List.getLast?_eq_getLast_of_ne_nil]
    · rw [if_neg same,apply_other op ch.fd same]; exact ih

theorem update_channel (op : Monitor) (update : op.isUpdate = true) : op = .updateEvent op.channel := by
  cases op with
  | updateEvent ch => rfl
  | removeEvent ch => cases update

theorem registered_after (done : List Monitor) (start : p.careFd ch.fd = some ch) :
    (done.foldl Monitor.apply p).registered ch = true ↔ Stays ch done := by
  rw [registered_iff,entry_after done start]
  unfold Stays
  split
  · rename_i never; simp [never]
  · rename_i removed
    constructor
    · intro found
      obtain ⟨op,last,equal⟩ := Option.map_eq_some_iff.mp found
      have kind : op.isUpdate = true := List.mem_takeWhile_imp (List.mem_of_getLast? last)
      apply Or.inr
      rw [last,update_channel op kind,equal]
    · intro stays
      rcases stays with never | last
      · exact absurd never removed
      · rw [last]; rfl

end Poll

namespace Dispatcher
open Poll
variable {s next : Dispatcher}

def before (handler : Nat → List Monitor) (i : Nat) : List Monitor := (List.range i).flatMap handler

-- No handler of the round takes away a channel that stands later in the batch.
def Undisturbed (s : Dispatcher) (r : Round) : Prop :=
  ∀ call ∈ (polling r.ready s.poll).2.zipIdx, Stays call.1 (before r.handler call.2)

instance (s : Dispatcher) (r : Round) : Decidable (Undisturbed s r) := by
  unfold Undisturbed; infer_instance

theorem before_succ (handler : Nat → List Monitor) (i : Nat) :
    before handler (i+1) = before handler i ++ handler i := by
  simp [before,List.range_succ]

-- The calls of a batch, each judged against what the handlers before it did.
theorem handleEvents_spec (handler : Nat → List Monitor) (active : List ChannelPtr) (i : Nat) (start : Poll)
    (reached : s.poll = (before handler i).foldl Monitor.apply start)
    (listed : ∀ ch ∈ active, start.careFd ch.fd = some ch) :
    ((∀ call ∈ (handleEvents handler i active s).calls, call.2 = true) ↔
      (∀ call ∈ s.calls, call.2 = true) ∧
        ∀ k ch, active[k]? = some ch → Stays ch (before handler (i+k))) ∧
    (Wired s.poll → Wired (handleEvents handler i active s).poll) := by
  induction active generalizing i s with
  | nil => exact ⟨by simp [handleEvents],fun wired => wired⟩
  | cons ch rest ih =>
    have mine := registered_after (before handler i) (listed ch List.mem_cons_self)
    rw [← reached] at mine
    have moved : (handler i).foldl Monitor.apply s.poll = (before handler (i+1)).foldl Monitor.apply start := by
      rw [before_succ,List.foldl_append,← reached]
    obtain ⟨later,wired⟩ := ih (s := ⟨(handler i).foldl Monitor.apply s.poll,(ch,s.poll.registered ch) :: s.calls⟩) (i+1)
      moved fun other found => listed other (List.mem_cons_of_mem _ found)
    refine ⟨?_,fun start => wired (applyAll_wired _ start)⟩
    rw [handleEvents,later]
    constructor
    · intro ⟨calls,stays⟩
      refine ⟨fun call found => calls call (List.mem_cons_of_mem _ found),?_⟩
      intro k other at'
      cases k with
      | zero =>
        cases at'
        exact mine.mp (calls _ List.mem_cons_self)
      | succ k =>
        have shifted := stays k other at'
        rwa [Nat.add_right_comm,Nat.add_assoc] at shifted
    · intro ⟨calls,stays⟩
      refine ⟨?_,fun k other at' => ?_⟩
      · intro call found
        rcases List.mem_cons.mp found with rfl | old
        · exact mine.mpr (stays 0 ch rfl)
        · exact calls call old
      · have shifted := stays (k+1) other at'
        rwa [Nat.add_right_comm,Nat.add_assoc]

theorem loop_spec (wired : Wired s.poll) (r : Round) :
    ((∀ call ∈ (s.loop r).calls, call.2 = true) ↔ (∀ call ∈ s.calls, call.2 = true) ∧ Undisturbed s r) ∧
    Wired (s.loop r).poll := by
  obtain ⟨same,listed⟩ := polling_spec r.ready wired
  have wired' : Wired (polling r.ready s.poll).1 := fun fd ch found => wired fd ch (by rw [← same]; exact found)
  obtain ⟨calls,kept⟩ := handleEvents_spec (s := {s with poll := (polling r.ready s.poll).1}) r.handler
    (polling r.ready s.poll).2 0 _ rfl fun ch found => by rw [same]; exact listed ch found
  refine ⟨calls.trans (and_congr_right fun _ => ?_),applyAll_wired _ (kept wired')⟩
  simp only [Nat.zero_add]
  constructor
  · intro stays call found
    exact stays call.2 call.1 (List.mem_zipIdx_iff_getElem?.mp found)
  · intro stays i ch at'
    exact stays (ch,i) (List.mem_zipIdx_iff_getElem?.mpr at')

def start (setup : List Monitor) : Dispatcher := {poll := setup.foldl Monitor.apply {}}

theorem start_wired (setup : List Monitor) : Wired (start setup).poll :=
  applyAll_wired setup (p := {}) nofun

theorem run_registered_iff (rounds : List Round) (wired : Wired s.poll) (ran : Machine.run step s rounds = some next) :
    (∀ call ∈ next.calls, call.2 = true) ↔
      (∀ call ∈ s.calls, call.2 = true) ∧ Machine.Throughout step Undisturbed s rounds := by
  induction rounds generalizing s with
  | nil => cases ran; simp [Machine.Throughout]
  | cons r rest ih =>
    obtain ⟨calls,kept⟩ := loop_spec wired r
    rw [ih kept ran,calls]
    simp only [Machine.Throughout,step]
    exact and_assoc

theorem dispatched_registered_iff (setup : List Monitor) (rounds : List Round) (s : Dispatcher)
    (ran : Machine.run step (start setup) rounds = some s) :
    (∀ call ∈ s.calls, call.2 = true) ↔ Machine.Throughout step Undisturbed (start setup) rounds := by
  rw [run_registered_iff rounds (start_wired setup) ran]
  simp [start]

def timer : ChannelPtr := ⟨100,4⟩

def connection : ChannelPtr := ⟨200,7⟩

def served : Round :=
  {ready := [(7,1),(4,1)], handler := fun i => if i = 1 then [.removeEvent connection] else [], tasks := []}

theorem dispatched_registered_iff_served : ∃ s,
    Machine.run step (start [.updateEvent timer,.updateEvent connection]) [served] = some s ∧
      s.calls.length = 2 ∧ ∀ call ∈ s.calls, call.2 = true :=
  ⟨_,rfl,rfl,(dispatched_registered_iff _ [served] _ rfl).mpr (by decide)⟩

-- The other order of the same two events: Tick releases the connection whose
-- channel stands next in the batch.
theorem released_channel_dispatched : ¬∀ (setup : List Monitor) (rounds : List Round) (s : Dispatcher),
    Machine.run step (start setup) rounds = some s → ∀ call ∈ s.calls, call.2 = true := by
  intro claimed
  have calls := claimed [.updateEvent timer,.updateEvent connection] [{
    ready := [(4,1),(7,1)], handler := fun i => if i = 0 then [.removeEvent connection] else [], tasks := []}] _ rfl
  exact absurd (calls (connection,false) (by decide)) (by decide)

end Dispatcher
end LinuxOS.Muduo
