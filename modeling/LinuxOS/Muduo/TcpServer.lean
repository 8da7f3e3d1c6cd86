import Mathlib.Algebra.Group.Nat.Defs
import LinuxOS.Machine
import LinuxOS.Muduo.CloseReport

namespace LinuxOS.Muduo
open Function (update)
open Machine

structure Callbacks where
  conn : Bool := true
  message : Bool := true
  anyEvent : Bool := true
  close : Bool := true

-- How far AcceptCallback has got: behind Established, or behind the test of
-- _enable_inactive_event_release.
inductive Accepting where
  | established
  | inactive
  deriving DecidableEq

-- Connections are numbered from 1 to `connId`, and _conns is the list of its keys. With
-- no loop threads they live in the main loop. `queued` holds the closures that
-- AcceptCallback has queued for the loop of a connection, `pending` the connections
-- whose RemoveFromServer is queued in the main loop.
structure TcpServer where
  threadsSize : Nat := 0
  enableInactive : Bool := false
  callbacks : Callbacks := {}
  connId : Nat := 0
  connection : Nat → Connection := fun _ => {}
  accepting : Option Accepting := none
  queued : Nat → List Connection.Action := fun _ => []
  pending : List Nat := []
  conns : List Nat := []

-- The first three are AcceptCallback. Connections of one loop take their steps as if
-- each had a thread of its own, which only adds runs.
inductive TcpAction where
  | acceptCallback
  | enableInactiveRelease
  | insertConn
  | runQueued (id : Nat)
  | connection (id : Nat) (action : Connection.Action)
  | pend
  deriving DecidableEq

def Connection.Action.nested : Connection.Action → Bool
  | .send _ | .shutDown | .enableInactiveRelease | .cancelInactiveRelease | .consume _ | .ret | .resume => true
  | _ => false

namespace TcpServer
variable (s : TcpServer)

def fresh : Connection where
  connCb := s.callbacks.conn
  messCb := s.callbacks.message
  anyEventCb := s.callbacks.anyEvent
  closedCb := s.callbacks.close
  inBuffer := Buffer.initial
  outBuffer := Buffer.initial

-- RunInLoop erases at once in the main loop and queues from any other.
def removeFromServer (id : Nat) : TcpServer :=
  if s.threadsSize = 0 then {s with conns := s.conns.filter (· ≠ id)} else {s with pending := s.pending ++ [id]}

def settle (id : Nat) (next : Connection) : TcpServer :=
  let moved := {s with connection := update s.connection id next}
  if (s.connection id).serverCloseCalls < next.serverCloseCalls then moved.removeFromServer id else moved

-- `++_conn_id` on an int; the overflow at 2^31 is undefined.
def acceptCallback : Option TcpServer :=
  if s.accepting = none ∧ s.connId + 1 < 2^31 ∧
      (s.threadsSize = 0 → ∀ id ∈ List.range (s.connId+1), (s.connection id).stack = []) then
    let entered := {s with connId := s.connId + 1, accepting := some .established}
    if s.threadsSize = 0 then
      (s.fresh.step .established).map fun conn => {entered with connection := update s.connection (s.connId+1) conn}
    else some {entered with
      connection := update s.connection (s.connId+1) s.fresh
      queued := update s.queued (s.connId+1) [.established]}
  else none

def enableInactiveRelease : Option TcpServer :=
  if s.accepting = some .established ∧ (s.threadsSize = 0 → (s.connection s.connId).stack = []) then
    let passed := {s with accepting := some .inactive}
    if s.enableInactive = false then some passed
    else if s.threadsSize = 0 then
      ((s.connection s.connId).step .enableInactiveRelease).map fun conn =>
        {passed with connection := update s.connection s.connId conn}
    else some {passed with queued := update s.queued s.connId (s.queued s.connId ++ [.enableInactiveRelease])}
  else none

def step : TcpAction → Option TcpServer
  | .acceptCallback => s.acceptCallback
  | .enableInactiveRelease => s.enableInactiveRelease
  | .insertConn =>
    if s.accepting = some .inactive then
      some {s with accepting := none, conns := s.connId :: s.conns.filter (· ≠ s.connId)}
    else none
  | .runQueued id =>
    match s.queued id with
    | [] => none
    | action :: rest =>
      if (1 ≤ id ∧ id ≤ s.connId) ∧ 0 < s.threadsSize ∧ (s.connection id).stack = [] then
        ((s.connection id).step action).map ({s with queued := update s.queued id rest}.settle id)
      else none
  | .connection id action =>
    if (1 ≤ id ∧ id ≤ s.connId) ∧ action ≠ .established ∧ (s.threadsSize = 0 → s.accepting ≠ none →
        action.nested = true ∧ (s.connection s.connId).stack ≠ []) then
      ((s.connection id).step action).map (s.settle id)
    else none
  | .pend =>
    match s.pending with
    | [] => none
    | id :: rest =>
      if s.accepting = none then some {s with pending := rest, conns := s.conns.filter (· ≠ id)} else none

-- In the main loop, a ShutDownInLoop of the connection that is being accepted finds
-- output to send.
def Flushing : TcpAction → Prop
  | .connection id .resume => s.threadsSize = 0 → s.accepting ≠ none → id = s.connId →
      (s.connection id).stack.head? = some .shutDown → 0 < (s.connection id).outBuffer.readableSize
  | _ => True

instance : DecidablePred s.Flushing := fun action => by
  unfold Flushing
  split <;> infer_instance

-- AcceptCallback and ReleaseInLoop are not in progress, and the main loop has run its
-- tasks.
structure Quiescent : Prop where
  accepting : s.accepting = none
  releasing : ∀ id, 1 ≤ id → id ≤ s.connId → .serverClose ∉ (s.connection id).stack
  pending : s.pending = []

def Exact : Prop := ∀ id, id ∈ s.conns ↔ (1 ≤ id ∧ id ≤ s.connId) ∧ (s.connection id).released = false

end TcpServer

def Frame.opens : Frame → Bool
  | .conn | .mess _ | .shutDown => true
  | _ => false

namespace Connection
variable {s next : Connection} {action : Action} {frame : Frame}

structure Opening (s : Connection) : Prop where
  released : s.released = false
  frames : ∀ frame ∈ s.stack, frame.opens = true

theorem opening_push (opening : Opening s) (opens : frame.opens = true) : Opening (s.push frame) :=
  ⟨opening.released,List.forall_mem_cons.mpr ⟨opens,opening.frames⟩⟩

theorem opening_mess (opening : Opening s) : Opening s.messOnInput := by
  rcases s.messOnInput_cases with same | pushed
  · rwa [same]
  · rw [pushed]; exact opening_push opening rfl

theorem opening_step (opening : Opening s) (nested : action.nested = true)
    (flushing : action = .resume → s.stack.head? = some .shutDown → 0 < s.outBuffer.readableSize)
    (taken : step s action = some next) : Opening next := by
  cases step_taken taken with
  | established | handleAnyEvent | handleRead | handleWrite | handleClose | handleError | timerDestroy => cases nested
  | send _ ran =>
    unfold sendInLoop at ran
    split at ran
    · cases ran; exact opening
    · obtain ⟨out,_,made⟩ := Option.bind_eq_some_iff.mp ran
      cases made
      dsimp only
      split <;> exact ⟨opening.released,opening.frames⟩
  | shutDown =>
    have entered : Opening {s with status := .disconnecting} := ⟨opening.released,opening.frames⟩
    exact opening_mess (opening_push entered rfl)
  | enableInactiveRelease =>
    unfold enableInactiveReleaseInLoop
    split <;> exact ⟨opening.released,opening.frames⟩
  | cancelInactiveRelease =>
    unfold cancelInactiveReleaseInLoop
    split <;> exact ⟨opening.released,opening.frames⟩
  | consume top =>
    have frames := opening.frames
    rw [top] at frames
    exact ⟨opening.released,List.forall_mem_cons.mpr ⟨rfl,(List.forall_mem_cons.mp frames).2⟩⟩
  | ret top =>
    have frames := opening.frames
    rw [top] at frames
    exact ⟨opening.released,(List.forall_mem_cons.mp frames).2⟩
  | @resume frame rest _ top ran =>
    have frames := opening.frames
    rw [top] at frames
    obtain ⟨opens,below⟩ := List.forall_mem_cons.mp frames
    cases frame with
    | shutDown =>
      have output := flushing rfl (by rw [top]; rfl)
      cases ran
      rw [shutDownTail,if_neg (by exact Nat.ne_of_gt output)]
      split <;> exact ⟨opening.released,below⟩
    | conn | mess => cases ran
    | _ => cases opens

end Connection
namespace TcpServer
variable {s next : TcpServer} {action : TcpAction} {id : Nat} {conn : Connection}

def Accepted (s : TcpServer) (id : Nat) : Prop := 1 ≤ id ∧ id ≤ s.connId

def Entered (s : TcpServer) (id : Nat) : Prop := s.Accepted id ∧ (s.accepting ≠ none → id ≠ s.connId)

-- A connection that was released is on its way out of the table: ReleaseInLoop has still
-- to call the server, the erasure is queued, or it has been made.
structure Sound (s : TcpServer) : Prop where
  bound : ∀ id, s.Accepted id → (s.connection id).Bound
  known : ∀ id ∈ s.conns, s.Entered id
  present : ∀ id, s.Entered id → id ∈ s.conns ∨ (s.connection id).released = true
  gone : ∀ id, s.Accepted id → (s.connection id).released = true →
    .serverClose ∈ (s.connection id).stack ∨ id ∈ s.pending ∨ s.Entered id ∧ id ∉ s.conns
  waiting : ∀ id ∈ s.pending, s.Accepted id ∧ (s.connection id).released = true
  opening : s.threadsSize = 0 → s.accepting ≠ none → (s.connection s.connId).Opening
  begun : s.accepting ≠ none → s.Accepted s.connId

theorem sound_start (threadsSize : Nat) (enableInactive : Bool) (callbacks : Callbacks) :
    Sound {threadsSize, enableInactive, callbacks} := by
  constructor <;> simp [Accepted,Entered] <;> omega

theorem Sound.exact (sound : Sound s) (quiet : s.Quiescent) : s.Exact := by
  intro id
  constructor
  · intro found
    obtain ⟨accepted,_⟩ := sound.known id found
    refine ⟨accepted,Bool.eq_false_iff.mpr fun released => ?_⟩
    rcases sound.gone id accepted released with owes | queued | ⟨_,absent⟩
    · exact quiet.releasing id accepted.1 accepted.2 owes
    · rw [quiet.pending] at queued; cases queued
    · exact absent found
  · rintro ⟨accepted,live⟩
    rcases sound.present id ⟨accepted,fun busy => absurd quiet.accepting busy⟩ with found | released
    · exact found
    · rw [live] at released; cases released

theorem moved_sound {conns pending : List Nat} (sound : Sound s) (accepted : s.Accepted id) (bound : conn.Bound)
    (kept : (s.connection id).released = true → conn.released = true)
    (gone : conn.released = true → .serverClose ∈ conn.stack ∨ id ∈ pending ∨ s.Entered id ∧ id ∉ conns)
    (opening : s.threadsSize = 0 → s.accepting ≠ none → id = s.connId → conn.Opening)
    (fewer : ∀ k ∈ conns, k ∈ s.conns) (others : ∀ k ∈ s.conns, k ∈ conns ∨ k = id ∧ conn.released = true)
    (more : ∀ k ∈ s.pending, k ∈ pending) (new : ∀ k ∈ pending, k ∈ s.pending ∨ k = id ∧ conn.released = true) :
    Sound {s with connection := update s.connection id conn, conns, pending} := by
  have own : update s.connection id conn id = conn := Function.update_self ..
  have other : ∀ {k}, k ≠ id → update s.connection id conn k = s.connection k := fun apart => Function.update_of_ne apart ..
  have released : ∀ k, (s.connection k).released = true → (update s.connection id conn k).released = true := by
    intro k was
    by_cases same : k = id
    · subst k; rw [own]; exact kept was
    · rw [other same]; exact was
  refine ⟨fun k there => ?_,fun k found => sound.known k (fewer k found),fun k there => ?_,fun k there => ?_,
    fun k queued => ?_,fun main busy => ?_,sound.begun⟩
  · change (update s.connection id conn k).Bound
    by_cases same : k = id
    · subst k; rw [own]; exact bound
    · rw [other same]; exact sound.bound k there
  · rcases sound.present k there with found | was
    · rcases others k found with still | ⟨rfl,now⟩
      · exact .inl still
      · exact .inr (by change (update s.connection k conn k).released = true; rw [own]; exact now)
    · exact .inr (released k was)
  · change (update s.connection id conn k).released = true → .serverClose ∈ (update s.connection id conn k).stack ∨ _
    by_cases same : k = id
    · subst k; rw [own]; exact gone
    · rw [other same]
      intro was
      rcases sound.gone k there was with owes | queued | ⟨entered,absent⟩
      · exact .inl owes
      · exact .inr (.inl (more k queued))
      · exact .inr (.inr ⟨entered,fun found => absent (fewer k found)⟩)
  · rcases new k queued with old | ⟨rfl,now⟩
    · exact ⟨(sound.waiting k old).1,released k (sound.waiting k old).2⟩
    · refine ⟨accepted,?_⟩
      change (update s.connection k conn k).released = true
      rw [own]; exact now
  · change (update s.connection id conn s.connId).Opening
    by_cases same : s.connId = id
    · rw [same,own]; exact opening main busy same.symm
    · rw [other same]; exact sound.opening main busy

theorem settle_sound {action : Connection.Action} (sound : Sound s) (accepted : s.Accepted id)
    (taken : (s.connection id).step action = some conn)
    (opening : s.threadsSize = 0 → s.accepting ≠ none → id = s.connId → conn.Opening) : Sound (s.settle id conn) := by
  have bound := sound.bound id accepted
  have bound' := bound.step taken
  unfold settle
  cases Connection.step_report bound taken with
  | plain plain =>
    rw [if_neg (by rw [plain.calls]; exact Nat.lt_irrefl _)]
    refine moved_sound sound accepted bound' (fun was => plain.released.trans was) (fun now => ?_) opening (fun _ found => found)
      (fun _ => .inl) (fun _ found => found) (fun _ => .inl)
    rw [plain.owes]
    exact sound.gone id accepted (plain.released.symm.trans now)
  | owed _ released calls owes =>
    rw [if_neg (by rw [calls]; exact Nat.lt_irrefl _)]
    exact moved_sound sound accepted bound' (fun _ => released) (fun _ => .inl owes) opening (fun _ found => found) (fun _ => .inl)
      (fun _ found => found) (fun _ => .inl)
  | called _ released calls =>
    rw [if_pos (by rw [calls]; exact Nat.lt_succ_self _)]
    unfold removeFromServer
    split
    · rename_i main
      -- a connection that is being accepted is still open, so its entry is there to erase
      have entered : s.Entered id := ⟨accepted,fun busy same => by
        rw [(opening main busy same).released] at released; cases released⟩
      refine moved_sound sound accepted bound' (fun _ => released) (fun _ => .inr (.inr ⟨entered,by simp⟩)) opening
        (fun _ found => List.mem_of_mem_filter found) (fun k found => ?_) (fun _ found => found) (fun _ => .inl)
      by_cases same : k = id
      · exact .inr ⟨same,released⟩
      · exact .inl (List.mem_filter.mpr ⟨found,by simpa using same⟩)
    · refine moved_sound sound accepted bound' (fun _ => released) (fun _ => .inr (.inl (by simp))) opening (fun _ found => found)
        (fun _ => .inl) (fun _ => List.mem_append_left _) (fun k queued => ?_)
      exact (List.mem_append.mp queued).imp_right fun new => ⟨List.mem_singleton.mp new,released⟩

theorem began_sound {queued : Nat → List Connection.Action} (sound : Sound s) (idle : s.accepting = none)
    (bound : conn.Bound) (live : conn.released = false) (opening : s.threadsSize = 0 → conn.Opening) :
    Sound {s with
      connId := s.connId + 1, accepting := some .established, queued
      connection := update s.connection (s.connId+1) conn} := by
  have other : ∀ {k}, k ≤ s.connId → update s.connection (s.connId+1) conn k = s.connection k := fun below =>
    Function.update_of_ne (Nat.ne_of_lt (Nat.lt_succ_of_le below)) ..
  have own : update s.connection (s.connId+1) conn (s.connId+1) = conn := Function.update_self ..
  have old : ∀ k, s.Accepted k → s.Entered k := fun k there => ⟨there,fun busy => absurd idle busy⟩
  have inserted : ∀ {k}, s.Accepted k → Entered {s with
      connId := s.connId + 1, accepting := some .established, queued
      connection := update s.connection (s.connId+1) conn} k := fun there =>
    ⟨⟨there.1,Nat.le_succ_of_le there.2⟩,fun _ => Nat.ne_of_lt (Nat.lt_succ_of_le there.2)⟩
  refine ⟨fun k there => ?_,fun k found => inserted (sound.known k found).1,fun k there => ?_,fun k there => ?_,
    fun k waits => ?_,fun main _ => ?_,fun _ => ⟨Nat.succ_pos _,Nat.le_refl _⟩⟩
  · change (update s.connection (s.connId+1) conn k).Bound
    rcases Nat.lt_or_eq_of_le there.2 with before | same
    · rw [other (Nat.le_of_lt_succ before)]; exact sound.bound k ⟨there.1,Nat.le_of_lt_succ before⟩
    · rw [same,own]; exact bound
  · have before := Nat.le_of_lt_succ (Nat.lt_of_le_of_ne there.1.2 (there.2 (Option.some_ne_none _)))
    change k ∈ s.conns ∨ (update s.connection (s.connId+1) conn k).released = true
    rw [other before]
    exact sound.present k (old k ⟨there.1.1,before⟩)
  · change (update s.connection (s.connId+1) conn k).released = true →
      .serverClose ∈ (update s.connection (s.connId+1) conn k).stack ∨ _
    rcases Nat.lt_or_eq_of_le there.2 with before | same
    · have before := Nat.le_of_lt_succ before
      rw [other before]
      intro was
      exact (sound.gone k ⟨there.1,before⟩ was).imp_right (Or.imp_right fun left => ⟨inserted left.1.1,left.2⟩)
    · rw [same,own,live]
      intro never
      cases never
  · obtain ⟨there,was⟩ := sound.waiting k waits
    refine ⟨(inserted there).1,?_⟩
    change (update s.connection (s.connId+1) conn k).released = true
    rw [other there.2]; exact was
  · change (update s.connection (s.connId+1) conn (s.connId+1)).Opening
    rw [own]; exact opening main

theorem fresh_bound (s : TcpServer) : s.fresh.Bound := ⟨rfl,fun owes => by cases owes⟩

theorem accept_sound (sound : Sound s) (taken : s.acceptCallback = some next) : Sound next := by
  obtain ⟨⟨idle,_,_⟩,made⟩ := Option.ite_none_right_eq_some.mp taken
  dsimp only at made
  split at made
  · obtain ⟨conn,begun,rfl⟩ := Option.map_eq_some_iff.mp made
    have established : conn.released = false ∧ conn.Opening := by
      cases Connection.step_taken begun with
      | established _ ran =>
        obtain ⟨_,entered⟩ := Option.ite_none_right_eq_some.mp ran
        cases entered
        split
        · exact ⟨rfl,rfl,fun frame found => by cases List.mem_singleton.mp found; rfl⟩
        · exact ⟨rfl,rfl,fun frame found => by cases found⟩
    exact began_sound sound idle (s.fresh_bound.step begun) established.1 fun _ => established.2
  · rename_i other
    cases made
    exact began_sound sound idle s.fresh_bound rfl fun main => absurd main other

theorem stage_sound {stage : Accepting} {queued : Nat → List Connection.Action} (sound : Sound s)
    (busy : s.accepting ≠ none) : Sound {s with accepting := some stage, queued} := by
  have back : ∀ k, Entered {s with accepting := some stage, queued} k → s.Entered k := fun k entered =>
    ⟨entered.1,fun _ => entered.2 (Option.some_ne_none stage)⟩
  have forth : ∀ k, s.Entered k → Entered {s with accepting := some stage, queued} k := fun k entered =>
    ⟨entered.1,fun _ => entered.2 busy⟩
  exact ⟨sound.bound,fun k found => forth k (sound.known k found),fun k entered => sound.present k (back k entered),
    fun k there was => (sound.gone k there was).imp_right (Or.imp_right fun left => ⟨forth k left.1,left.2⟩),
    sound.waiting,fun main _ => sound.opening main busy,fun _ => sound.begun busy⟩

theorem inactive_same {c next : Connection} (taken : c.step .enableInactiveRelease = some next) :
    next.stack = c.stack ∧ next.released = c.released ∧ next.serverCloseCalls = c.serverCloseCalls ∧
      next.serverCloseCb = c.serverCloseCb := by
  cases Connection.step_taken taken with
  | enableInactiveRelease =>
    unfold Connection.enableInactiveReleaseInLoop
    split <;> exact ⟨rfl,rfl,rfl,rfl⟩

theorem inactive_sound (sound : Sound s) (taken : s.enableInactiveRelease = some next) : Sound next := by
  obtain ⟨⟨begun,_⟩,made⟩ := Option.ite_none_right_eq_some.mp taken
  have busy : s.accepting ≠ none := by rw [begun]; exact Option.some_ne_none _
  have there := sound.begun busy
  have passed : Sound {s with accepting := some .inactive} := stage_sound sound busy
  dsimp only at made
  split at made
  · cases made; exact passed
  · split at made
    · rename_i main
      obtain ⟨conn,armed,rfl⟩ := Option.map_eq_some_iff.mp made
      obtain ⟨stack,released,_,_⟩ := inactive_same armed
      have opening := sound.opening main busy
      have live : conn.released = false := released.trans opening.released
      exact moved_sound passed there ((sound.bound _ there).step armed)
        (fun was => by rw [opening.released] at was; cases was) (fun now => by rw [live] at now; cases now)
        (fun _ _ _ => ⟨live,by rw [stack]; exact opening.frames⟩) (fun _ found => found) (fun _ => .inl)
        (fun _ found => found) fun _ => .inl
    · cases made
      exact stage_sound sound busy

theorem insert_sound (sound : Sound s) (busy : s.accepting ≠ none) :
    Sound {s with accepting := none, conns := s.connId :: s.conns.filter (· ≠ s.connId)} := by
  have entered : ∀ k, s.Accepted k → Entered {s with
      accepting := none, conns := s.connId :: s.conns.filter (· ≠ s.connId)} k := fun k there =>
    ⟨there,fun none' => absurd rfl none'⟩
  refine ⟨sound.bound,fun k found => ?_,fun k inside => ?_,fun k accepted was => ?_,sound.waiting,
    fun _ none' => absurd rfl none',fun none' => absurd rfl none'⟩
  · rcases List.mem_cons.mp found with rfl | old
    · exact entered _ (sound.begun busy)
    · exact entered k (sound.known k (List.mem_of_mem_filter old)).1
  · by_cases same : k = s.connId
    · exact .inl (List.mem_cons.mpr (.inl same))
    · refine (sound.present k ⟨inside.1,fun _ => same⟩).imp_left fun found => .tail _ ?_
      exact List.mem_filter.mpr ⟨found,by simpa using same⟩
  · rcases sound.gone k accepted was with owes | queued | ⟨before,absent⟩
    · exact .inl owes
    · exact .inr (.inl queued)
    · refine .inr (.inr ⟨entered k accepted,fun found => ?_⟩)
      rcases List.mem_cons.mp found with same | old
      · exact before.2 busy same
      · exact absent (List.mem_of_mem_filter old)

theorem pend_sound {rest : List Nat} (sound : Sound s) (first : s.pending = id :: rest) (idle : s.accepting = none) :
    Sound {s with pending := rest, conns := s.conns.filter (· ≠ id)} := by
  obtain ⟨there,released⟩ := sound.waiting id (by rw [first]; exact .head _)
  refine ⟨sound.bound,fun k found => sound.known k (List.mem_of_mem_filter found),fun k entered => ?_,
    fun k accepted was => ?_,fun k queued => sound.waiting k (by rw [first]; exact .tail _ queued),sound.opening,
    sound.begun⟩
  · by_cases same : k = id
    · subst k; exact .inr released
    · exact (sound.present k entered).imp_left fun found => List.mem_filter.mpr ⟨found,by simpa using same⟩
  · by_cases same : k = id
    · subst k; exact .inr (.inr ⟨⟨accepted,fun busy => absurd idle busy⟩,by simp⟩)
    · rcases sound.gone k accepted was with owes | queued | ⟨entered,absent⟩
      · exact .inl owes
      · rw [first] at queued
        exact .inr (.inl ((List.mem_cons.mp queued).resolve_left same))
      · exact .inr (.inr ⟨entered,fun found => absent (List.mem_of_mem_filter found)⟩)

theorem run_queued_sound (sound : Sound s) (taken : s.step (.runQueued id) = some next) : Sound next := by
  simp only [step] at taken
  split at taken
  · cases taken
  · rename_i rest _
    obtain ⟨⟨there,threads,_⟩,made⟩ := Option.ite_none_right_eq_some.mp taken
    obtain ⟨conn,ran,rfl⟩ := Option.map_eq_some_iff.mp made
    have unqueued : Sound {s with queued := update s.queued id rest} :=
      ⟨sound.bound,sound.known,sound.present,sound.gone,sound.waiting,sound.opening,sound.begun⟩
    exact settle_sound unqueued there ran fun main => absurd main (Nat.ne_of_gt threads)

theorem connection_sound {action : Connection.Action} (sound : Sound s) (flushing : s.Flushing (.connection id action))
    (taken : s.step (.connection id action) = some next) : Sound next := by
  obtain ⟨⟨there,_,inside⟩,made⟩ := Option.ite_none_right_eq_some.mp taken
  obtain ⟨conn,ran,rfl⟩ := Option.map_eq_some_iff.mp made
  refine settle_sound sound there ran fun main busy same => ?_
  subst same
  refine Connection.opening_step (sound.opening main busy) (inside main busy).1 (fun resumes => ?_) ran
  subst resumes
  exact flushing main busy rfl

theorem step_sound (s : TcpServer) (action : TcpAction) (next : TcpServer) (sound : Sound s) (flushing : s.Flushing action)
    (taken : s.step action = some next) : Sound next := by
  cases action with
  | acceptCallback => exact accept_sound sound taken
  | enableInactiveRelease => exact inactive_sound sound taken
  | insertConn =>
    obtain ⟨behind,made⟩ := Option.ite_none_right_eq_some.mp taken
    cases made
    exact insert_sound sound (by rw [behind]; exact Option.some_ne_none _)
  | runQueued id => exact run_queued_sound sound taken
  | connection id action => exact connection_sound sound flushing taken
  | pend =>
    simp only [step] at taken
    split at taken
    · cases taken
    · rename_i first
      obtain ⟨idle,made⟩ := Option.ite_none_right_eq_some.mp taken
      cases made
      exact pend_sound sound first idle

theorem connection_table_exact (threadsSize : Nat) (enableInactive : Bool) (callbacks : Callbacks) (actions : List TcpAction)
    (flushing : Throughout step Flushing {threadsSize, enableInactive, callbacks} actions)
    (ran : run step {threadsSize, enableInactive, callbacks} actions = some s) (quiet : s.Quiescent) : s.Exact :=
  (run_keeps step_sound (sound_start threadsSize enableInactive callbacks) flushing ran).exact quiet

def isIdle (s : TcpServer) : Bool := s.accepting.isNone && s.pending.isEmpty &&
  (List.range (s.connId+1)).all fun id => (s.connection id).stack.isEmpty

theorem idle_quiescent (idle : s.isIdle = true) : s.Quiescent := by
  simp only [isIdle,Bool.and_eq_true,Option.isNone_iff_eq_none,List.isEmpty_iff,List.all_eq_true,List.mem_range] at idle
  obtain ⟨⟨accepting,pending⟩,stacked⟩ := idle
  refine ⟨accepting,fun id _ below owes => ?_,pending⟩
  rw [stacked id (Nat.lt_succ_of_le below)] at owes
  cases owes

-- Two connections with one loop thread: the callback of the first shuts it down while
-- AcceptCallback has not yet come to the table.
def shutEarly : List TcpAction := [.acceptCallback,.runQueued 1,.connection 1 .shutDown,.connection 1 .resume,
  .connection 1 .ret,.connection 1 .resume,.connection 1 .ret,.enableInactiveRelease,.insertConn,.pend,
  .acceptCallback,.enableInactiveRelease,.insertConn,.runQueued 2,.connection 2 .ret]

theorem connection_table_exact_early : ∃ s, run step {threadsSize := 1} shutEarly = some s ∧ s.conns = [2] ∧ s.Exact := by
  have ends : (run step {threadsSize := 1} shutEarly).map (fun s => (s.conns,s.isIdle)) = some ([2],true) := by
    decide +kernel
  obtain ⟨s,ran,looks⟩ := Option.map_eq_some_iff.mp ends
  obtain ⟨conns,idle⟩ := Prod.mk.inj looks
  exact ⟨s,ran,conns,connection_table_exact 1 false {} shutEarly (by decide +kernel) ran (idle_quiescent idle)⟩

-- The same callback with no loop thread: the connection is entered after it has gone.
def shutInside : List TcpAction := [.acceptCallback,.connection 1 .shutDown,.connection 1 .resume,.connection 1 .ret,
  .connection 1 .resume,.connection 1 .ret,.enableInactiveRelease,.insertConn]

theorem released_connection_entered : ¬∀ (threadsSize : Nat) (enableInactive : Bool) (callbacks : Callbacks)
    (actions : List TcpAction) (s : TcpServer),
    run step {threadsSize, enableInactive, callbacks} actions = some s → s.Quiescent → s.Exact := by
  intro always
  have ends : (run step {} shutInside).map (fun s => (s.conns,s.isIdle,(s.connection 1).released)) =
      some ([1],true,true) := by decide +kernel
  obtain ⟨s,ran,looks⟩ := Option.map_eq_some_iff.mp ends
  simp only [Prod.mk.injEq] at looks
  obtain ⟨conns,idle,released⟩ := looks
  have live := ((always 0 false {} shutInside s ran (idle_quiescent idle) 1).mp (by rw [conns]; exact .head _)).2
  rw [released] at live
  cases live

end TcpServer
end LinuxOS.Muduo
