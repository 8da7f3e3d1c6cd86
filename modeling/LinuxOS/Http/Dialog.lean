import Mathlib.Data.List.Forall2
import LinuxOS.Http.Closing
import LinuxOS.Http.StaticSite
import LinuxOS.Separators

namespace LinuxOS.Http
open Muduo Muduo.Connection HttpContext

-- A client on one connection: what it has asked for, the bytes of it that recv
-- has not delivered yet, and the server's end.
structure Dialog where
  session : Session
  wire : Bytes := []
  asked : List Message := []

namespace Dialog

inductive Action where
  | ask (m : Message)
  | serve (action : Session.Action)

def taken (s : Dialog) : Session.Action → Bytes
  | .event action => Connection.received s.session.conn action
  | .callback .. => []

-- recv delivers bytes in the order in which they were sent.
def step (s : Dialog) : Action → Option Dialog
  | .ask m => some {s with wire := s.wire ++ m.encode, asked := s.asked ++ [m]}
  | .serve action =>
    if s.taken action <+: s.wire then
      (s.session.step action).map fun next => {s with
        session := next
        wire := s.wire.drop (s.taken action).length}
    else none

def opened (conn : Connection) : Dialog := {session := Session.accepted conn}

-- The client asks for nothing but whole requests that keep the connection, and
-- what the server would answer in the state of a call is valid.
def Answers (valid : Served → Prop) (_ : Dialog) : Action → Prop
  | .ask m => m.Formed
  | .serve (.callback server platform) => ∀ m, m.Formed → valid ⟨server,platform,m⟩
  | .serve (.event _) => True

def Writes (s : Dialog) : Action → Prop
  | .serve (.event action) => WholeWrite s.session.conn action
  | _ => True

end Dialog

namespace Dialog
variable {s next : Dialog} {conn last : Connection} {c : HttpContext} {effects : List Effect} {served : List Served}
  {ms later : List Message} {server : HttpServer} {platform : Platform} {frames : List Frame} {session : Session}
  {actions : List Action}
  {valid : Served → Prop}

def payloads (effects : List Effect) : Bytes := effects.flatMap fun
  | .sent payload => payload
  | _ => []

theorem payloads_served (served : List Served) :
    payloads (served.flatMap Served.effects) = served.flatMap fun v => v.exchange.payload := by
  induction served with
  | nil => rfl
  | cons v served ih =>
    simp only [payloads,List.flatMap_append,List.flatMap_cons] at ih ⊢
    rw [ih]
    simp [Served.effects]

theorem parse_more {c other : HttpContext} {x z : Bytes} (same : parse c x = parse other z) (y : Bytes)
    (running : ∀ next rest, parse other z = .ok (next,rest) → next.status ≠ .error)
    (whole : ∃ state, parse other z = .ok state) : parse c (x ++ y) = parse other (z ++ y) := by
  obtain ⟨⟨next,rest⟩,parsed⟩ := whole
  have active := running next rest parsed
  have left := parse_append c x y
  have right := parse_append other z y
  rw [same,parsed] at left
  rw [parsed] at right
  simp only [Continues,if_neg active] at left right
  exact left.trans right.symm

theorem parse_asked (formed : ∀ m ∈ ms, m.Formed) (parsed : parse c x = parse {} (encodeAll ms)) (m : Message) :
    parse c (x ++ m.encode) = parse {} (encodeAll (ms ++ [m])) := by
  have joined : encodeAll (ms ++ [m]) = encodeAll ms ++ m.encode := by
    rw [encodeAll,List.flatMap_append,List.flatMap_singleton]; rfl
  have whole := parse_encodeAll formed
  rw [joined]
  apply parse_more parsed
  · intro next rest ended
    rw [whole] at ended
    cases ms with
    | nil => cases ended; nofun
    | cons => cases ended; nofun
  · rw [whole]
    cases ms with
    | nil => exact ⟨_,rfl⟩
    | cons => exact ⟨_,rfl⟩

theorem sendAll_sent (ran : Session.sendAll conn effects = some last) (active : conn.status ≠ .disconnected) :
    last.sent = conn.sent ++ payloads effects := by
  induction effects generalizing conn with
  | nil => cases ran; exact (List.append_nil _).symm
  | cons effect rest ih =>
    cases effect with
    | sent payload =>
      obtain ⟨middle,taken,ran⟩ := Option.bind_eq_some_iff.mp ran
      have kept := (send_frame taken).2.1
      rw [ih ran (by rw [kept]; exact active),send_sent taken active,List.append_assoc]
      rfl
    | routed => exact ih ran active
    | shutDown => exact ih ran active

def Due (conn : Connection) : Prop := conn.stack.head? = some (.mess false) ∧ conn.status ≠ .disconnected

-- The first requests have been answered, each once and in order, and what is
-- unread or still on the wire is what the parser needs for the others.
structure Underway (s : Dialog) (served : List Served) (later : List Message) (c : HttpContext) : Prop where
  asked : s.asked = served.map Served.message ++ later
  context : s.session.context = some c
  closing : s.session.closing = none
  log : s.session.log = served.flatMap Served.effects
  sent : s.session.conn.sent = served.flatMap fun v => v.exchange.payload
  parsed : parse c (s.session.conn.inBuffer.readable ++ s.wire) = parse {} (encodeAll later)
  code : c.respCode = 200
  waits : Due s.session.conn ∨
    parse c s.session.conn.inBuffer.readable = .ok (c,s.session.conn.inBuffer.readable) ∧ c.status ≠ .over

structure Follows (valid : Served → Prop) (s : Dialog) : Prop where
  sound : Session.Sound s.session
  formed : ∀ m ∈ s.asked, m.Formed
  story : ∃ served later c, Underway s served later c ∧ ∀ v ∈ served, valid v

theorem opened_follows (fresh : Fresh conn) (set : conn.messCb = true) (empty : conn.inBuffer.readable = []) :
    Follows valid (opened conn) := by
  refine ⟨Session.opened_sound (Session.accepted_opened fresh.stack set empty),nofun,[],[],{},?_,nofun⟩
  have unread : (opened conn).session.conn.inBuffer.readable = [] := empty
  refine ⟨rfl,rfl,rfl,rfl,fresh.sent,?_,rfl,.inr ⟨?_,nofun⟩⟩
  · rw [unread]; rfl
  · rw [unread]; rfl

theorem Underway.formed (formed : ∀ m ∈ s.asked, m.Formed) (story : Underway s served later c) :
    ∀ m ∈ later, m.Formed := by
  intro m member
  apply formed
  rw [story.asked]
  exact List.mem_append_right _ member

theorem ask_follows (follows : Follows valid s) (asks : m.Formed) :
    Follows valid {s with wire := s.wire ++ m.encode, asked := s.asked ++ [m]} := by
  obtain ⟨served,later,c,story,each⟩ := follows.story
  refine ⟨follows.sound,?_,served,later ++ [m],c,?_,each⟩
  · intro other member
    rcases List.mem_append.mp member with old | new
    · exact follows.formed other old
    · rw [List.mem_singleton.mp new]; exact asks
  · refine ⟨?_,story.context,story.closing,story.log,story.sent,?_,story.code,story.waits⟩
    · show s.asked ++ [m] = _
      rw [story.asked,List.append_assoc]
    · show parse c (s.session.conn.inBuffer.readable ++ (s.wire ++ m.encode)) = _
      rw [← List.append_assoc]
      exact parse_asked (story.formed follows.formed) story.parsed m

theorem Underway.moved (story : Underway s served later c) (input : SameInput s.session.conn conn)
    (sent : conn.sent = s.session.conn.sent) (kept : Due s.session.conn → Due conn) :
    Underway {s with session := {s.session with conn := conn}} served later c := by
  refine ⟨story.asked,story.context,story.closing,story.log,sent.trans story.sent,?_,story.code,?_⟩
  · show parse c (conn.inBuffer.readable ++ s.wire) = _
    rw [input.inBuffer]
    exact story.parsed
  · rcases story.waits with due | seen
    · exact .inl (kept due)
    · right
      show parse c conn.inBuffer.readable = .ok (c,conn.inBuffer.readable) ∧ _
      rw [input.inBuffer]
      exact seen

theorem idle_not_due (idle : conn.stack = []) : ¬Due conn := by
  intro due
  have top := due.1
  rw [idle] at top
  cases top

theorem Underway.arrives (story : Underway s served later c) (arrived : Arrived s.session.conn conn bytes)
    (sent : conn.sent = s.session.conn.sent) (first : bytes <+: s.wire) :
    Underway {s with session := {s.session with conn := conn}, wire := s.wire.drop bytes.length} served later c := by
  have seen := story.waits.resolve_left (idle_not_due arrived.idle)
  refine ⟨story.asked,story.context,story.closing,story.log,sent.trans story.sent,?_,story.code,?_⟩
  · show parse c (conn.inBuffer.readable ++ s.wire.drop bytes.length) = _
    obtain ⟨tail,split⟩ := first
    rw [arrived.readable,← split,List.drop_left,List.append_assoc,split]
    exact story.parsed
  · rcases arrived.pending with none | due
    · right
      have same := arrived.readable
      rw [none,List.append_nil] at same
      show parse c conn.inBuffer.readable = .ok (c,conn.inBuffer.readable) ∧ _
      rw [same]
      exact seen
    · exact .inl due

theorem event_follows (follows : Follows valid s) (event : isEvent action = true)
    (first : Connection.received s.session.conn action <+: s.wire) (ran : s.session.conn.step action = some conn) :
    Follows valid {s with
      session := {s.session with conn := conn}
      wire := s.wire.drop (Connection.received s.session.conn action).length} := by
  obtain ⟨served,later,c,story,each⟩ := follows.story
  have sound := Session.event_sound follows.sound event ran
  rw [if_neg (by simp [story.closing])] at sound
  have sent := event_sent event ran
  refine ⟨sound,follows.formed,served,later,c,?_,each⟩
  rcases event_arrived follows.sound.messCb event ran with ⟨stack,status,input,none⟩ | arrived
  · rw [none]
    exact story.moved input sent fun due => ⟨by rw [stack]; exact due.1,by rw [status]; exact due.2⟩
  · exact story.arrives arrived sent first

theorem top_follows (follows : Follows valid s) (top : s.session.conn.stack = frame :: frames) (other : frame ≠ .mess false)
    (ran : s.session.conn.step (if frame.isUser then .ret else .resume) = some conn) :
    Follows valid {s with session := {s.session with conn := conn}} := by
  obtain ⟨served,later,c,story,each⟩ := follows.story
  have clear : Clear s.session.conn.stack := by
    rcases follows.sound.ready with clear | ⟨rest,same,_⟩
    · exact clear
    · rw [top] at same
      cases same
      exact absurd rfl other
  refine ⟨Session.top_sound follows.sound top other ran,follows.formed,served,later,c,?_,each⟩
  refine story.moved (top_input clear top ran).2 (top_silent ran).output.sent fun due => ?_
  exact absurd due.1 (clear_head clear)

theorem effects_served (server : HttpServer) (platform : Platform) (done : List Message) :
    done.flatMap (exchange server platform) = (done.map (Served.mk server platform)).flatMap Served.effects := by
  rw [List.flatMap_map]; rfl

theorem counts_served (active : conn.status ≠ .disconnected) (served : List Served) :
    (served.flatMap Served.effects).filter (Effect.counts conn.status) = served.flatMap Served.effects := by
  rw [List.filter_eq_self]
  intro effect member
  obtain ⟨v,_,inside⟩ := List.mem_flatMap.mp member
  have either : effect = .routed v.message.decoded ∨ effect = .sent v.exchange.payload := by
    simpa [Served.effects] using inside
  rcases either with rfl | rfl
  · rfl
  · simpa [Effect.counts] using active

-- On a connection that is gone nothing new was read, and nothing is answered.
theorem called_active (story : Underway s served later c)
    (ran : server.onMessage platform (some c) s.session.conn.inBuffer =
      .ok (done.flatMap (exchange server platform),stopped,left)) :
    done = [] ∨ s.session.conn.status ≠ .disconnected := by
  rcases story.waits with due | ⟨stable,pending⟩
  · exact .inr due.2
  · obtain ⟨first,rest,parsed,starts⟩ := HttpServer.loop_starts ran
    rw [Option.getD_some,stable] at parsed
    cases parsed
    have unfinished : Unfinished c := ⟨pending,by rw [story.code]; decide⟩
    rcases starts with ⟨_,none,_⟩ | ⟨ended,_⟩
    · cases done with
      | nil => exact .inl rfl
      | cons => cases none
    · exact absurd unfinished ended

-- A call of OnMessage answers the requests that are complete.
theorem callback_follows (follows : Follows valid s) (top : s.session.conn.stack = .mess false :: frames)
    (answers : ∀ m, m.Formed → valid ⟨server,platform,m⟩)
    (ran : s.session.onMessage server platform frames = some session) : Follows valid {s with session := session} := by
  have sound := Session.callback_sound follows.sound top ran
  obtain ⟨served,later,c,story,each⟩ := follows.story
  obtain ⟨done,rest,stopped,left,split,called,waiting⟩ := onMessage_waiting server platform
    (story.formed follows.formed) story.parsed story.code
  have active := called_active story called
  have quiet := exchange_open server platform done
  have latest : ∀ v ∈ done.map (Served.mk server platform), valid v := by
    intro v member
    obtain ⟨m,inside,rfl⟩ := List.mem_map.mp member
    exact answers m (story.formed follows.formed m (by rw [split]; exact List.mem_append_left _ inside))
  refine ⟨sound,follows.formed,served ++ done.map (Served.mk server platform),rest,stopped,?_,
    fun v member => (List.mem_append.mp member).elim (each v) (latest v)⟩
  unfold Session.onMessage at ran
  rw [story.context,called] at ran
  obtain ⟨conn,sends,equal⟩ := Option.bind_eq_some_iff.mp ran
  rw [quiet,story.closing] at equal
  cases equal
  have input := (Session.sendAll_frame sends).2.2.inBuffer
  have kept : conn.inBuffer.readable = left.readable := congrArg Buffer.readable input
  refine ⟨?_,rfl,rfl,?_,?_,?_,waiting.code,.inr ?_⟩
  · show s.asked = _
    rw [story.asked,split,List.map_append,List.map_map,List.append_assoc]
    simp [Function.comp_def]
  · show s.session.log ++ _ = _
    rw [story.log,List.flatMap_append,effects_served]
    rcases active with rfl | active
    · rfl
    · rw [counts_served active]
  · show conn.sent = _
    rw [List.flatMap_append,← story.sent]
    rcases active with rfl | active
    · cases sends
      exact (List.append_nil _).symm
    · rw [sendAll_sent sends active,effects_served,payloads_served]
  · show parse stopped (conn.inBuffer.readable ++ s.wire) = _
    rw [kept]
    exact waiting.parsed
  · show parse stopped conn.inBuffer.readable = .ok (stopped,conn.inBuffer.readable) ∧ _
    rw [kept]
    exact ⟨waiting.stable,waiting.pending⟩

theorem serve_follows (follows : Follows valid s) (answers : Answers valid s (.serve action))
    (first : s.taken action <+: s.wire)
    (ran : s.session.step action = some session) :
    Follows valid {s with session := session, wire := s.wire.drop (s.taken action).length} := by
  cases action with
  | event action =>
    simp only [Session.step] at ran
    split at ran
    · rename_i event
      obtain ⟨conn,taken,equal⟩ := Option.map_eq_some_iff.mp ran
      obtain ⟨_,_,_,story,_⟩ := follows.story
      rw [if_neg (by simp [story.closing])] at equal
      cases equal
      exact event_follows follows event first taken
    · cases ran
  | callback server platform =>
    simp only [Session.step] at ran
    split at ran
    · cases ran
    · rename_i frames top
      exact callback_follows follows top answers ran
    · rename_i frame frames other top
      obtain ⟨conn,taken,equal⟩ := Option.map_eq_some_iff.mp ran
      cases equal
      exact top_follows follows top other taken

theorem step_follows (s : Dialog) (action : Action) (next : Dialog) (follows : Follows valid s)
    (answers : Answers valid s action) (ran : step s action = some next) : Follows valid next := by
  cases action with
  | ask m => cases ran; exact ask_follows follows answers
  | serve action =>
    simp only [step] at ran
    split at ran
    · rename_i first
      obtain ⟨session,served,equal⟩ := Option.map_eq_some_iff.mp ran
      cases equal
      exact serve_follows follows answers first served
    · cases ran

theorem requests_answered (fresh : Fresh conn) (set : conn.messCb = true) (empty : conn.inBuffer.readable = [])
    (answers : Machine.Throughout step (Answers valid) (opened conn) actions)
    (ran : Machine.run step (opened conn) actions = some s) :
    ∃ (served : List Served) (later : List Message), s.asked = served.map Served.message ++ later ∧
      (∀ v ∈ served, valid v) ∧
      s.session.log = served.flatMap Served.effects ∧
      s.session.conn.sent = served.flatMap (fun v => v.exchange.payload) ∧ s.session.closing = none ∧
      (s.wire = [] → s.session.conn.stack = [] → later = []) := by
  have follows := Machine.run_keeps step_follows (opened_follows fresh set empty) answers ran
  obtain ⟨served,later,c,story,each⟩ := follows.story
  refine ⟨served,later,story.asked,each,story.log,story.sent,story.closing,fun nothing idle => ?_⟩
  obtain ⟨stable,pending⟩ := story.waits.resolve_left (idle_not_due idle)
  have parsed := story.parsed
  rw [nothing] at parsed
  exact (waiting_end (story.formed follows.formed) ⟨parsed,story.code,stable,pending⟩).1

instance (s : Dialog) (action : Action) : Decidable (Writes s action) :=
  match action with
  | .ask _ => .isTrue trivial
  | .serve (.event action) => inferInstanceAs (Decidable (WholeWrite s.session.conn action))
  | .serve (.callback ..) => .isTrue trivial

-- The server is one that has only files, and the disk is as each call finds it.
def FromFiles (v : Served) : Prop := v.server.Site ∧ v.platform.Walks

def inOrder (keys : Multiset Bytes) : List Bytes :=
  Quot.liftOn keys (List.insertionSort (· ≤ ·)) fun left right same =>
    (((List.perm_insertionSort _ left).trans same).trans (List.perm_insertionSort _ right).symm).eq_of_pairwise'
      (List.pairwise_insertionSort _ left) (List.pairwise_insertionSort _ right)

theorem inOrder_sort (keys : Multiset Bytes) : inOrder keys = keys.sort :=
  Quot.inductionOn keys fun list => (List.mergeSort_eq_insertionSort _ list).symm

def shelf : Platform where
  isDirectory _ := false
  isRegular path := path = ascii "./x"
  readFile path := if path = ascii "./x" then some (ascii "text") else none
  entries dict := (inOrder dict.keys.val).filterMap fun key => (dict.lookup key).map fun value => (key,value)

theorem shelf_walks : shelf.Walks := by
  have same : shelf.entries = sortedDisk.entries := by
    funext dict
    simp only [shelf,inOrder_sort]
    rfl
  unfold Platform.Walks
  rw [same]
  exact sortedDisk_walks

def look : Action := .serve (.callback (HttpServer.create (ascii ".")) shelf)

def conversation : List Action := [.ask upload,.ask download,.serve (.event (.handleRead (.data (stream.take 41)))),
  look,look,.serve (.event (.handleRead (.data (stream.drop 41)))),look,look,
  .serve (.event (.handleWrite (.count 407))),look]

theorem conversation_answers : Machine.Throughout step (Answers FromFiles) (opened {}) conversation := by
  apply Machine.throughout_each
  intro action member s
  have files : ∀ m, m.Formed → FromFiles ⟨HttpServer.create (ascii "."),shelf,m⟩ :=
    fun _ _ => ⟨create_site _,shelf_walks⟩
  simp only [conversation,List.mem_cons,List.not_mem_nil,or_false] at member
  rcases member with rfl | rfl | rfl | rfl | rfl | rfl | rfl | rfl | rfl | rfl
  · exact upload_formed
  · exact download_formed
  all_goals first
    | exact trivial
    | exact files

theorem conversation_ends : ∃ s, Machine.run step (opened {}) conversation = some s ∧ s.wire = [] ∧
    s.session.conn.stack = [] ∧ s.session.conn.outBuffer.readable = [] ∧ s.asked.length = 2 := by
  have ends : (Machine.run step (opened {}) conversation).map
      (fun s => (s.wire,s.session.conn.stack,s.session.conn.outBuffer.readable,s.asked.length)) = some ([],[],[],2) := by
    decide +kernel
  obtain ⟨s,ran,looks⟩ := Option.map_eq_some_iff.mp ends
  simp only [Prod.mk.injEq] at looks
  exact ⟨s,ran,looks⟩

theorem requests_answered_pair : ∃ (s : Dialog) (served : List Served),
    Machine.run step (opened {}) conversation = some s ∧ s.asked.length = 2 ∧ s.asked = served.map Served.message ∧
    (∀ v ∈ served, FromFiles v) ∧ s.session.log = served.flatMap Served.effects ∧
    s.session.conn.sent = served.flatMap (fun v => v.exchange.payload) ∧ s.session.closing = none := by
  obtain ⟨s,ran,nothing,idle,_,two⟩ := conversation_ends
  obtain ⟨served,later,asked,files,log,sent,closing,ended⟩ :=
    requests_answered fresh_start rfl Buffer.readable_start conversation_answers ran
  rw [ended nothing idle,List.append_nil] at asked
  exact ⟨s,served,ran,two,asked,files,log,sent,closing⟩

theorem sendAll_output (ran : Session.sendAll conn effects = some last) (kept : Kept conn) (shut : Shut conn) :
    Kept last ∧ Shut last := by
  induction effects generalizing conn with
  | nil => cases ran; exact ⟨kept,shut⟩
  | cons effect rest ih =>
    cases effect with
    | sent payload =>
      obtain ⟨middle,taken,ran⟩ := Option.bind_eq_some_iff.mp ran
      obtain ⟨kept,shut⟩ := send_output kept shut taken
      exact ih ran kept shut
    | routed => exact ih ran kept shut
    | shutDown => exact ih ran kept shut

theorem onMessage_output (ran : s.session.onMessage server platform frames = some session)
    (kept : Kept s.session.conn) (shut : Shut s.session.conn) : Kept session.conn ∧ Shut session.conn := by
  unfold Session.onMessage at ran
  split at ran
  · cases ran
  · obtain ⟨conn,sends,equal⟩ := Option.bind_eq_some_iff.mp ran
    obtain ⟨kept,shut⟩ := sendAll_output sends kept shut
    cases equal
    dsimp only
    split
    · exact silent_output silent_shutDown kept shut
    · exact ⟨kept,shut⟩

theorem step_output (s : Dialog) (action : Action) (next : Dialog)
    (holds : Kept s.session.conn ∧ Shut s.session.conn) (writes : Writes s action) (ran : step s action = some next) :
    Kept next.session.conn ∧ Shut next.session.conn := by
  cases action with
  | ask m => cases ran; exact holds
  | serve action =>
    simp only [step] at ran
    split at ran
    · obtain ⟨session,moved,equal⟩ := Option.map_eq_some_iff.mp ran
      cases equal
      cases action with
      | event action =>
        simp only [Session.step] at moved
        split at moved
        · obtain ⟨conn,taken,equal⟩ := Option.map_eq_some_iff.mp moved
          cases equal
          exact step_kept _ _ _ holds writes taken
        · cases moved
      | callback server platform =>
        simp only [Session.step] at moved
        split at moved
        · cases moved
        · exact onMessage_output moved holds.1 holds.2
        · rename_i top
          obtain ⟨conn,taken,equal⟩ := Option.map_eq_some_iff.mp moved
          cases equal
          exact silent_output (top_silent taken) holds.1 holds.2
    · cases ran

def heads (served : List Served) : List Bool := served.map fun v => v.message.method = ascii "HEAD"

theorem heads_exchange (formed : ∀ v ∈ served, v.message.Formed) :
    heads served = (served.map Served.exchange).map Exchange.isHead := by
  rw [List.map_map]
  apply List.map_congr_left
  intro v member
  have method : v.exchange.req.method = v.message.method := (decoded_delivers (formed v member)).method
  simp only [Function.comp,Exchange.isHead,method]

-- Nothing, or a beginning of the next response that the server has made: not the whole of it.
def Begun (pending : List Served) (rest : Bytes) : Prop :=
  rest = [] ∨ ∃ v more, pending = v :: more ∧ rest <+: v.exchange.payload ∧ rest ≠ v.exchange.payload

-- The server has served the first requests; what the client has got are whole
-- responses to the first of these, and a beginning of the next one.
structure Read (valid : Served → Prop) (s : Dialog) (answered pending : List Served) (received : List Received)
    (rest : Bytes) : Prop where
  log : s.session.log = (answered ++ pending).flatMap Served.effects
  asked : ∃ later, s.asked = (answered ++ pending).map Served.message ++ later ∧
    (s.wire = [] → s.session.conn.stack = [] → later = [])
  valid : ∀ v ∈ answered ++ pending, valid v
  read : readResponses (heads answered) s.session.conn.accepted = some (received,rest)
  splits : List.Forall₂ Exchange.Splits (answered.map Served.exchange) received
  begun : Begun pending rest
  drained : s.session.conn.outBuffer.readable = [] → pending = [] ∧ rest = []

theorem Read.ended {answered pending : List Served} {received : List Received} {rest : Bytes}
    (read : Read valid s answered pending received rest) (nothing : s.wire = []) (idle : s.session.conn.stack = [])
    (drained : s.session.conn.outBuffer.readable = []) : s.asked = answered.map Served.message ∧ pending = [] ∧ rest = [] := by
  obtain ⟨later,asked,ended⟩ := read.asked
  obtain ⟨written,whole⟩ := read.drained drained
  rw [ended nothing idle,written,List.append_nil,List.append_nil] at asked
  exact ⟨asked,written,whole⟩

theorem follows_read (follows : Follows valid s) (kept : Kept s.session.conn)
    (given : ∀ v, v.message.Formed → valid v → v.exchange.Formed) :
    ∃ answered pending received rest, Read valid s answered pending received rest ∧ ∀ v ∈ answered, v.message.Formed := by
  obtain ⟨served,later,c,story,each⟩ := follows.story
  have starts : s.session.conn.accepted <+: served.flatMap fun v => v.exchange.payload := ⟨_,kept.trans story.sent⟩
  obtain ⟨answered,pending,rest,come⟩ := Streams.come_exists starts
  have inside : ∀ v ∈ answered, v ∈ served := fun v member => by
    rw [come.items]; exact List.mem_append_left _ member
  have formed : ∀ v ∈ answered, v.message.Formed := by
    intro v member
    apply follows.formed
    rw [story.asked]
    exact List.mem_append_left _ (List.mem_map_of_mem (inside v member))
  have responses : ∀ e ∈ answered.map Served.exchange, e.Formed := by
    intro e member
    obtain ⟨v,found,rfl⟩ := List.mem_map.mp member
    exact given v (formed v found) (each v (inside v found))
  obtain ⟨received,read,splits⟩ := readResponses_payloads (answered.map Served.exchange) responses rest
  have log := story.log
  have asked := story.asked
  rw [come.items] at log asked each
  refine ⟨answered,pending,received,rest,⟨log,⟨later,asked,?later⟩,each,?read,splits,?begun,?drained⟩,formed⟩
  case later =>
    intro nothing idle
    obtain ⟨stable,waiting⟩ := story.waits.resolve_left (idle_not_due idle)
    have parsed := story.parsed
    rw [nothing] at parsed
    exact (waiting_end (story.formed follows.formed) ⟨parsed,story.code,stable,waiting⟩).1
  case read => rw [heads_exchange formed,come.whole,← read,List.flatMap_map]
  case begun => exact come.part.imp And.right id
  case drained =>
    intro drained
    have whole : s.session.conn.accepted = served.flatMap fun v => v.exchange.payload := by
      rw [← story.sent,← kept,drained,List.append_nil]
    rw [whole] at come
    exact come.ends

theorem run_reads (fresh : Fresh conn) (set : conn.messCb = true) (empty : conn.inBuffer.readable = [])
    (answers : Machine.Throughout step (Answers valid) (opened conn) actions)
    (writes : Machine.Throughout step Writes (opened conn) actions)
    (ran : Machine.run step (opened conn) actions = some s) : Follows valid s ∧ Kept s.session.conn := by
  have start : Kept conn ∧ Shut conn := fresh_kept fresh
  exact ⟨Machine.run_keeps step_follows (opened_follows fresh set empty) answers ran,
    (Machine.run_keeps step_output start writes ran).1⟩

theorem client_reads_answers (fresh : Fresh conn) (set : conn.messCb = true) (empty : conn.inBuffer.readable = [])
    (given : ∀ v, v.message.Formed → valid v → v.exchange.Formed)
    (answers : Machine.Throughout step (Answers valid) (opened conn) actions)
    (writes : Machine.Throughout step Writes (opened conn) actions)
    (ran : Machine.run step (opened conn) actions = some s) :
    ∃ answered pending received rest, Read valid s answered pending received rest := by
  obtain ⟨follows,kept⟩ := run_reads fresh set empty answers writes ran
  obtain ⟨answered,pending,received,rest,read,_⟩ := follows_read follows kept given
  exact ⟨answered,pending,received,rest,read⟩

theorem conversation_writes : Machine.Throughout step Writes (opened {}) conversation := by decide +kernel

theorem client_reads_answers_pair : ∃ (s : Dialog) (answered : List Served) (received : List Received),
    Machine.run step (opened {}) conversation = some s ∧ received.length = 2 ∧ Read FromFiles s answered [] received [] := by
  obtain ⟨s,ran,nothing,idle,drained,two⟩ := conversation_ends
  obtain ⟨answered,pending,received,rest,read⟩ := client_reads_answers fresh_start rfl Buffer.readable_start
    (fun v formed files => Served.site_formed files.1 files.2 formed) conversation_answers conversation_writes ran
  obtain ⟨asked,rfl,rfl⟩ := read.ended nothing idle drained
  refine ⟨s,answered,received,ran,?_,read⟩
  have lengths := read.splits.length_eq
  rw [asked,List.length_map] at two
  rw [← lengths,List.length_map,two]

theorem static_site_delivered (fresh : Fresh conn) (set : conn.messCb = true) (empty : conn.inBuffer.readable = [])
    (answers : Machine.Throughout step (Answers FromFiles) (opened conn) actions)
    (writes : Machine.Throughout step Writes (opened conn) actions)
    (ran : Machine.run step (opened conn) actions = some s) :
    ∃ answered pending received rest, Read FromFiles s answered pending received rest ∧
      List.Forall₂ Served.Delivered answered received := by
  obtain ⟨follows,kept⟩ := run_reads fresh set empty answers writes ran
  obtain ⟨answered,pending,received,rest,read,formed⟩ := follows_read follows kept
    fun v formed files => Served.site_formed files.1 files.2 formed
  refine ⟨answered,pending,received,rest,read,?_⟩
  have splits := List.forall₂_map_left_iff.mp read.splits
  have both : List.Forall₂ (fun v r => (v.message.Formed ∧ FromFiles v) ∧ v.exchange.Splits r) answered received :=
    (List.forall₂_and_left _ _).mpr
      ⟨fun v member => ⟨formed v member,read.valid v (List.mem_append_left _ member)⟩,splits⟩
  exact both.imp fun v r holds => Served.splits_delivered holds.1.2.1 holds.1.1 holds.2

theorem static_site_delivered_pair : ∃ (s : Dialog) (answered : List Served) (received : List Received),
    Machine.run step (opened {}) conversation = some s ∧ received.length = 2 ∧ Read FromFiles s answered [] received [] ∧
    List.Forall₂ Served.Delivered answered received := by
  obtain ⟨s,ran,nothing,idle,drained,two⟩ := conversation_ends
  obtain ⟨answered,pending,received,rest,read,delivered⟩ :=
    static_site_delivered fresh_start rfl Buffer.readable_start conversation_answers conversation_writes ran
  obtain ⟨asked,rfl,rfl⟩ := read.ended nothing idle drained
  rw [asked,List.length_map] at two
  exact ⟨s,answered,received,ran,by rw [← delivered.length_eq,two],read,delivered⟩

end Dialog
end LinuxOS.Http
