import LinuxOS.Http.Session

namespace LinuxOS.Http.Session
open Muduo Muduo.Connection HttpContext
variable {s next : Session} {conn last : Connection} {effects : List Effect} {frames : List Frame}
  {server : HttpServer} {platform : Platform}

theorem sendAll_frame (sent : sendAll conn effects = some last) :
    last.stack = conn.stack ∧ last.status = conn.status ∧ SameInput conn last := by
  induction effects generalizing conn with
  | nil => cases sent; exact ⟨rfl,rfl,rfl,rfl⟩
  | cons effect rest ih =>
    cases effect with
    | sent payload =>
      obtain ⟨middle,taken,later⟩ := Option.bind_eq_some_iff.mp sent
      obtain ⟨stack,status,input⟩ := send_frame taken
      obtain ⟨stack',status',input'⟩ := ih later
      exact ⟨stack'.trans stack,status'.trans status,input'.messCb.trans input.messCb,
        input'.inBuffer.trans input.inBuffer⟩
    | routed => exact ih sent
    | shutDown => exact ih sent

-- x was read by the parser since the announcement and y was not: then a
-- message callback is about to be called on an open connection.
structure Tracks (s : Session) (c0 c : HttpContext) (x y rest : Bytes) : Prop where
  context : s.context = some c
  after : s.after = x ++ y
  parsed : parse c0 x = .ok (c,rest)
  readable : s.conn.inBuffer.readable = rest ++ y
  waits : x = [] ∨ Unfinished c
  pending : y = [] ∨ s.conn.stack.head? = some (.mess false) ∧ s.conn.status ≠ .disconnected

inductive Story (s : Session) : Prop where
  | open' : s.closing = none → s.late = [] → s.after = [] → Story s
  | broken : s.closing = some c0 → Tidy c0 → s.late ≠ [] → ¬Unread c0 s.after → Story s
  | intact : s.closing = some c0 → Tidy c0 → parse c0 [] = .ok (c0,[]) → s.late = [] →
      Tracks s c0 c x y rest → Story s

structure Sound (s : Session) : Prop where
  messCb : s.conn.messCb = true
  ready : Ready s.conn
  tidy : ∃ c, s.context = some c ∧ Tidy c
  story : Story s

theorem opened_sound (opened : Opened s) : Sound s := by
  refine ⟨opened.messCb,.inl (clear_empty opened.stack),⟨{},opened.context,tidy_fresh⟩,?_⟩
  exact .open' opened.closing opened.late opened.after

theorem Tracks.moved (tracks : Tracks s c0 c x y rest) (clear : Clear s.conn.stack) (input : SameInput s.conn conn) :
    Tracks {s with conn := conn} c0 c x y rest := by
  have none : y = [] := tracks.pending.resolve_right fun pending => clear_head clear pending.1
  exact ⟨tracks.context,tracks.after,tracks.parsed,by rw [← tracks.readable,← input.inBuffer],tracks.waits,.inl none⟩

theorem Tracks.arrives (tracks : Tracks s c0 c x y rest) (arrived : Arrived s.conn conn bytes) :
    Tracks {s with conn := conn, closing := some c0, after := s.after ++ bytes} c0 c x bytes rest := by
  have none : y = [] := tracks.pending.resolve_right fun pending => clear_head (clear_empty arrived.idle) pending.1
  have after := tracks.after
  have readable := tracks.readable
  rw [none,List.append_nil] at after readable
  exact ⟨tracks.context,by rw [after],tracks.parsed,by rw [← readable]; exact arrived.readable,tracks.waits,
    arrived.pending⟩

theorem event_sound (sound : Sound s) (event : isEvent action = true) (taken : s.conn.step action = some conn) :
    Sound {s with
      conn := conn
      after := if s.closing.isSome then s.after ++ received s.conn action else s.after} := by
  rcases event_arrived sound.messCb event taken with ⟨stack,status,input,none⟩ | arrived
  · have same : (if s.closing.isSome then s.after ++ received s.conn action else s.after) = s.after := by
      rw [none,List.append_nil]; split <;> rfl
    have ready : Ready conn := by
      rcases sound.ready with clear | ⟨rest,top,below,some⟩
      · exact .inl (by rw [stack]; exact clear)
      · exact .inr ⟨rest,stack.trans top,below,by rw [input.inBuffer]; exact some⟩
    rw [same]
    refine ⟨input.messCb.trans sound.messCb,ready,sound.tidy,?_⟩
    cases sound.story with
    | open' open' late after => exact .open' open' late after
    | broken closed tidy late read => exact .broken closed tidy late read
    | intact closed tidy fresh late tracks =>
      refine .intact closed tidy fresh late ⟨tracks.context,tracks.after,tracks.parsed,?_,tracks.waits,?_⟩
      · rw [← tracks.readable,← input.inBuffer]
      · rw [stack,status]; exact tracks.pending
  · refine ⟨arrived.messCb.trans sound.messCb,arrived.ready,sound.tidy,?_⟩
    cases sound.story with
    | open' open' late after =>
      rw [open']
      exact .open' rfl late after
    | broken closed tidy late read =>
      rw [closed]
      exact .broken rfl tidy late fun unread => read (unread_shorter tidy unread)
    | intact closed tidy fresh late tracks =>
      rw [closed]
      exact .intact rfl tidy fresh late (tracks.arrives arrived)

theorem top_sound (sound : Sound s) (top : s.conn.stack = frame :: frames) (other : frame ≠ .mess false)
    (taken : s.conn.step (if frame.isUser then .ret else .resume) = some conn) : Sound {s with conn := conn} := by
  have clear : Clear s.conn.stack := by
    rcases sound.ready with clear | ⟨rest,same,_⟩
    · exact clear
    · rw [top] at same
      cases same
      exact absurd rfl other
  obtain ⟨clear',input⟩ := top_input clear top taken
  refine ⟨input.messCb.trans sound.messCb,.inl clear',sound.tidy,?_⟩
  cases sound.story with
  | open' open' late after => exact .open' open' late after
  | broken closed tidy late read => exact .broken closed tidy late read
  | intact closed tidy fresh late tracks => exact .intact closed tidy fresh late (tracks.moved clear input)

structure Called (s : Session) (server : HttpServer) (platform : Platform) (frames : List Frame)
    (effects : List Effect) (c : HttpContext) (left : Buffer) (conn : Connection) (next : Session) : Prop where
  ran : server.onMessage platform s.context s.conn.inBuffer = .ok (effects,c,left)
  stack : conn.stack = .mess true :: frames
  status : conn.status = s.conn.status
  messCb : conn.messCb = s.conn.messCb
  inBuffer : conn.inBuffer = left
  result : next = {
    conn := if effects.any Effect.isShutDown then conn.shutDownInLoop else conn
    context := some c
    closing := if s.closing.isSome then s.closing else if effects.any Effect.isShutDown then some c else none
    after := if s.closing.isSome then s.after else if effects.any Effect.isShutDown then left.readable else []
    log := s.log ++ effects.filter (Effect.counts s.conn.status)
    late := if s.closing.isSome then s.late ++ effects.filter (Effect.counts s.conn.status) else s.late}

theorem onMessage_called (taken : s.onMessage server platform frames = some next) :
    ∃ effects c left conn, Called s server platform frames effects c left conn next := by
  unfold onMessage at taken
  split at taken
  · cases taken
  · rename_i effects c left ran
    obtain ⟨conn,sent,equal⟩ := Option.bind_eq_some_iff.mp taken
    obtain ⟨stack,status,input⟩ := sendAll_frame sent
    exact ⟨effects,c,left,conn,ran,stack,status,input.messCb,input.inBuffer,(Option.some.inj equal).symm⟩

theorem starts_late (other : first.isShutDown = false) (active : conn.status ≠ .disconnected) :
    (first :: effects).filter (Effect.counts conn.status) ≠ [] := by
  have counted : first.counts conn.status = true := by
    cases first with
    | routed => rfl
    | sent => simpa [Effect.counts] using active
    | shutDown => cases other
  rw [List.filter_cons_of_pos counted]
  nofun

theorem called_rests (sound : Sound s) (called : Called s server platform frames effects c left conn next) :
    HttpServer.Rests effects c left := by
  obtain ⟨old,context,tidy⟩ := sound.tidy
  have ran := called.ran
  rw [context] at ran
  exact HttpServer.loop_rests _ tidy ran

theorem called_ready (sound : Sound s) (clear : Clear frames)
    (called : Called s server platform frames effects c left conn next) :
    next.conn.messCb = true ∧ Ready next.conn := by
  have below : Clear conn.stack := by rw [called.stack]; exact mess_clear clear
  have set : conn.messCb = true := called.messCb.trans sound.messCb
  rw [called.result]
  dsimp only
  split
  · exact ⟨(shutDown_input conn).messCb.trans set,shutDown_ready below⟩
  · exact ⟨set,.inl below⟩

theorem called_open (sound : Sound s) (open' : s.closing = none) (late : s.late = [])
    (called : Called s server platform frames effects c left conn next) : Story next := by
  have rests := called_rests sound called
  rw [called.result,open']
  cases shut : effects.any Effect.isShutDown with
  | false => exact .open' rfl late rfl
  | true =>
    have fresh : parse c [] = .ok (c,[]) := by
      rcases rests.shut shut with rfl | ⟨bad,_⟩
      · rfl
      · apply parse_done
        by_contra running
        have code := rests.tidy.running fun failed => running (.inr failed)
        rw [code] at bad
        exact absurd bad (by decide)
    refine .intact rfl rests.tidy fresh late ⟨rfl,rfl,fresh,?_,.inl rfl,?_⟩
    · exact congrArg Buffer.readable ((shutDown_input conn).inBuffer.trans called.inBuffer)
    · by_cases empty : left.readable = []
      · exact .inl empty
      · -- ShutDownInLoop is about to call OnMessage with what is left.
        rw [← called.inBuffer] at empty
        have set : conn.messCb = true := called.messCb.trans sound.messCb
        exact .inr ⟨mess_due (s := push {conn with status := .disconnecting} .shutDown) set empty,shutDown_active conn⟩

theorem called_intact (closed : s.closing = some c0) (tidy : Tidy c0) (fresh : parse c0 [] = .ok (c0,[]))
    (late : s.late = []) (tracks : Tracks s c0 c x y rest) (input : s.conn.inBuffer.readable ≠ [])
    (called : Called s server platform frames effects stopped left conn next) : Story next := by
  have ran := called.ran
  rw [tracks.context] at ran
  obtain ⟨more,unread,parsed,starts⟩ := HttpServer.loop_starts ran
  rw [Option.getD_some] at parsed
  rw [tracks.readable] at parsed input
  rw [called.result,closed]
  rcases starts with ⟨unfinished,rfl,rfl,readable⟩ | ⟨ended,first,tail,rfl,other⟩
  · have whole := unfinished_resume tidy tracks.parsed parsed unfinished
    refine .intact rfl tidy fresh ?_ ⟨rfl,?_,whole,?_,.inr unfinished,.inl rfl⟩
    · exact List.append_eq_nil_iff.mpr ⟨late,rfl⟩
    · exact tracks.after.trans (List.append_nil _).symm
    · rw [← readable,List.append_nil]
      exact congrArg Buffer.readable called.inBuffer
  · -- What was read before did not lead here, so there are new bytes.
    have some_new : y ≠ [] := by
      rintro rfl
      rw [List.append_nil] at parsed input
      rcases tracks.waits with rfl | unfinished
      · have none := tracks.parsed
        rw [fresh] at none
        cases none
        exact input rfl
      · rw [parse_stable tracks.parsed] at parsed
        cases parsed
        exact ended unfinished
    have active := (tracks.pending.resolve_left some_new).2
    refine .broken rfl tidy ?_ ?_
    · exact List.append_ne_nil_of_right_ne_nil _ (starts_late other active)
    · have gone := ended_resume tidy tracks.parsed parsed ended some_new
      rw [← tracks.after] at gone
      exact gone

theorem callback_sound (sound : Sound s) (top : s.conn.stack = .mess false :: frames)
    (taken : s.onMessage server platform frames = some next) : Sound next := by
  obtain ⟨clear,input⟩ : Clear frames ∧ s.conn.inBuffer.readable ≠ [] := by
    rcases sound.ready with clear | ⟨rest,same,below,some⟩
    · exact absurd (by rw [top]; rfl) (clear_head clear)
    · rw [top] at same
      cases same
      exact ⟨below,some⟩
  obtain ⟨effects,c,left,conn,called⟩ := onMessage_called taken
  obtain ⟨set,ready⟩ := called_ready sound clear called
  have tidy := (called_rests sound called).tidy
  refine ⟨set,ready,⟨c,by rw [called.result],tidy⟩,?_⟩
  cases sound.story with
  | open' open' late => exact called_open sound open' late called
  | broken closed tidy late read =>
    rw [called.result,closed]
    exact .broken rfl tidy (List.append_ne_nil_of_left_ne_nil late _) read
  | intact closed tidy fresh late tracks => exact called_intact closed tidy fresh late tracks input called

theorem step_sound (sound : Sound s) (taken : s.step action = some next) : Sound next := by
  cases action with
  | event action =>
    simp only [step] at taken
    split at taken
    · rename_i event
      obtain ⟨conn,ran,equal⟩ := Option.map_eq_some_iff.mp taken
      cases equal
      exact event_sound sound event ran
    · cases taken
  | callback server platform =>
    simp only [step] at taken
    split at taken
    · cases taken
    · rename_i frames top
      exact callback_sound sound top taken
    · rename_i frame frames other top
      obtain ⟨conn,ran,equal⟩ := Option.map_eq_some_iff.mp taken
      cases equal
      exact top_sound sound top other ran

variable {start : Session} {actions : List Action}

theorem run_sound (opened : Opened start) (ran : Machine.run step start actions = some s) : Sound s := by
  apply Machine.run_invariant _ (opened_sound opened) ran
  intro s action next sound taken
  exact step_sound sound taken

-- Before the announcement every request was keep-alive and the parser has
-- reported no error.
structure Quiet (s : Session) : Prop where
  keeps : ∀ req, Effect.routed req ∈ s.log → req.isKeepAlive = true
  good : ∀ c, s.context = some c → c.respCode < 400

theorem called_quiet (quiet : Quiet s) (open' : s.closing = none)
    (called : Called s server platform frames effects c left conn next) (silent : next.closing = none) :
    Quiet next := by
  have announces := HttpServer.loop_announces _ called.ran
  rw [called.result,open'] at silent
  have shut : ¬effects.any Effect.isShutDown = true := by
    intro shut
    dsimp only at silent
    rw [if_neg nofun,if_pos shut] at silent
    cases silent
  rw [called.result]
  refine ⟨fun req member => ?_,fun last same => ?_⟩
  · rcases List.mem_append.mp member with old | new
    · exact quiet.keeps req old
    · by_contra close
      exact shut (announces.mpr (.inr ⟨req,(List.mem_filter.mp new).1,Bool.eq_false_of_not_eq_true close⟩))
  · cases same
    by_contra bad
    exact shut (announces.mpr (.inl (Int.not_lt.mp bad)))

theorem step_quiet (quiet : s.closing = none → Quiet s) (taken : s.step action = some next) :
    next.closing = none → Quiet next := by
  intro silent
  cases action with
  | event action =>
    simp only [step] at taken
    split at taken
    · obtain ⟨conn,_,equal⟩ := Option.map_eq_some_iff.mp taken
      cases equal
      exact ⟨(quiet silent).keeps,(quiet silent).good⟩
    · cases taken
  | callback server platform =>
    simp only [step] at taken
    split at taken
    · cases taken
    · obtain ⟨effects,c,left,conn,called⟩ := onMessage_called taken
      cases closed : s.closing with
      | none => exact called_quiet (quiet closed) closed called silent
      | some c0 =>
        rw [called.result,closed] at silent
        cases silent
    · obtain ⟨conn,_,equal⟩ := Option.map_eq_some_iff.mp taken
      cases equal
      exact ⟨(quiet silent).keeps,(quiet silent).good⟩

theorem run_quiet (opened : Opened start)
    (ran : Machine.run step start actions = some s) : s.closing = none → Quiet s := by
  apply Machine.run_invariant _ _ ran
  · intro s action next quiet taken
    exact step_quiet quiet taken
  · intro _
    refine ⟨fun req member => ?_,fun c same => ?_⟩
    · rw [opened.log] at member; cases member
    · rw [opened.context] at same
      cases same
      decide

-- A connection serves nothing after the announcement as long as nothing was
-- unread then and nothing is read since, or what there is has the parser
-- waiting. An error leaves the parser in no state in which it waits.
theorem nothing_after_closing_iff (opened : Opened start) (ran : Machine.run step start actions = some s) :
    ((∀ c, s.closing = some c → Unread c s.after) → s.late = []) ∧
      (s.conn.stack = [] → (s.late = [] ↔ ∀ c, s.closing = some c → Unread c s.after)) := by
  have sound := run_sound opened ran
  have kept : (∀ c, s.closing = some c → Unread c s.after) → s.late = [] := by
    intro unread
    cases sound.story with
    | open' _ late => exact late
    | broken closed _ _ read => exact absurd (unread _ closed) read
    | intact _ _ _ late => exact late
  refine ⟨kept,fun idle => ⟨fun late c closed => ?_,kept⟩⟩
  cases sound.story with
  | open' open' => rw [open'] at closed; cases closed
  | broken _ _ some => exact absurd late some
  | @intact c0 c' x y rest closed' _ _ _ tracks =>
    rw [closed'] at closed
    cases closed
    have none : y = [] := tracks.pending.resolve_right fun pending => clear_head (clear_empty idle) pending.1
    rw [tracks.after,none,List.append_nil]
    rcases tracks.waits with rfl | unfinished
    · exact .inl rfl
    · exact .inr ⟨c',rest,tracks.parsed,unfinished⟩

def accepted (conn : Connection) : Session where
  conn := {conn with status := .connected}.enableRead
  context := some {}

theorem accepted_opened (idle : conn.stack = []) (set : conn.messCb = true) (empty : conn.inBuffer.readable = []) :
    Opened (accepted conn) := ⟨idle,set,empty,rfl,rfl,rfl,rfl,rfl⟩

-- A request that is not keep-alive, since HTTP/1.0 is not unless it says so.
def lastRequest : Bytes := ascii "GET / HTTP/1.0\r\n\r\n"

def oneRead (bytes : Bytes) (calls : Nat) : List Action :=
  .event (.handleRead (.data bytes)) :: List.replicate calls (.callback sink emptyDisk)

theorem nothing_after_closing_iff_alone : ∃ s, Machine.run step (accepted {}) (oneRead lastRequest 3) = some s ∧
    s.closing.isSome = true ∧ s.log.length = 2 ∧ s.late = [] := by
  have ends : (Machine.run step (accepted {}) (oneRead lastRequest 3)).map
      (fun s => (s.conn.stack,s.closing.isSome,s.log.length,s.after)) = some ([],true,2,[]) := by decide +kernel
  obtain ⟨s,ran,looks⟩ := Option.map_eq_some_iff.mp ends
  simp only [Prod.mk.injEq] at looks
  obtain ⟨idle,closed,two,none⟩ := looks
  have opened : Opened (accepted {}) := accepted_opened rfl rfl Buffer.readable_start
  have served := (nothing_after_closing_iff opened ran).2 idle
  exact ⟨s,ran,closed,two,served.mpr fun c _ => .inl none⟩

-- The same request twice in one read: ShutDownInLoop finds the second one in
-- the buffer and calls OnMessage again.
theorem pipelined_request_served : ¬∀ (start s : Session) (actions : List Action), Opened start →
    Machine.run step start actions = some s → s.late = [] := by
  intro claimed
  have ends : (Machine.run step (accepted {}) (oneRead (lastRequest ++ lastRequest) 2)).map (fun s => s.late.length) =
      some 2 := by decide +kernel
  obtain ⟨s,ran,two⟩ := Option.map_eq_some_iff.mp ends
  rw [claimed _ s _ (accepted_opened rfl rfl Buffer.readable_start) ran] at two
  cases two

end LinuxOS.Http.Session
