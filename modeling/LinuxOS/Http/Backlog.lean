import LinuxOS.Http.Closing

namespace LinuxOS.Http.HttpContext
open Muduo
variable {c next : HttpContext} {x rest : Bytes} {buf left : Buffer}

-- Where the parser can stop: in the line or the head at a line that is neither whole nor too long,
-- in a body of which bytes are missing, or after an error with nothing kept.
inductive Pauses (c : HttpContext) (x : Bytes) : Prop where
  | inLine : c.status = .line ∨ c.status = .head → takeLine x = none → x.length ≤ maxLine → Pauses c x
  | inBody : c.status = .body → c.request.contentLength = .ok n → c.request.body.length < n → x = [] → Pauses c x
  | failed : c.status = .error → x = [] → Pauses c x

theorem Pauses.short (pauses : Pauses c x) : x.length ≤ maxLine := by
  cases pauses with
  | inLine _ _ short => exact short
  | inBody _ _ _ none => rw [none]; exact Nat.zero_le _
  | failed _ none => rw [none]; exact Nat.zero_le _

theorem pauses_fresh : Pauses {} [] := .inLine (.inl rfl) rfl (Nat.zero_le _)

theorem bodyOf_pauses (active : c.status = .body) (stable : bodyOf c x = .ok (c,x)) : Pauses c x := by
  unfold bodyOf at stable
  cases given : c.request.contentLength with
  | error fault => rw [given] at stable; cases stable
  | ok n =>
    rw [given] at stable
    have stays : c.takeBody n x = (c,x) := Except.ok.inj stable
    have unlike : ∀ {other : HttpContext} {rest : Bytes}, other.status = .over → (other,rest) ≠ (c,x) := by
      intro other rest complete same
      cases same
      rw [active] at complete; cases complete
    by_cases ended : n = 0 ∨ n - c.request.body.length ≤ 0
    · rw [takeBody_ended ended] at stays
      exact absurd stays (unlike rfl)
    · by_cases enough : (n - c.request.body.length).toNat ≤ x.length
      · rw [takeBody_enough ended enough] at stays
        exact absurd stays (unlike rfl)
      · rw [takeBody_short ended enough] at stays
        have none : x = [] := (congrArg Prod.snd stays).symm
        exact .inBody active given (by omega) none

theorem long_moves (running : c.status ≠ .error) (stable : (if maxLine < x.length then c.fail 414 else c,x) = (c,x)) :
    x.length ≤ maxLine := by
  by_contra long
  rw [if_pos (Nat.lt_of_not_le long)] at stable
  exact running (congrArg (fun state => state.1.status) stable).symm

theorem headOf_pauses (active : c.status = .head) (stable : headOf c x = .ok (c,x)) : Pauses c x := by
  cases cut : takeLine x with
  | none =>
    rw [headOf_open cut] at stable
    exact .inLine (.inr active) cut (long_moves (by rw [active]; nofun) (Except.ok.inj stable))
  | some parts =>
    -- A whole line is taken, and what follows it is shorter.
    obtain ⟨line,left⟩ := parts
    have shorter := takeLine_shorter cut
    rw [headOf_line cut] at stable
    have rests : x.length ≤ left.length := by
      rcases takeHead_cases c line with ⟨code,failed⟩ | blank | ⟨request,header⟩
      · rw [failed] at stable
        exact Nat.le_of_eq (congrArg (·.2.length) (Except.ok.inj stable)).symm
      · rw [blank] at stable; exact (bodyOf_progress stable).shorter
      · rw [header] at stable; exact (headOf_progress stable).shorter
    omega

theorem lineOf_pauses (active : c.status = .line) (stable : lineOf c x = .ok (c,x)) : Pauses c x := by
  unfold lineOf at stable
  cases cut : takeLine x with
  | none =>
    simp only [cut] at stable
    exact .inLine (.inl active) cut (long_moves (by rw [active]; nofun) (Except.ok.inj stable))
  | some parts =>
    obtain ⟨line,left⟩ := parts
    have shorter := takeLine_shorter cut
    simp only [cut] at stable
    have rests : x.length ≤ left.length := by
      rcases takeReqLine_cases c line with ⟨failed,taken,_⟩ | ⟨request,taken⟩
      · rw [taken] at stable; cases stable; exact Nat.le_refl _
      · rw [taken] at stable; exact (headOf_progress stable).shorter
    omega

theorem stable_pauses (tidy : Tidy c) (unfinished : Unfinished c) (stable : parse c x = .ok (c,x)) : Pauses c x := by
  match active : c.status with
  | .line => simp only [parse,active] at stable; exact lineOf_pauses active stable
  | .head => simp only [parse,active] at stable; exact headOf_pauses active stable
  | .body => simp only [parse,active] at stable; exact bodyOf_pauses active stable
  | .over => exact absurd active unfinished.notOver
  | .error => exact absurd active (unfinished.running tidy)

theorem bind_taken {x : Except Fault α} {g : α → Except Fault β} {b : β} (ran : (x >>= g) = .ok b) :
    ∃ a, x = .ok a ∧ g a = .ok b := by
  cases first : x with
  | error fault => rw [first] at ran; cases ran
  | ok a => rw [first] at ran; exact ⟨a,rfl,ran⟩

theorem demand_taken {given : Option α} {a : α} (ran : demand given = .ok a) : given = some a := by
  cases given with
  | none => cases ran
  | some value => cases ran; rfl

theorem recvHttpBody_storage (ran : c.recvHttpBody buf = .ok (went,next,left)) : left.buffer = buf.buffer := by
  unfold recvHttpBody at ran
  split at ran
  · cases ran; rfl
  · obtain ⟨n,_,ran⟩ := bind_taken ran
    dsimp only at ran
    split at ran
    · cases ran; rfl
    · split at ran
      · cases ran; rfl
      · split at ran
        · obtain ⟨⟨part,popped⟩,taken,ran⟩ := bind_taken ran
          cases ran
          exact Buffer.readStringAndPop_storage (demand_taken taken)
        · split at ran
          · obtain ⟨⟨part,popped⟩,taken,ran⟩ := bind_taken ran
            cases ran
            exact Buffer.readStringAndPop_storage (demand_taken taken)
          · cases ran; rfl

theorem recvReqHeadLoop_storage (ran : recvReqHeadLoop fuel c buf = .ok (went,next,left)) : left.buffer = buf.buffer := by
  induction fuel generalizing c buf with
  | zero => cases ran
  | succ fuel ih =>
    simp only [recvReqHeadLoop] at ran
    split at ran
    · split at ran
      · cases ran; rfl
      · cases ran; rfl
    · obtain ⟨⟨line,popped⟩,taken,ran⟩ := bind_taken ran
      have kept := Buffer.getLineAndPop_storage (demand_taken taken)
      dsimp only at ran
      split at ran
      · cases ran; exact kept
      · exact (ih ran).trans kept

theorem recvReqHead_storage (ran : c.recvReqHead buf = .ok (went,next,left)) : left.buffer = buf.buffer := by
  unfold recvReqHead at ran
  split at ran
  · cases ran; rfl
  · exact recvReqHeadLoop_storage ran

theorem recvReqLine_storage (ran : c.recvReqLine buf = .ok (went,next,left)) : left.buffer = buf.buffer := by
  unfold recvReqLine at ran
  split at ran
  · cases ran; rfl
  · split at ran
    · split at ran
      · cases ran; rfl
      · cases ran; rfl
    · obtain ⟨⟨line,popped⟩,taken,ran⟩ := bind_taken ran
      cases ran
      exact Buffer.getLineAndPop_storage (demand_taken taken)

theorem fromBody_storage (ran : c.fromBody buf = .ok (next,left)) : left.buffer = buf.buffer := by
  obtain ⟨⟨went,middle,last⟩,taken,ran⟩ := bind_taken ran
  cases ran
  exact recvHttpBody_storage taken

theorem fromHead_storage (ran : c.fromHead buf = .ok (next,left)) : left.buffer = buf.buffer := by
  obtain ⟨⟨went,middle,popped⟩,taken,ran⟩ := bind_taken ran
  have kept := recvReqHead_storage taken
  dsimp only at ran
  split at ran
  · exact (fromBody_storage ran).trans kept
  · cases ran; exact kept

theorem fromLine_storage (ran : c.fromLine buf = .ok (next,left)) : left.buffer = buf.buffer := by
  obtain ⟨⟨went,middle,popped⟩,taken,ran⟩ := bind_taken ran
  have kept := recvReqLine_storage taken
  dsimp only at ran
  split at ran
  · exact (fromHead_storage ran).trans kept
  · cases ran; exact kept

theorem recvHttpRequest_storage (ran : c.recvHttpRequest buf = .ok (next,left)) : left.buffer = buf.buffer := by
  unfold recvHttpRequest at ran
  split at ran
  · exact fromLine_storage ran
  · exact fromHead_storage ran
  · exact fromBody_storage ran
  · cases ran; rfl
  · cases ran; rfl

end LinuxOS.Http.HttpContext

namespace LinuxOS.Http.HttpServer
open Muduo HttpContext
variable {server : HttpServer} {platform : Platform} {c next : HttpContext} {buf left : Buffer} {effects : List Effect}

theorem loop_storage (fuel : Nat) (ran : server.onMessageLoop platform fuel c buf = .ok (effects,next,left)) :
    left.readable.length ≤ buf.readable.length ∧ left.buffer = buf.buffer := by
  induction fuel generalizing c buf effects with
  | zero => cases ran
  | succ fuel ih =>
    have turn {middle : HttpContext} {rest : Buffer} (received : c.recvHttpRequest buf = .ok (middle,rest)) :
        rest.readable.length ≤ buf.readable.length ∧ rest.buffer = buf.buffer :=
      ⟨(parse_progress (received_parse received)).1.shorter,recvHttpRequest_storage received⟩
    cases loop_turn ran with
    | waits received => exact turn received
    | refuses received =>
      exact ⟨by rw [Buffer.readable_clear]; exact Nat.zero_le _,(turn received).2⟩
    | closes received => exact turn received
    | rests received => exact turn received
    | goes received _ _ later =>
      obtain ⟨shorter,same⟩ := turn received
      obtain ⟨shorter',same'⟩ := ih later
      exact ⟨Nat.le_trans shorter' shorter,same'.trans same⟩

end LinuxOS.Http.HttpServer

namespace LinuxOS.Http.Session
open Muduo Muduo.Connection HttpContext
variable {s next : Session} {conn : Connection} {frames : List Frame} {server : HttpServer} {platform : Platform}

-- While no call of OnMessage is due, the parser has made what it can of the input.
structure Bounded (s : Session) : Prop where
  storage : s.conn.inBuffer.buffer.length < 2 * (maxLine + maxRead) + maxRead
  input : s.conn.inBuffer.readable.length ≤ maxLine + maxRead
  pauses : Clear s.conn.stack → ∃ c, s.context = some c ∧ Pauses c s.conn.inBuffer.readable

theorem opened_bounded (opened : Opened s) (made : s.conn.inBuffer = Buffer.initial) : Bounded s := by
  refine ⟨?_,by rw [opened.empty]; exact Nat.zero_le _,fun _ => ⟨{},opened.context,?_⟩⟩
  · rw [made]
    show (List.replicate defaultSize (0 : UInt8)).length < _
    rw [List.length_replicate]; decide
  · rw [opened.empty]; exact pauses_fresh

theorem Bounded.same (bounded : Bounded s) (input : SameInput s.conn conn) (clear : Clear conn.stack → Clear s.conn.stack) :
    Bounded {s with conn := conn, after := unread} := by
  refine ⟨?_,?_,fun clear' => ?_⟩
  · rw [input.inBuffer]; exact bounded.storage
  · rw [input.inBuffer]; exact bounded.input
  · rw [input.inBuffer]; exact bounded.pauses (clear clear')

-- The loop reads only when the parser has stopped, so what it finds is short.
theorem Bounded.filled (bounded : Bounded s) (idle : s.conn.stack = []) (filled : Filled s.conn conn bytes)
    (due : ¬Clear conn.stack) : Bounded {s with conn := conn, after := unread} := by
  obtain ⟨c,_,pauses⟩ := bounded.pauses (clear_empty idle)
  have old := pauses.short
  have short := filled.short
  have storage := bounded.storage
  obtain ⟨buffer,written,readable⟩ := s.conn.inBuffer.writeAndPush_spec bytes
  rw [filled.written] at written
  cases written
  refine ⟨?_,?_,fun clear => absurd clear due⟩
  · rcases Buffer.writeAndPush_storage filled.written with same | ⟨full,grown⟩
    · rw [same]; exact storage
    · dsimp only; omega
  · dsimp only
    rw [readable,List.length_append]
    omega

theorem event_bounded (sound : Sound s) (bounded : Bounded s) (event : isEvent action = true)
    (taken : s.conn.step action = some conn) : Bounded {s with conn := conn, after := unread} := by
  rcases event_arrived sound.messCb event taken with ⟨stack,_,input,_⟩ | arrived
  · exact bounded.same input fun clear => by rw [← stack]; exact clear
  · rcases event_input event taken with input | ⟨bytes,filled⟩
    · exact bounded.same input fun _ => clear_empty arrived.idle
    · refine bounded.filled arrived.idle filled fun clear => ?_
      rcases arrived.pending with none | ⟨due,_⟩
      · obtain ⟨buffer,written,readable⟩ := s.conn.inBuffer.writeAndPush_spec bytes
        rw [filled.written] at written
        cases written
        rw [arrived.readable,none] at readable
        exact filled.some' (List.append_cancel_left readable).symm
      · exact clear_head clear due

theorem top_bounded (sound : Sound s) (bounded : Bounded s) (top : s.conn.stack = frame :: frames)
    (other : frame ≠ .mess false) (taken : s.conn.step (if frame.isUser then .ret else .resume) = some conn) :
    Bounded {s with conn := conn} := by
  have clear : Clear s.conn.stack := by
    rcases sound.ready with clear | ⟨rest,same,_⟩
    · exact clear
    · rw [top] at same
      cases same
      exact absurd rfl other
  exact bounded.same (top_input clear top taken).2 fun _ => clear

theorem called_pauses (sound : Sound s) (called : Called s server platform frames effects c left conn next)
    (clear : Clear next.conn.stack) : Pauses c left.readable := by
  have rests := called_rests sound called
  cases shut : effects.any Effect.isShutDown with
  | false =>
    obtain ⟨unfinished,stable⟩ := rests.open' shut
    exact stable_pauses rests.tidy unfinished stable
  | true =>
    -- ShutDownInLoop calls OnMessage again as long as there is input.
    have none : left.readable = [] := by
      by_contra some_left
      have set : conn.messCb = true := called.messCb.trans sound.messCb
      rw [← called.inBuffer] at some_left
      have due := mess_due (s := push {conn with status := .disconnecting} .shutDown) set some_left
      rw [called.result,shut] at clear
      exact clear_head clear due
    rw [none]
    rcases rests.shut shut with rfl | ⟨bad,_⟩
    · exact pauses_fresh
    · refine .failed ?_ rfl
      by_contra running
      rw [rests.tidy.running running] at bad
      exact absurd bad (by decide)

theorem callback_bounded (sound : Sound s) (bounded : Bounded s)
    (taken : s.onMessage server platform frames = some next) : Bounded next := by
  obtain ⟨effects,c,left,conn,called⟩ := onMessage_called taken
  obtain ⟨shorter,same⟩ := HttpServer.loop_storage _ called.ran
  have kept : next.conn.inBuffer = left := by
    rw [called.result]
    dsimp only
    split
    · exact (shutDown_input conn).inBuffer.trans called.inBuffer
    · exact called.inBuffer
  refine ⟨?_,?_,fun clear => ⟨c,by rw [called.result],?_⟩⟩
  · rw [kept,same]; exact bounded.storage
  · rw [kept]; exact Nat.le_trans shorter bounded.input
  · rw [kept]; exact called_pauses sound called clear

theorem step_bounded (sound : Sound s) (bounded : Bounded s) (taken : s.step action = some next) : Bounded next := by
  cases action with
  | event action =>
    simp only [step] at taken
    split at taken
    · rename_i event
      obtain ⟨conn,ran,equal⟩ := Option.map_eq_some_iff.mp taken
      cases equal
      exact event_bounded sound bounded event ran
    · cases taken
  | callback server platform =>
    simp only [step] at taken
    split at taken
    · cases taken
    · exact callback_bounded sound bounded taken
    · rename_i frame frames other top
      obtain ⟨conn,ran,equal⟩ := Option.map_eq_some_iff.mp taken
      cases equal
      exact top_bounded sound bounded top other ran

-- Whatever a client sends and however it arrives, a connection's input buffer stays under 208 KiB, and
-- between two calls of OnMessage it holds at most the beginning of one line, or nothing at all.
theorem input_bounded (opened : Opened start) (made : start.conn.inBuffer = Buffer.initial)
    (ran : Machine.run step start actions = some s) : Bounded s := by
  have both : Sound s ∧ Bounded s := by
    apply Machine.run_invariant _ ⟨opened_sound opened,opened_bounded opened made⟩ ran
    rintro s action next ⟨sound,bounded⟩ taken
    exact ⟨step_sound sound taken,step_bounded sound bounded taken⟩
  exact both.2

theorem input_bounded_begun : ∃ s, Machine.run step (accepted {}) (oneRead (ascii "GET / HT") 2) = some s ∧
    s.conn.stack = [] ∧ s.conn.inBuffer.readable.length = 8 ∧ Bounded s := by
  have ends : (Machine.run step (accepted {}) (oneRead (ascii "GET / HT") 2)).map
      (fun s => (s.conn.stack,s.conn.inBuffer.readable.length)) = some ([],8) := by decide +kernel
  obtain ⟨s,ran,looks⟩ := Option.map_eq_some_iff.mp ends
  simp only [Prod.mk.injEq] at looks
  obtain ⟨idle,held⟩ := looks
  have opened : Opened (accepted {}) := accepted_opened rfl rfl Buffer.readable_start
  exact ⟨s,ran,idle,held,input_bounded opened rfl ran⟩

end LinuxOS.Http.Session
