import LinuxOS.Http.Pipeline
import LinuxOS.Muduo.LoopEvents

namespace LinuxOS.Http
open Muduo

-- An accepted connection of the server with the context that OnConnect put
-- into it. The last four fields are history: the context that was left when
-- OnMessage first asked for the shutdown, the bytes that were unread then and
-- the ones read since, and what was routed and queued, in all and since then.
structure Session where
  conn : Connection := {}
  context : Option HttpContext := none
  closing : Option HttpContext := none
  after : Bytes := []
  log : List Effect := []
  late : List Effect := []

-- SendInLoop drops what is sent on a DISCONNECTED connection.
def Effect.counts (status : ConnStatus) : Effect → Bool
  | .routed _ => true
  | .sent _ => status ≠ .disconnected
  | .shutDown => false

namespace Session

def sendAll (conn : Connection) : List Effect → Option Connection
  | [] => some conn
  | .sent payload :: rest => do sendAll (← conn.sendInLoop payload) rest
  | _ :: rest => sendAll conn rest

-- OnMessage as the callback on top of the stack. Its own buffer operations
-- come first here: Send does not look at the input buffer. An exception from
-- the parser ends the process.
def onMessage (s : Session) (server : HttpServer) (platform : Platform) (rest : List Frame) : Option Session :=
  match server.onMessage platform s.context s.conn.inBuffer with
  | .error _ => none
  | .ok (effects,context,buffer) => do
    let conn ← sendAll {s.conn with inBuffer := buffer, stack := .mess true :: rest} effects
    let done := effects.filter (Effect.counts s.conn.status)
    let shut := effects.any Effect.isShutDown
    return {
      conn := if shut then conn.shutDownInLoop else conn
      context := some context
      closing := if s.closing.isSome then s.closing else if shut then some context else none
      after := if s.closing.isSome then s.after else if shut then buffer.readable else []
      log := s.log ++ done
      late := if s.closing.isSome then s.late ++ done else s.late}

-- The routes and the disk may answer differently each time.
inductive Action where
  | event (action : Connection.Action)
  | callback (server : HttpServer) (platform : Platform)

def step (s : Session) : Action → Option Session
  | .event action =>
    if Connection.isEvent action then
      (s.conn.step action).map fun conn => {s with
        conn := conn
        after := if s.closing.isSome then s.after ++ Connection.received s.conn action else s.after}
    else none
  | .callback server platform =>
    match s.conn.stack with
    | [] => none
    | .mess false :: rest => s.onMessage server platform rest
    | frame :: _ => (s.conn.step (if frame.isUser then .ret else .resume)).map fun conn => {s with conn := conn}

structure Opened (s : Session) : Prop where
  stack : s.conn.stack = []
  messCb : s.conn.messCb = true
  empty : s.conn.inBuffer.readable = []
  context : s.context = some {}
  closing : s.closing = none
  after : s.after = []
  log : s.log = []
  late : s.late = []

end Session

namespace HttpContext
variable {c next : HttpContext} {x y rest : Bytes} {code : Int}

-- An error has a code of its own, and everything else has 200.
structure Tidy (c : HttpContext) : Prop where
  failed : c.status = .error → 400 ≤ c.respCode
  running : c.status ≠ .error → c.respCode = 200

theorem tidy_fresh : Tidy {} := ⟨nofun,fun _ => rfl⟩

theorem tidy_fail (bad : 400 ≤ code) : Tidy (c.fail code) := ⟨fun _ => bad,fun running => absurd rfl running⟩

theorem takeHead_tidy (tidy : Tidy c) (active : c.status ≠ .error) : Tidy (c.takeHead line).2 := by
  unfold takeHead
  split
  · exact tidy_fail (by decide)
  · split
    · exact ⟨nofun,fun _ => tidy.running active⟩
    · split
      · exact tidy_fail (by decide)
      · exact ⟨fun failed => absurd failed active,fun _ => tidy.running active⟩

theorem takeReqLine_tidy (tidy : Tidy c) (active : c.status ≠ .error) : Tidy (c.takeReqLine line).2 := by
  unfold takeReqLine
  split
  · exact tidy_fail (by decide)
  · split
    · exact tidy_fail (by decide)
    · exact ⟨nofun,fun _ => tidy.running active⟩

theorem bodyOf_tidy (tidy : Tidy c) (active : c.status ≠ .error) (parsed : bodyOf c x = .ok (next,rest)) :
    Tidy next := by
  rcases bodyOf_cases parsed with ⟨rfl,_⟩ | ⟨part,count,rfl,_⟩ | ⟨rfl,_⟩
  · exact ⟨nofun,fun _ => tidy.running active⟩
  · exact ⟨nofun,fun _ => tidy.running active⟩
  · exact ⟨fun failed => absurd failed active,fun _ => tidy.running active⟩

theorem headOf_tidy (tidy : Tidy c) (active : c.status = .head) (parsed : headOf c x = .ok (next,rest)) : Tidy next := by
  have running : c.status ≠ .error := by rw [active]; nofun
  induction x using takeLine_induction generalizing c with
  | pending x cut =>
    rw [headOf_open cut] at parsed
    cases parsed
    split
    · exact tidy_fail (by decide)
    · exact tidy
  | cut x line left cut ih =>
    have kept : Tidy (c.takeHead line).2 := takeHead_tidy tidy running
    rw [headOf_line cut] at parsed
    rcases takeHead_cases c line with ⟨code,failed⟩ | blank | ⟨request,header⟩
    · rw [failed] at parsed kept; cases parsed; exact kept
    · rw [blank] at parsed kept
      exact bodyOf_tidy kept nofun parsed
    · rw [header] at parsed kept
      exact ih kept active parsed running

theorem lineOf_tidy (tidy : Tidy c) (active : c.status = .line) (parsed : lineOf c x = .ok (next,rest)) : Tidy next := by
  have running : c.status ≠ .error := by rw [active]; nofun
  unfold lineOf at parsed
  cases cut : takeLine x with
  | none =>
    simp only [cut] at parsed
    cases parsed
    split
    · exact tidy_fail (by decide)
    · exact tidy
  | some parts =>
    obtain ⟨line,left⟩ := parts
    have kept : Tidy (c.takeReqLine line).2 := takeReqLine_tidy tidy running
    simp only [cut] at parsed
    rcases takeReqLine_cases c line with ⟨failed,taken,_⟩ | ⟨request,taken⟩
    · rw [taken] at parsed kept; cases parsed; exact kept
    · rw [taken] at parsed kept
      exact headOf_tidy kept rfl parsed

theorem parse_tidy (tidy : Tidy c) (parsed : parse c x = .ok (next,rest)) : Tidy next := by
  cases active : c.status with
  | line =>
    simp only [parse,active] at parsed
    exact lineOf_tidy tidy active parsed
  | head =>
    simp only [parse,active] at parsed
    exact headOf_tidy tidy active parsed
  | body =>
    simp only [parse,active] at parsed
    exact bodyOf_tidy tidy (by rw [active]; decide) parsed
  | _ =>
    simp only [parse,active] at parsed
    cases parsed; exact tidy

structure Unfinished (c : HttpContext) : Prop where
  notOver : c.status ≠ .over
  good : c.respCode < 400

instance (c : HttpContext) : Decidable (Unfinished c) :=
  decidable_of_iff (c.status ≠ .over ∧ c.respCode < 400) ⟨fun h => ⟨h.1,h.2⟩,fun h => ⟨h.notOver,h.good⟩⟩

theorem Unfinished.running (unfinished : Unfinished c) (tidy : Tidy c) : c.status ≠ .error := by
  intro failed
  exact absurd (tidy.failed failed) (Int.not_le.mpr unfinished.good)

-- From here on nothing was asked of the parser, or what was leaves it waiting.
def Unread (c : HttpContext) (x : Bytes) : Prop :=
  x = [] ∨ ∃ next rest, parse c x = .ok (next,rest) ∧ Unfinished next

theorem unread_shorter (tidy : Tidy c) (unread : Unread c (x ++ y)) : Unread c x := by
  by_cases empty : x = []
  · exact .inl empty
  · obtain ⟨last,left,whole,unfinished⟩ := unread.resolve_left fun none => empty (List.append_eq_nil_iff.mp none).1
    have continues := parse_append c x y
    cases first : parse c x with
    | error fault => rw [first,whole] at continues; cases continues
    | ok state =>
      obtain ⟨next,rest⟩ := state
      have kept := parse_tidy tidy first
      rw [first,whole] at continues
      simp only [Continues] at continues
      refine .inr ⟨next,rest,first,?_⟩
      split at continues
      · obtain ⟨_,equal⟩ := continues
        cases equal; exact unfinished
      · rename_i running
        refine ⟨fun complete => ?_,by rw [kept.running running]; decide⟩
        rw [parse_done (.inl complete)] at continues
        cases continues
        exact unfinished.notOver complete

-- The parser stopped in next and finds more bytes there. It goes on as if all
-- of them had come at once, unless it stopped for an error.
theorem unfinished_resume (tidy : Tidy c) (parsed : parse c x = .ok (next,rest))
    (more : parse next (rest ++ y) = .ok (last,left)) (unfinished : Unfinished last) :
    parse c (x ++ y) = .ok (last,left) := by
  have kept := parse_tidy tidy parsed
  have running : next.status ≠ .error := by
    intro failed
    rw [parse_done (.inr failed)] at more
    cases more
    exact unfinished.running kept failed
  have continues := parse_append c x y
  rw [parsed] at continues
  simp only [Continues,if_neg running] at continues
  exact continues.trans more

theorem ended_resume (tidy : Tidy c) (parsed : parse c x = .ok (next,rest))
    (more : parse next (rest ++ y) = .ok (last,left)) (ended : ¬Unfinished last) (some_new : y ≠ []) :
    ¬Unread c (x ++ y) := by
  rintro (none | ⟨other,final,whole,unfinished⟩)
  · exact some_new (List.append_eq_nil_iff.mp none).2
  · have continues := parse_append c x y
    rw [parsed,whole] at continues
    simp only [Continues] at continues
    split at continues
    · rename_i failed
      obtain ⟨_,equal⟩ := continues
      cases equal
      exact unfinished.running (parse_tidy tidy parsed) failed
    · rw [more] at continues
      cases continues
      exact ended unfinished

end HttpContext

namespace HttpServer
open HttpContext
-- One turn of the loop, by what the parser makes of the unread bytes.
inductive Turn (server : HttpServer) (platform : Platform) (fuel : Nat) (c : HttpContext) (buf : Buffer) :
    List Effect → HttpContext → Buffer → Prop where
  | waits : c.recvHttpRequest buf = .ok (next,left) → Unfinished next → Turn server platform fuel c buf [] next left
  | refuses : c.recvHttpRequest buf = .ok (next,left) → 400 ≤ next.respCode →
      Turn server platform fuel c buf [.sent (renderResponse platform next.request (refusal next)),.shutDown]
        next left.clear
  | closes : c.recvHttpRequest buf = .ok (next,left) → ¬Unfinished next → next.request.isKeepAlive = false →
      Turn server platform fuel c buf
        [.routed next.request,.sent (renderResponse platform next.request (server.answer platform next)),.shutDown]
        {} left
  | rests : c.recvHttpRequest buf = .ok (next,left) → ¬Unfinished next → next.request.isKeepAlive = true →
      left.readable = [] → Turn server platform fuel c buf
        [.routed next.request,.sent (renderResponse platform next.request (server.answer platform next))] {} left
  | goes : c.recvHttpRequest buf = .ok (next,left) → ¬Unfinished next → next.request.isKeepAlive = true →
      server.onMessageLoop platform fuel {} left = .ok (later,last,final) →
      Turn server platform fuel c buf
        ([.routed next.request,.sent (renderResponse platform next.request (server.answer platform next))] ++ later)
        last final

variable {server : HttpServer} {platform : Platform} {c next : HttpContext} {buf left : Buffer} {effects : List Effect}

theorem loop_turn (ran : server.onMessageLoop platform (fuel+1) c buf = .ok (effects,last,final)) :
    Turn server platform fuel c buf effects last final := by
  simp only [onMessageLoop] at ran
  cases received : c.recvHttpRequest buf with
  | error => rw [received] at ran; cases ran
  | ok state =>
    obtain ⟨next,left⟩ := state
    rw [received] at ran
    simp only [bind,Except.bind] at ran
    split at ran
    · rename_i bad; cases ran; exact .refuses received bad
    · rename_i good
      split at ran
      · rename_i waiting
        cases ran
        exact .waits received ⟨waiting,Int.not_le.mp good⟩
      · rename_i complete
        have ended : ¬Unfinished next := fun unfinished => complete unfinished.notOver
        have kept : (server.answer platform next).isKeepAlive = next.request.isKeepAlive :=
          completeResponse_keepAlive next.request
        split at ran
        · rename_i close
          cases ran
          exact .closes received ended (kept.symm.trans close)
        · rename_i keep
          have keep := kept.symm.trans (Bool.eq_true_of_not_eq_false keep)
          split at ran
          · rename_i empty
            have nothing : left.readable = [] := List.eq_nil_of_length_eq_zero (left.readable_length.trans empty)
            cases ran
            exact .rests received ended keep nothing
          · cases later : server.onMessageLoop platform fuel next.reset left with
            | error => rw [later] at ran; cases ran
            | ok result =>
              rw [later] at ran
              cases ran
              exact .goes received ended keep later

structure Rests (effects : List Effect) (next : HttpContext) (left : Buffer) : Prop where
  tidy : Tidy next
  open' : effects.any Effect.isShutDown = false → Unfinished next ∧ parse next left.readable = .ok (next,left.readable)
  shut : effects.any Effect.isShutDown = true → next = {} ∨ 400 ≤ next.respCode ∧ left.readable = []

theorem received_parse (received : c.recvHttpRequest buf = .ok (next,left)) :
    parse c buf.readable = .ok (next,left.readable) := by
  rw [← recvHttpRequest_seen,received]; rfl

theorem loop_rests (fuel : Nat) (tidy : Tidy c)
    (ran : server.onMessageLoop platform fuel c buf = .ok (effects,next,left)) : Rests effects next left := by
  induction fuel generalizing c buf effects with
  | zero => cases ran
  | succ fuel ih =>
    cases loop_turn ran with
    | waits received unfinished =>
      have parsed := received_parse received
      exact ⟨parse_tidy tidy parsed,fun _ => ⟨unfinished,parse_stable parsed⟩,nofun⟩
    | refuses received bad =>
      exact ⟨parse_tidy tidy (received_parse received),nofun,fun _ => .inr ⟨bad,Buffer.readable_clear _⟩⟩
    | closes => exact ⟨tidy_fresh,nofun,fun _ => .inl rfl⟩
    | rests _ _ _ empty =>
      refine ⟨tidy_fresh,fun _ => ⟨⟨nofun,by decide⟩,?_⟩,nofun⟩
      rw [empty]; rfl
    | goes _ _ _ later =>
      have rests := ih tidy_fresh later
      exact ⟨rests.tidy,fun open' => rests.open' open',fun shut => rests.shut shut⟩

theorem loop_announces (fuel : Nat)
    (ran : server.onMessageLoop platform fuel c buf = .ok (effects,last,final)) :
    effects.any Effect.isShutDown = true ↔
      400 ≤ last.respCode ∨ ∃ req, Effect.routed req ∈ effects ∧ req.isKeepAlive = false := by
  induction fuel generalizing c buf effects with
  | zero => cases ran
  | succ fuel ih =>
    cases loop_turn ran with
    | waits received unfinished =>
      refine ⟨nofun,fun announced => ?_⟩
      rcases announced with bad | ⟨_,none,_⟩
      · exact absurd unfinished.good (Int.not_lt.mpr bad)
      · cases none
    | refuses _ bad => exact ⟨fun _ => .inl bad,fun _ => rfl⟩
    | closes _ _ close => exact ⟨fun _ => .inr ⟨_,List.mem_cons_self,close⟩,fun _ => rfl⟩
    | @rests next _ _ _ keep _ =>
      refine ⟨nofun,fun announced => ?_⟩
      rcases announced with bad | ⟨req,member,close⟩
      · exact absurd bad (by decide)
      · have same : req = next.request := by simpa using member
        rw [same,keep] at close; cases close
    | @goes next _ _ _ _ _ _ keep later =>
      have announced := ih later
      rw [List.any_append,show List.any _ _ = false from rfl,Bool.false_or,announced]
      refine or_congr_right (exists_congr fun req => and_congr_left fun close => ?_)
      have other : req ≠ next.request := by
        intro same
        rw [same,keep] at close; cases close
      simp [other]

theorem loop_starts (ran : server.onMessageLoop platform fuel c buf = .ok (effects,last,final)) :
    ∃ next rest, parse c buf.readable = .ok (next,rest) ∧
      ((Unfinished next ∧ effects = [] ∧ last = next ∧ final.readable = rest) ∨
        (¬Unfinished next ∧ ∃ first tail, effects = first :: tail ∧ first.isShutDown = false)) := by
  cases fuel with
  | zero => cases ran
  | succ fuel =>
    cases loop_turn ran with
    | waits received unfinished => exact ⟨_,_,received_parse received,.inl ⟨unfinished,rfl,rfl,rfl⟩⟩
    | refuses received bad =>
      exact ⟨_,_,received_parse received,.inr ⟨fun unfinished => absurd unfinished.good (Int.not_lt.mpr bad),_,_,rfl,rfl⟩⟩
    | closes received ended => exact ⟨_,_,received_parse received,.inr ⟨ended,_,_,rfl,rfl⟩⟩
    | rests received ended => exact ⟨_,_,received_parse received,.inr ⟨ended,_,_,rfl,rfl⟩⟩
    | goes received ended => exact ⟨_,_,received_parse received,.inr ⟨ended,_,_,rfl,rfl⟩⟩

theorem stoi_finishes (str : Bytes) : stoi str ≠ .error .unfinished := by
  unfold stoi
  dsimp only
  split
  · nofun
  · split <;> split <;> nofun

theorem bodyOf_finishes (c : HttpContext) (x : Bytes) : bodyOf c x ≠ .error .unfinished := by
  have length : c.request.contentLength ≠ .error .unfinished := by
    unfold HttpRequest.contentLength
    split
    · exact stoi_finishes _
    · nofun
  unfold bodyOf
  cases given : c.request.contentLength with
  | error fault =>
    intro same
    cases same
    exact length given
  | ok n => nofun

theorem headOf_finishes (c : HttpContext) (x : Bytes) : headOf c x ≠ .error .unfinished := by
  induction x using takeLine_induction generalizing c with
  | pending x cut => rw [headOf_open cut]; intro same; cases same
  | cut x line rest cut ih =>
    rw [headOf_line cut]
    split
    · exact ih _
    · exact bodyOf_finishes _ _
    · intro same; cases same

theorem parse_finishes (c : HttpContext) (x : Bytes) : parse c x ≠ .error .unfinished := by
  unfold parse
  split
  · unfold lineOf
    split
    · intro same; cases same
    · split
      · exact headOf_finishes _ _
      · intro same; cases same
  · exact headOf_finishes c x
  · exact bodyOf_finishes c x
  · intro same; cases same
  · intro same; cases same

-- The fuel of OnMessage's loop is enough: every turn that goes on has taken a
-- whole request.
theorem loop_finishes (fuel : Nat) (enough : buf.readable.length + (if c.status = .line then 1 else 2) ≤ fuel) :
    server.onMessageLoop platform fuel c buf ≠ .error .unfinished := by
  induction fuel generalizing c buf with
  | zero => split at enough <;> omega
  | succ fuel ih =>
    simp only [onMessageLoop]
    cases received : c.recvHttpRequest buf with
    | error fault =>
      intro same
      cases same
      apply parse_finishes c buf.readable
      rw [← recvHttpRequest_seen,received]; rfl
    | ok state =>
      obtain ⟨next,left⟩ := state
      obtain ⟨progress,strict⟩ := parse_progress (received_parse received)
      simp only [bind,Except.bind]
      split
      · intro same; cases same
      · split
        · intro same; cases same
        · rename_i complete
          split
          · intro same; cases same
          · split
            · intro same; cases same
            · have room : left.readable.length + 1 ≤ fuel := by
                have shrunk := progress.shorter
                cases active : c.status with
                | line =>
                  have less := strict active (by simpa using complete)
                  rw [active,if_pos rfl] at enough
                  omega
                | _ =>
                  rw [active,if_neg (by simp)] at enough
                  omega
              intro same
              apply @ih next.reset left room
              cases later : server.onMessageLoop platform fuel next.reset left with
              | error fault => rw [later] at same; cases same; rfl
              | ok result => rw [later] at same; cases same

theorem onMessage_finishes (server : HttpServer) (platform : Platform) (context : Option HttpContext) (buf : Buffer) :
    server.onMessage platform context buf ≠ .error .unfinished := by
  apply loop_finishes
  rw [buf.readable_length]
  split
  · exact Nat.le_succ _
  · exact Nat.le_refl _

end HttpServer
end LinuxOS.Http
