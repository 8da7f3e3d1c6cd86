import LinuxOS.Http.Encoding
import LinuxOS.Http.Server

namespace LinuxOS.Http
open Muduo HttpContext
variable {c next : HttpContext} {x rest : Bytes} {m : Message} {r : HttpResponse}

structure Progress (c : HttpContext) (x : Bytes) (next : HttpContext) (rest : Bytes) : Prop where
  code : next.status ≠ .error → next.respCode = c.respCode
  shorter : rest.length ≤ x.length

theorem bodyOf_progress (parsed : bodyOf c x = .ok (next,rest)) : Progress c x next rest := by
  rcases bodyOf_cases parsed with ⟨rfl,rfl⟩ | ⟨part,count,rfl,rfl⟩ | ⟨rfl,rfl⟩
  · exact ⟨fun _ => rfl,Nat.le_refl _⟩
  · exact ⟨fun _ => rfl,by rw [List.length_drop]; omega⟩
  · exact ⟨fun _ => rfl,Nat.zero_le _⟩

theorem headOf_progress (parsed : headOf c x = .ok (next,rest)) : Progress c x next rest := by
  induction x using takeLine_induction generalizing c with
  | pending x cut =>
    rw [headOf_open cut] at parsed
    cases parsed
    refine ⟨?_,Nat.le_refl _⟩
    split
    · exact fun running => absurd rfl running
    · exact fun _ => rfl
  | cut x line left cut ih =>
    have shorter := takeLine_shorter cut
    rw [headOf_line cut] at parsed
    rcases takeHead_cases c line with ⟨code,failed⟩ | blank | ⟨request,header⟩
    · rw [failed] at parsed
      cases parsed
      exact ⟨fun running => absurd rfl running,by omega⟩
    · rw [blank] at parsed
      obtain ⟨code,shrunk⟩ := bodyOf_progress parsed
      exact ⟨code,by omega⟩
    · rw [header] at parsed
      obtain ⟨code,shrunk⟩ := ih parsed
      exact ⟨code,by omega⟩

theorem lineOf_progress (active : c.status = .line) (parsed : lineOf c x = .ok (next,rest)) :
    Progress c x next rest ∧ (next.status = .over → rest.length < x.length) := by
  unfold lineOf at parsed
  cases cut : takeLine x with
  | none =>
    simp only [cut] at parsed
    cases parsed
    split
    · exact ⟨⟨fun running => absurd rfl running,Nat.le_refl _⟩,by simp [fail]⟩
    · exact ⟨⟨fun _ => rfl,Nat.le_refl _⟩,by simp [active]⟩
  | some parts =>
    obtain ⟨line,left⟩ := parts
    have shorter := takeLine_shorter cut
    simp only [cut] at parsed
    rcases takeReqLine_cases c line with ⟨failed,taken,error⟩ | ⟨request,taken⟩
    · rw [taken] at parsed
      cases parsed
      exact ⟨⟨fun running => absurd error running,by omega⟩,by simp [error]⟩
    · rw [taken] at parsed
      obtain ⟨code,shrunk⟩ := headOf_progress parsed
      exact ⟨⟨code,by omega⟩,by omega⟩

theorem parse_progress (parsed : parse c x = .ok (next,rest)) :
    Progress c x next rest ∧ (c.status = .line → next.status = .over → rest.length < x.length) := by
  cases active : c.status with
  | line =>
    simp only [parse,active] at parsed
    obtain ⟨progress,strict⟩ := lineOf_progress active parsed
    exact ⟨progress,fun _ => strict⟩
  | head =>
    simp only [parse,active] at parsed
    exact ⟨headOf_progress parsed,by simp⟩
  | body =>
    simp only [parse,active] at parsed
    exact ⟨bodyOf_progress parsed,by simp⟩
  | _ =>
    simp only [parse,active] at parsed
    cases parsed
    exact ⟨⟨fun _ => rfl,Nat.le_refl _⟩,by simp⟩

-- A response keeps the connection exactly if the request asked for it; the
-- fields that MakeResponse adds afterwards have other names.
theorem isKeepAlive_lookup : r.isKeepAlive = true ↔ r.headers.lookup (ascii "Connection") = some (ascii "keep-alive") := by
  simp only [HttpResponse.isKeepAlive,HttpResponse.getHeaders,decide_eq_true_eq,← Finmap.lookup_isSome]
  cases r.headers.lookup (ascii "Connection") with
  | none => simp
  | some value => simp

theorem isKeepAlive_other (other : ascii "Connection" ≠ key) :
    (r.setHeaders key value).isKeepAlive = r.isKeepAlive := by
  have same : (r.setHeaders key value).headers.lookup (ascii "Connection") = r.headers.lookup (ascii "Connection") :=
    Finmap.lookup_insert_of_ne _ other
  rw [Bool.eq_iff_iff,isKeepAlive_lookup,isKeepAlive_lookup,same]

theorem setLength_keepAlive : (HttpServer.setLength r).isKeepAlive = r.isKeepAlive := by
  unfold HttpServer.setLength
  split
  · rfl
  · split <;> exact isKeepAlive_other (by decide)

theorem setType_keepAlive : (HttpServer.setType r).isKeepAlive = r.isKeepAlive := by
  unfold HttpServer.setType
  split
  · exact isKeepAlive_other (by decide)
  · rfl

theorem setLocation_keepAlive : (HttpServer.setLocation r).isKeepAlive = r.isKeepAlive := by
  unfold HttpServer.setLocation
  split
  · exact isKeepAlive_other (by decide)
  · rfl

theorem completeResponse_keepAlive (req : HttpRequest) :
    (HttpServer.completeResponse req r).isKeepAlive = req.isKeepAlive := by
  simp only [HttpServer.completeResponse,setLocation_keepAlive,setType_keepAlive,setLength_keepAlive]
  cases kept : req.isKeepAlive with
  | true =>
    rw [if_pos rfl,isKeepAlive_lookup]
    exact Finmap.lookup_insert _
  | false =>
    have close : (r.setHeaders (ascii "Connection") (ascii "close")).headers.lookup (ascii "Connection") =
        some (ascii "close") := Finmap.lookup_insert _
    rw [if_neg Bool.false_ne_true,← Bool.not_eq_true,isKeepAlive_lookup,close]
    decide

-- What a handler must find in the request that Route gets for m.
structure Delivers (m : Message) (req : HttpRequest) : Prop where
  method : req.method = m.method
  uri : req.uri = m.uri
  version : req.httpVersion = ascii "HTTP/1.1"
  headers : ∀ key value, req.reqHeaders.lookup key = some value ↔ (key,value) ∈ m.headers
  body : req.body = m.body
  target : req.path = m.started.path ∧ req.queryString = m.started.queryString ∧ req.params = m.started.params
  pathParams : req.pathParams = ∅

theorem decoded_delivers (formed : m.Formed) : Delivers m m.decoded := by
  have frame : m.decoded = {m.started with reqHeaders := (Message.setAll m.started m.headers).reqHeaders, body := m.body} := by
    rw [Message.decoded,setAll_frame]
  have line : m.started = {
      method := m.method, uri := m.uri, httpVersion := ascii "HTTP/1.1",
      path := m.started.path, queryString := m.started.queryString, params := m.started.params} := by
    conv_lhs => rw [Message.started,parseUri_frame]
    rfl
  rw [frame]
  refine ⟨by rw [line],by rw [line],by rw [line],?_,rfl,⟨rfl,rfl,rfl⟩,by rw [line]⟩
  intro key value
  constructor
  · intro found
    by_cases present : key ∈ m.headers.map Prod.fst
    · obtain ⟨h,member,same⟩ := List.mem_map.mp present
      cases same
      have given := setAll_present m.started m.headers formed.names member
      rw [given] at found
      cases found
      exact member
    · rw [setAll_absent _ _ present,line] at found
      simp at found
  · exact setAll_present m.started m.headers formed.names

theorem decoded_keepAlive (formed : m.Formed) : m.decoded.isKeepAlive = true := by
  have delivers := decoded_delivers formed
  unfold HttpRequest.isKeepAlive
  split
  · rename_i member
    obtain ⟨value,found⟩ := Finmap.mem_iff.mp member
    have kept := formed.connection value ((delivers.headers _ _).mp found)
    simp [HttpRequest.getHeaders,found,kept]
  · simp [delivers.version]

def encodeAll (ms : List Message) : Bytes := ms.flatMap Message.encode

theorem parse_encodeAll (formed : ∀ m ∈ ms, m.Formed) : parse {} (encodeAll ms) =
    match ms with
    | [] => .ok ({},[])
    | m :: later => .ok ({status := .over, request := m.decoded},encodeAll later) := by
  cases ms with
  | nil => rfl
  | cons m later => exact parse_encoded m (formed m List.mem_cons_self) (encodeAll later)

variable (server : HttpServer) (platform : Platform)

def exchange (m : Message) : List Effect :=
  let resp := server.answer platform {status := .over, request := m.decoded}
  [.routed m.decoded,.sent (HttpServer.renderResponse platform m.decoded resp)]

-- Between two reads: x is unread, z is still to come, and together they are
-- what a fresh parser makes of the messages that are not served yet.
structure Waiting (c : HttpContext) (x z : Bytes) (ms : List Message) : Prop where
  parsed : parse c (x ++ z) = parse {} (encodeAll ms)
  code : c.respCode = 200
  stable : parse c x = .ok (c,x)
  pending : c.status ≠ .over

theorem waiting_fresh (x : Bytes) (ms : List Message) (same : x = encodeAll ms) : Waiting {} [] x ms :=
  ⟨by rw [List.nil_append,same],rfl,rfl,by simp⟩

theorem recv_parsed {buf : Buffer} (parsed : parse c buf.readable = .ok (next,rest)) :
    ∃ left, c.recvHttpRequest buf = .ok (next,left) ∧ left.readable = rest := by
  rw [← recvHttpRequest_seen] at parsed
  cases received : c.recvHttpRequest buf with
  | error => rw [received] at parsed; cases parsed
  | ok state =>
    rw [received] at parsed
    cases parsed
    exact ⟨state.2,rfl,rfl⟩

-- A parse of a beginning of good requests never fails, and the rest of the
-- bytes goes on where it stopped.
theorem parse_begun (formed : ∀ m ∈ ms, m.Formed) (parsed : parse c (x ++ z) = parse {} (encodeAll ms)) :
    ∃ next rest, parse c x = .ok (next,rest) ∧ next.status ≠ .error ∧ parse next (rest ++ z) = parse {} (encodeAll ms) := by
  have continues := parse_append c x z
  have whole := parse_encodeAll formed
  rw [parsed] at continues
  cases first : parse c x with
  | error fault =>
    rw [first,whole] at continues
    cases ms <;> cases continues
  | ok state =>
    obtain ⟨next,rest⟩ := state
    rw [first] at continues
    simp only [Continues] at continues
    split at continues
    · rename_i failed
      obtain ⟨left,equal⟩ := continues
      rw [whole] at equal
      cases ms with
      | nil => cases equal; cases failed
      | cons m later => cases equal; cases failed
    · rename_i running
      exact ⟨next,rest,rfl,running,continues.symm⟩

theorem loop_waiting (fuel : Nat) (c : HttpContext) (buf : Buffer) (z : Bytes) (ms : List Message)
    (formed : ∀ m ∈ ms, m.Formed) (parsed : parse c (buf.readable ++ z) = parse {} (encodeAll ms))
    (code : c.respCode = 200) (enough : buf.readable.length + (if c.status = .line then 1 else 2) ≤ fuel) :
    ∃ done later next left, ms = done ++ later ∧
      server.onMessageLoop platform fuel c buf = .ok (done.flatMap (exchange server platform),next,left) ∧
      Waiting next left.readable z later := by
  induction fuel generalizing c buf ms with
  | zero => split at enough <;> omega
  | succ fuel ih =>
    obtain ⟨next,rest,first,running,again⟩ := parse_begun formed parsed
    obtain ⟨progress,strict⟩ := parse_progress first
    obtain ⟨left,received,unread⟩ := recv_parsed first
    have good : next.respCode = 200 := (progress.code running).trans code
    simp only [HttpServer.onMessageLoop,received,bind,Except.bind,good]
    rw [if_neg (by omega)]
    by_cases complete : next.status = .over
    · rw [if_neg (by simp [complete])]
      rw [parse_done (.inl complete),parse_encodeAll formed] at again
      cases ms with
      | nil =>
        have idle : next = {} := congrArg Prod.fst (Except.ok.inj again)
        rw [idle] at complete
        cases complete
      | cons m later =>
        have head := formed m List.mem_cons_self
        have ended : next = {status := .over, request := m.decoded} := congrArg Prod.fst (Except.ok.inj again)
        have after : rest ++ z = encodeAll later := congrArg Prod.snd (Except.ok.inj again)
        have kept : (server.answer platform next).isKeepAlive = true := by
          rw [ended]
          exact (completeResponse_keepAlive _).trans (decoded_keepAlive head)
        rw [if_neg (by simp [kept])]
        have measure : rest.length + 1 ≤ fuel := by
          cases active : c.status with
          | line =>
            have shrunk := strict active complete
            rw [active,if_pos rfl] at enough
            omega
          | _ =>
            have shrunk := progress.shorter
            rw [active,if_neg (by simp)] at enough
            omega
        by_cases empty : left.readableSize = 0
        · rw [if_pos empty]
          have nothing : rest = [] := by
            rw [← unread]
            exact List.eq_nil_of_length_eq_zero (left.readable_length.trans empty)
          refine ⟨[m],later,{},left,rfl,by rw [ended]; rfl,?_⟩
          rw [unread,nothing]
          exact waiting_fresh z later (by rw [← after,nothing]; rfl)
        · rw [if_neg empty]
          obtain ⟨done,remaining,last,buffer,split',ran,waiting⟩ := ih {} left later
            (fun other member => formed other (List.mem_cons_of_mem _ member))
            (by rw [unread,after]) rfl (by rw [unread]; simpa using measure)
          refine ⟨m :: done,remaining,last,buffer,by rw [split']; rfl,?_,waiting⟩
          rw [ended]
          simp only [reset,ran]
          rfl
    · rw [if_pos complete]
      exact ⟨[],ms,next,left,rfl,rfl,by rw [unread]; exact again,good,by rw [unread]; exact parse_stable first,complete⟩

theorem onMessage_waiting {ms : List Message} {buf : Buffer} (formed : ∀ m ∈ ms, m.Formed)
    (parsed : parse c (buf.readable ++ z) = parse {} (encodeAll ms)) (code : c.respCode = 200) :
    ∃ done later next left, ms = done ++ later ∧
      server.onMessage platform (some c) buf = .ok (done.flatMap (exchange server platform),next,left) ∧
      Waiting next left.readable z later := by
  apply loop_waiting
  · exact formed
  · exact parsed
  · exact code
  · rw [buf.readable_length]
    simp only [Option.getD_some]
    split <;> omega

theorem exchange_open (ms : List Message) : (ms.flatMap (exchange server platform)).any Effect.isShutDown = false := by
  induction ms with
  | nil => rfl
  | cons m ms ih => rw [List.flatMap_cons,List.any_append,ih]; rfl

theorem exchange_requests (ms : List Message) :
    (ms.flatMap (exchange server platform)).filterMap Effect.request = ms.map Message.decoded := by
  induction ms with
  | nil => rfl
  | cons m ms ih => rw [List.flatMap_cons,List.filterMap_append,ih]; rfl

theorem waiting_end {ms : List Message} (formed : ∀ m ∈ ms, m.Formed) (waiting : Waiting c x [] ms) :
    ms = [] ∧ c = {} ∧ x = [] := by
  have parsed := waiting.parsed
  rw [List.append_nil,waiting.stable,parse_encodeAll formed] at parsed
  cases ms with
  | nil => exact ⟨rfl,congrArg Prod.fst (Except.ok.inj parsed),congrArg Prod.snd (Except.ok.inj parsed)⟩
  | cons m later =>
    have ended : c = {status := .over, request := m.decoded} := congrArg Prod.fst (Except.ok.inj parsed)
    exact absurd (by rw [ended]) waiting.pending

theorem reads_waiting (chunks : List Bytes) (c : HttpContext) (buf : Buffer) (ms : List Message)
    (formed : ∀ m ∈ ms, m.Formed) (waiting : Waiting c buf.readable chunks.flatten ms) :
    ∃ left, server.onReads platform (some c) buf chunks =
        .ok (ms.flatMap (exchange server platform),some {},left) ∧ left.readable = [] := by
  induction chunks generalizing c buf ms with
  | nil =>
    obtain ⟨none_left,fresh,empty⟩ := waiting_end formed waiting
    rw [none_left,fresh]
    exact ⟨buf,rfl,empty⟩
  | cons chunk rest ih =>
    obtain ⟨filled,written,readable⟩ := buf.writeAndPush_spec chunk
    have parsed : parse c (filled.readable ++ rest.flatten) = parse {} (encodeAll ms) := by
      rw [readable,List.append_assoc,← List.flatten_cons]
      exact waiting.parsed
    obtain ⟨done,later,next,left,split',ran,after⟩ := onMessage_waiting server platform formed parsed waiting.code
    have remaining : ∀ m ∈ later, m.Formed := fun m member =>
      formed m (by rw [split']; exact List.mem_append_right _ member)
    obtain ⟨last,served,empty⟩ := ih next left later remaining after
    refine ⟨last,?_,empty⟩
    simp only [HttpServer.onReads,written,demand,bind,Except.bind,ran,exchange_open,served,Bool.false_eq_true,
      if_false,pure,Except.pure]
    rw [split',List.flatMap_append]

theorem pipeline_served (ms : List Message) (formed : ∀ m ∈ ms, m.Formed) (chunks : List Bytes)
    (cut : chunks.flatten = encodeAll ms) :
    ∃ effects buffer, server.onReads platform (some {}) {} chunks = .ok (effects,some {},buffer) ∧
      effects.filterMap Effect.request = ms.map Message.decoded ∧ (∀ m ∈ ms, Delivers m m.decoded) ∧
      effects.any Effect.isShutDown = false ∧ buffer.readable = [] := by
  have start : Waiting {} ({} : Buffer).readable chunks.flatten ms := by
    rw [Buffer.readable_start]
    exact waiting_fresh _ ms cut
  obtain ⟨buffer,served,empty⟩ := reads_waiting server platform chunks {} {} ms formed start
  exact ⟨_,buffer,served,exchange_requests server platform ms,fun m member => decoded_delivers (formed m member),
    exchange_open server platform ms,empty⟩

-- Two requests, the first with a body, cut inside the CRLF of a header and
-- right after the first byte of the second request.
def upload : Message where
  method := ascii "POST"
  uri := ascii "/up?k=v"
  headers := [(ascii "Content-Length",ascii "2"),(ascii "Connection",ascii "keep-alive")]
  body := ascii "ab"

def download : Message where
  method := ascii "GET"
  uri := ascii "/x"
  headers := [(ascii "Host",ascii "h")]
  body := []

def sink : HttpServer where
  baseDir := ascii "."
  postRoutes := [{pattern := ascii "/up", cb := fun req resp => {resp with body := req.body}}]

def emptyDisk : Platform where
  isDirectory _ := false
  isRegular _ := false
  readFile _ := none
  entries _ := []

theorem upload_formed : upload.Formed where
  method := by unfold Message.Word; decide
  uri := by unfold Message.Word; decide
  fits := by decide
  headers := by
    intro h member
    have either : h = (ascii "Content-Length",ascii "2") ∨ h = (ascii "Connection",ascii "keep-alive") := by
      simpa [upload] using member
    rcases either with rfl | rfl
    · exact ⟨by decide,by decide,by decide,by decide⟩
    · exact ⟨by decide,by decide,by decide,by decide⟩
  names := by decide
  connection := by
    intro value member
    simpa [upload,show ascii "Connection" ≠ ascii "Content-Length" by decide] using member
  length := by
    refine .inr ⟨ascii "2",by simp [upload],by decide,?_,by decide,by decide⟩
    intro d member
    have only : d = 50 := List.mem_singleton.mp member
    rw [only]; rfl

theorem download_formed : download.Formed where
  method := by unfold Message.Word; decide
  uri := by unfold Message.Word; decide
  fits := by decide
  headers := by
    intro h member
    have only : h = (ascii "Host",ascii "h") := by simpa [download] using member
    cases only
    exact ⟨by decide,by decide,by decide,by decide⟩
  names := by decide
  connection := by
    intro value member
    simp [download,show ascii "Connection" ≠ ascii "Host" by decide] at member
  length := by
    left
    refine ⟨rfl,?_⟩
    intro value member
    simp [download,show ascii "Content-Length" ≠ ascii "Host" by decide] at member

def stream : Bytes := encodeAll [upload,download]

theorem pipeline_served_pair : ∃ effects buffer,
    sink.onReads emptyDisk (some {}) {} [stream.take 41,(stream.drop 41).take 30,stream.drop 71] =
      .ok (effects,some {},buffer) ∧
    effects.filterMap Effect.request = [upload,download].map Message.decoded ∧
    (∀ m ∈ [upload,download], Delivers m m.decoded) ∧
    effects.any Effect.isShutDown = false ∧ buffer.readable = [] := by
  have formed : ∀ m ∈ [upload,download], m.Formed := by
    intro m member
    have either : m = upload ∨ m = download := by simpa using member
    rcases either with rfl | rfl
    · exact upload_formed
    · exact download_formed
  exact pipeline_served sink emptyDisk [upload,download] formed _ (by decide)

end LinuxOS.Http
