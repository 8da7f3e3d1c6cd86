import LinuxOS.Http.Framing
import LinuxOS.Http.Pipeline

namespace LinuxOS.Http
open HttpContext

-- One request that the server answered, with the routes and the disk as they
-- were at that call of OnMessage.
structure Served where
  server : HttpServer
  platform : Platform
  message : Message

namespace Served

def exchange (v : Served) : Exchange :=
  let resp := v.server.route v.platform v.message.decoded {}
  ⟨v.platform,v.message.decoded,
    if 400 ≤ resp.code ∧ resp.body = [] then HttpServer.errorHandler resp else resp⟩

def effects (v : Served) : List Effect := [.routed v.message.decoded,.sent v.exchange.payload]

end Served

-- A server with no routes of its own: it has the files below its directory.
structure HttpServer.Site (server : HttpServer) : Prop where
  getRoutes : server.getRoutes = []
  putRoutes : server.putRoutes = []
  postRoutes : server.postRoutes = []
  deleteRoutes : server.deleteRoutes = []

theorem create_site (base_dir : Bytes) : (HttpServer.create base_dir).Site := ⟨rfl,rfl,rfl,rfl⟩

namespace Served
variable {v : Served} {resp : HttpResponse} {r : Received}

def realPath (v : Served) : Bytes := v.server.realPath v.platform.isDirectory v.message.decoded.path

def file (v : Served) : Option Bytes :=
  if v.server.isFileHandler v.platform v.message.decoded then v.platform.readFile v.realPath else none

structure Typed (resp : HttpResponse) : Prop where
  stays : resp.redirectFlag = false
  header : ∀ name value, resp.headers.lookup name = some value →
    name = ascii "Content-Type" ∧ Exchange.OneLine value

theorem typed_bare (bare : resp.headers = ∅) (stays : resp.redirectFlag = false) : Typed resp := by
  refine ⟨stays,fun name value found => ?_⟩
  rw [bare,Finmap.lookup_empty] at found
  cases found

theorem typed_content (typed : Typed resp) (line : Exchange.OneLine type) : Typed (resp.setContent body type) := by
  refine ⟨typed.stays,fun name value found => ?_⟩
  rw [HttpResponse.setContent,setHeaders_lookup] at found
  split at found
  · rename_i same
    cases found
    exact ⟨same,line⟩
  · exact typed.header name value found

theorem getMime_line (filename : Bytes) : Exchange.OneLine (Util.getMime filename) := by
  have table : ∀ entry ∈ kMimeTypes, Exchange.OneLine (ascii entry.2) := by decide +kernel
  unfold Util.getMime
  dsimp only
  split
  · decide
  · split
    · rename_i found
      exact table _ (List.mem_of_find?_eq_some found)
    · decide

theorem handled_path (handled : v.server.isFileHandler v.platform v.message.decoded = true) :
    v.message.decoded.path ≠ [] ∧ Util.isValidPath v.message.decoded.path = true ∧
      v.platform.isRegular v.realPath = true := by
  unfold HttpServer.isFileHandler at handled
  split at handled
  · cases handled
  · split at handled
    · cases handled
    · rename_i named
      obtain ⟨some_path,valid⟩ := not_or.mp named
      exact ⟨some_path,Bool.eq_true_of_not_eq_false valid,handled⟩

-- FileHandler repeats the tests of IsFileHandler and passes them.
theorem route_file (handled : v.server.isFileHandler v.platform v.message.decoded = true) :
    v.server.route v.platform v.message.decoded {} =
      match v.platform.readFile v.realPath with
      | none => {code := 500}
      | some body => HttpResponse.setContent {} body (Util.getMime v.realPath) := by
  obtain ⟨some_path,valid,regular⟩ := handled_path handled
  have regular : v.platform.isRegular (v.server.realPath v.platform.isDirectory v.message.decoded.path) ≠ false :=
    ne_false_of_eq_true regular
  simp only [HttpServer.route,if_neg some_path,handled,if_true,HttpServer.fileHandler,valid,Bool.true_eq_false,if_false,
    if_neg regular]
  rfl

theorem route_missing (site : v.server.Site) (other : v.server.isFileHandler v.platform v.message.decoded = false) :
    ∃ code, 400 ≤ code ∧ v.server.route v.platform v.message.decoded {} = {code := code} := by
  unfold HttpServer.route
  rw [site.getRoutes,site.putRoutes,site.postRoutes,site.deleteRoutes,other]
  split
  · exact ⟨400,by decide,rfl⟩
  · rw [if_neg Bool.false_ne_true]
    repeat' split
    all_goals first
      | exact ⟨404,by decide,rfl⟩
      | exact ⟨405,by decide,rfl⟩

theorem exchange_file (found : v.file = some bytes) :
    v.exchange.resp = HttpResponse.setContent {} bytes (Util.getMime v.realPath) := by
  unfold file at found
  split at found
  · rename_i handled
    have routed := route_file handled
    rw [found] at routed
    rw [exchange,routed]
    rfl
  · cases found

theorem exchange_missing (site : v.server.Site) (none : v.file = none) :
    ∃ code, 400 ≤ code ∧ v.exchange.resp = HttpServer.errorHandler {code := code} := by
  have bare : ∃ code, 400 ≤ code ∧ v.server.route v.platform v.message.decoded {} = {code := code} := by
    unfold file at none
    split at none
    · rename_i handled
      have routed := route_file handled
      rw [none] at routed
      exact ⟨500,by decide,routed⟩
    · rename_i other
      exact route_missing site (Bool.eq_false_of_not_eq_true other)
  obtain ⟨code,bad,routed⟩ := bare
  refine ⟨code,bad,?_⟩
  rw [exchange,routed]
  exact if_pos ⟨bad,rfl⟩

theorem exchange_typed (site : v.server.Site) : Typed v.exchange.resp ∧
    ascii "Content-Type" ∈ v.exchange.resp.headers := by
  have given : ∀ resp body type, ascii "Content-Type" ∈ (HttpResponse.setContent resp body type).headers := by
    intro resp body type
    exact Finmap.mem_iff.mpr ⟨type,Finmap.lookup_insert _⟩
  cases found : v.file with
  | some bytes =>
    rw [exchange_file found]
    exact ⟨typed_content (typed_bare rfl rfl) (getMime_line _),given _ _ _⟩
  | none =>
    obtain ⟨code,_,page⟩ := exchange_missing site found
    rw [page]
    exact ⟨typed_content (typed_bare rfl rfl) (by decide),given _ _ _⟩

theorem site_formed (site : v.server.Site) (walks : v.platform.Walks) (formed : v.message.Formed) :
    v.exchange.Formed := by
  obtain ⟨typed,_⟩ := exchange_typed site
  have version : v.exchange.req.httpVersion = ascii "HTTP/1.1" := (decoded_delivers formed).version
  refine ⟨walks,by rw [version]; decide,?_,?_,?_,?_⟩
  · intro name member
    obtain ⟨value,found⟩ := Finmap.mem_iff.mp member
    rw [(typed.header name value found).1]
    decide
  · intro name value found
    exact (typed.header name value found).2
  · intro member
    obtain ⟨value,found⟩ := Finmap.mem_iff.mp member
    exact absurd (typed.header _ _ found).1 (by decide)
  · intro redirect
    rw [typed.stays] at redirect
    cases redirect

-- What the client of a static site gets for one request: the bytes of the file
-- that it names, or an error page.
structure Delivered (v : Served) (r : Received) : Prop where
  found : ∀ bytes, v.file = some bytes → r.code = 200 ∧
    r.body = (if v.message.method = ascii "HEAD" then [] else bytes) ∧
    r.headers.lookup (ascii "Content-Type") = some (Util.getMime v.realPath)
  missing : v.file = none → 400 ≤ r.code ∧
    r.body = if v.message.method = ascii "HEAD" then [] else (HttpServer.errorHandler {code := r.code}).body

theorem splits_delivered (site : v.server.Site) (formed : v.message.Formed) (splits : v.exchange.Splits r) :
    Delivered v r := by
  have head : v.exchange.isHead = decide (v.message.method = ascii "HEAD") := by
    have method : v.exchange.req.method = v.message.method := (decoded_delivers formed).method
    rw [Exchange.isHead,method]
  have body := splits.body
  simp only [head,decide_eq_true_eq] at body
  constructor
  · intro bytes found
    have resp := exchange_file found
    have type : v.exchange.field (ascii "Content-Type") = some (Util.getMime v.realPath) := by
      have other : ascii "Content-Type" ≠ ascii "Location" ∧ ascii "Content-Type" ≠ ascii "Content-Length" ∧
        ascii "Content-Type" ≠ ascii "Connection" := by decide
      rw [Exchange.field,if_neg (fun same => other.1 same.1),if_neg (fun same => same.2.1 (exchange_typed site).2),
        if_neg other.2.1,if_neg other.2.2,resp]
      exact Finmap.lookup_insert _
    exact ⟨by rw [splits.code,resp]; rfl,by rw [body,resp]; rfl,by rw [splits.headers,type]⟩
  · intro none
    obtain ⟨code,bad,page⟩ := exchange_missing site none
    have same : r.code = code := by rw [splits.code,page]; rfl
    rw [same,body,page]
    exact ⟨bad,rfl⟩

end Served
end LinuxOS.Http
