import LinuxOS.Http.Message
import LinuxOS.Muduo.Buffer

namespace LinuxOS.Http
open Muduo

def maxLine : Nat := 8192

inductive RecvStatus where
  | line | head | body | over | error
  deriving DecidableEq, Repr

structure HttpContext where
  respCode : Int := 200
  status : RecvStatus := .line
  request : HttpRequest := {}
  deriving DecidableEq

namespace HttpContext

def fail (c : HttpContext) (code : Int) : HttpContext := {c with respCode := code, status := .error}

def popBack (line : Bytes) (c : UInt8) : Bytes := if line.getLast? = some c then line.dropLast else line

def chomp (line : Bytes) : Bytes := popBack (popBack line 10) 13

def setPair (r : HttpRequest) (kv : Bytes) : HttpRequest :=
  if kv = [] then r
  else
    match kv.find [61] 0 with
    | some eq_pos =>
      r.setParams (Util.urlDecode true (kv.take eq_pos)) (Util.urlDecode true (kv.drop (eq_pos + 1)))
    | none => r.setParams (Util.urlDecode true kv) []

def parseQueryFrom (query : Bytes) : Nat → Nat → HttpRequest → HttpRequest
  | 0,_,r => r
  | fuel+1,start,r =>
    match query.find [38] start with
    | none => setPair r (query.drop start)
    | some stop => parseQueryFrom query fuel (stop + 1) (setPair r (query.substr start (stop - start)))

def parseQueryString (r : HttpRequest) : HttpRequest :=
  parseQueryFrom r.queryString (r.queryString.length + 1) 0 r

-- The path and query part of ParseReqLine.
def parseUri (r : HttpRequest) : HttpRequest :=
  match r.uri.find [63] 0 with
  | none => {r with path := r.uri, queryString := []}
  | some qpos => parseQueryString {r with path := r.uri.take qpos, queryString := r.uri.drop (qpos + 1)}

def parseReqLine (r : HttpRequest) (req_line : Bytes) : Bool × HttpRequest :=
  let line : Bytes := chomp req_line
  match line.find [32] 0 with
  | none => (false,r)
  | some pos1 =>
    match line.find [32] (pos1 + 1) with
    | none => (false,r)
    | some pos2 =>
      let set := {r with
        method := line.take pos1
        uri := line.substr (pos1 + 1) (pos2 - pos1 - 1)
        httpVersion := line.drop (pos2 + 1)}
      if set.method = [] ∨ set.uri = [] ∨ set.httpVersion = [] then (false,set) else (true,parseUri set)

def parseHttpHead (r : HttpRequest) (head : Bytes) : Option HttpRequest :=
  let line : Bytes := chomp head
  (line.find [58,32] 0).map fun pos => r.setHeaders (line.take pos) (line.drop (pos + 2))

def takeReqLine (c : HttpContext) (req_line : Bytes) : Bool × HttpContext :=
  if maxLine < req_line.length then (false,c.fail 414)
  else
    match parseReqLine c.request req_line with
    | (false,request) => (false,fail {c with request := request} 400)
    | (true,request) => (true,{c with request := request, status := .head})

def recvReqLine (c : HttpContext) (buf : Buffer) : Except Fault (Bool × HttpContext × Buffer) :=
  if c.status ≠ .line then .ok (false,c,buf)
  else if buf.findCRLF = none then
    if maxLine < buf.readableSize then .ok (false,c.fail 414,buf) else .ok (true,c,buf)
  else do
    let (req_line,buf) ← demand buf.getLineAndPop
    let (taken,c) := c.takeReqLine req_line
    return (taken,c,buf)

-- One header line; `none` goes on with the loop.
def takeHead (c : HttpContext) (line : Bytes) : Option Bool × HttpContext :=
  if maxLine < line.length then (some false,c.fail 414)
  else if line = [13,10] ∨ line = [10] then (some true,{c with status := .body})
  else
    match parseHttpHead c.request line with
    | none => (some false,c.fail 400)
    | some request => (none,{c with request := request})

def recvReqHeadLoop : Nat → HttpContext → Buffer → Except Fault (Bool × HttpContext × Buffer)
  | 0,_,_ => .error .unfinished
  | fuel+1,c,buffer =>
    if buffer.findCRLF = none then
      if maxLine < buffer.readableSize then .ok (false,c.fail 414,buffer) else .ok (true,c,buffer)
    else do
      let (line,buffer) ← demand buffer.getLineAndPop
      match c.takeHead line with
      | (some done,c) => return (done,c,buffer)
      | (none,c) => recvReqHeadLoop fuel c buffer

def recvReqHead (c : HttpContext) (buffer : Buffer) : Except Fault (Bool × HttpContext × Buffer) :=
  if c.status ≠ .head then .ok (false,c,buffer)
  else recvReqHeadLoop (buffer.readableSize + 1) c buffer

def addBody (c : HttpContext) (part : Bytes) : HttpContext :=
  {c with request := {c.request with body := c.request.body ++ part}}

def recvHttpBody (c : HttpContext) (buf : Buffer) : Except Fault (Bool × HttpContext × Buffer) :=
  if c.status ≠ .body then .ok (false,c,buf)
  else do
    let content_length ← c.request.contentLength
    if content_length = 0 then return (true,{c with status := .over},buf)
    else
      let need_length := content_length - c.request.body.length
      if need_length ≤ 0 then return (true,{c with status := .over},buf)
      else if need_length.toNat ≤ buf.readableSize then
        let (part,buf) ← demand (buf.readStringAndPop need_length.toNat)
        return (true,{c.addBody part with status := .over},buf)
      else if 0 < buf.readableSize then
        let (part,buf) ← demand (buf.readStringAndPop buf.readableSize)
        return (true,c.addBody part,buf)
      else return (true,c,buf)

-- The switch falls through: each stage runs if the one before it returned true.
def fromBody (c : HttpContext) (buf : Buffer) : Except Fault (HttpContext × Buffer) := do
  let (_,c,buf) ← c.recvHttpBody buf
  return (c,buf)

def fromHead (c : HttpContext) (buf : Buffer) : Except Fault (HttpContext × Buffer) := do
  let (went,c,buf) ← c.recvReqHead buf
  if went then c.fromBody buf else return (c,buf)

def fromLine (c : HttpContext) (buf : Buffer) : Except Fault (HttpContext × Buffer) := do
  let (went,c,buf) ← c.recvReqLine buf
  if went then c.fromHead buf else return (c,buf)

def recvHttpRequest (c : HttpContext) (buf : Buffer) : Except Fault (HttpContext × Buffer) :=
  match c.status with
  | .line => c.fromLine buf
  | .head => c.fromHead buf
  | .body => c.fromBody buf
  | .over | .error => .ok (c,buf)

def reset (_ : HttpContext) : HttpContext := {}

end HttpContext
end LinuxOS.Http
