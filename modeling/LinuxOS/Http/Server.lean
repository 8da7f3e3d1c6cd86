import LinuxOS.Http.Context

namespace LinuxOS.Http
open Muduo

abbrev RouteFunc := HttpRequest → HttpResponse → HttpResponse

structure RouteItem where
  pattern : Bytes
  cb : RouteFunc

abbrev RouteTable := List RouteItem

-- What the file system answers, and the order in which this unordered_map
-- implementation walks its entries.
structure Platform where
  isDirectory : Bytes → Bool
  isRegular : Bytes → Bool
  readFile : Bytes → Option Bytes
  entries : Dict → List (Bytes × Bytes)

structure HttpServer where
  baseDir : Bytes
  getRoutes : RouteTable := []
  putRoutes : RouteTable := []
  postRoutes : RouteTable := []
  deleteRoutes : RouteTable := []

-- What OnMessage does to the connection, in order.
inductive Effect where
  | routed (req : HttpRequest)
  | sent (payload : Bytes)
  | shutDown

def Effect.isShutDown : Effect → Bool
  | .shutDown => true
  | _ => false

def Effect.request : Effect → Option HttpRequest
  | .routed req => some req
  | _ => none

namespace HttpServer

-- The constructor's normalisation of its base_dir argument.
def normalizeBase (base_dir : Bytes) : Bytes :=
  let trimmed := if base_dir.getLast? = some 47 then base_dir.dropLast else base_dir
  if trimmed = [] then [46] else trimmed

def create (base_dir : Bytes) : HttpServer := {baseDir := normalizeBase base_dir}

def normalizePath (path : Bytes) : Bytes :=
  let rooted := if path = [] then [47] else path
  let indexed := if rooted = [47] then ascii "/index.html" else rooted
  if indexed.getLast? = some 47 then indexed ++ ascii "index.html" else indexed

def buildFilePath (server : HttpServer) (path : Bytes) : Bytes := server.baseDir ++ normalizePath path

-- The name that IsFileHandler tests and FileHandler opens.
def realPath (server : HttpServer) (isDirectory : Bytes → Bool) (path : Bytes) : Bytes :=
  let real_path := server.buildFilePath path
  if isDirectory real_path then real_path ++ ascii "/index.html" else real_path

def setLength (resp : HttpResponse) : HttpResponse :=
  if ascii "Content-Length" ∈ resp.headers then resp
  else if resp.body ≠ [] then resp.setHeaders (ascii "Content-Length") (ascii (toString resp.body.length))
  else resp.setHeaders (ascii "Content-Length") (ascii "0")

def setType (resp : HttpResponse) : HttpResponse :=
  if resp.body ≠ [] ∧ ascii "Content-Type" ∉ resp.headers then
    resp.setHeaders (ascii "Content-Type") (ascii "application/octet-stream")
  else resp

def setLocation (resp : HttpResponse) : HttpResponse :=
  if resp.redirectFlag then resp.setHeaders (ascii "Location") resp.redirectUri else resp

-- The header fields that MakeResponse adds to the response.
def completeResponse (req : HttpRequest) (resp : HttpResponse) : HttpResponse :=
  let kept := if req.isKeepAlive then resp.setHeaders (ascii "Connection") (ascii "keep-alive")
    else resp.setHeaders (ascii "Connection") (ascii "close")
  setLocation (setType (setLength kept))

def renderResponse (platform : Platform) (req : HttpRequest) (resp : HttpResponse) : Bytes :=
  let version := if req.httpVersion = [] then ascii "HTTP/1.1" else req.httpVersion
  version ++ [32] ++ ascii (toString resp.code) ++ [32] ++ Util.getStatusDesc resp.code ++ [13,10] ++
    (platform.entries resp.headers).flatMap (fun e => e.1 ++ [58,32] ++ e.2 ++ [13,10]) ++ [13,10] ++
    (if req.method ≠ ascii "HEAD" then resp.body else [])

def isFileHandler (server : HttpServer) (platform : Platform) (req : HttpRequest) : Bool :=
  if req.method ≠ ascii "GET" ∧ req.method ≠ ascii "HEAD" then false
  else if req.path = [] ∨ Util.isValidPath req.path = false then false
  else platform.isRegular (server.realPath platform.isDirectory req.path)

def matchSegments : List Bytes → List Bytes → Dict → Option Dict
  | [],[],matched => some matched
  | pattern_segment :: pattern,path_segment :: path,matched =>
    if 1 < pattern_segment.length ∧ pattern_segment.head? = some 58 then
      matchSegments pattern path (matched.insert pattern_segment.tail (Util.urlDecode false path_segment))
    else if pattern_segment ≠ path_segment then none
    else matchSegments pattern path matched
  | _,_,_ => none

def matchRoute (pattern path : Bytes) : Option Dict :=
  let pattern_segments := Util.split pattern [47]
  let path_segments := Util.split path [47]
  if pattern_segments.length ≠ path_segments.length then none
  else matchSegments pattern_segments path_segments ∅

def fileHandler (server : HttpServer) (platform : Platform) (req : HttpRequest) (resp : HttpResponse) :
    HttpResponse :=
  if Util.isValidPath req.path = false then {resp with code := 403}
  else
    let real_path := server.realPath platform.isDirectory req.path
    if platform.isRegular real_path = false then {resp with code := 404}
    else
      match platform.readFile real_path with
      | none => {resp with code := 500}
      | some body => HttpResponse.setContent {resp with code := 200} body (Util.getMime real_path)

-- The second loop of Dispatcher: the first pattern with a parameter that matches.
def dispatchMatched (req : HttpRequest) (resp : HttpResponse) : RouteTable → HttpResponse
  | [] => {resp with code := 404}
  | route :: rest =>
    if 58 ∉ route.pattern then dispatchMatched req resp rest
    else
      match matchRoute route.pattern req.path with
      | none => dispatchMatched req resp rest
      | some params => route.cb {req with pathParams := params ∪ req.pathParams} resp

def dispatcher (req : HttpRequest) (resp : HttpResponse) (routes : RouteTable) : HttpResponse :=
  match routes.find? (fun route => route.pattern = req.path) with
  | some route => route.cb req resp
  | none => dispatchMatched req resp routes

def route (server : HttpServer) (platform : Platform) (req : HttpRequest) (resp : HttpResponse) : HttpResponse :=
  if req.path = [] then {resp with code := 400}
  else if server.isFileHandler platform req then server.fileHandler platform req resp
  else if req.method = ascii "GET" ∨ req.method = ascii "HEAD" then dispatcher req resp server.getRoutes
  else if req.method = ascii "POST" then dispatcher req resp server.postRoutes
  else if req.method = ascii "PUT" then dispatcher req resp server.putRoutes
  else if req.method = ascii "DELETE" then dispatcher req resp server.deleteRoutes
  else {resp with code := 405}

def errorHandler (resp : HttpResponse) : HttpResponse :=
  resp.setContent
    (ascii "<!DOCTYPE html><html lang='en'><head><meta charset='UTF-8'>" ++
      ascii "<meta name='viewport' content='width=device-width, initial-scale=1.0'>" ++
      ascii "<title>Error</title></head><body>" ++ ascii (toString resp.code) ++ ascii ": " ++
      Util.getStatusDesc resp.code ++ ascii "</body></html>")
    (ascii "text/html; charset=utf-8")

-- Route and what OnMessage does to its response before it is sent.
def answer (server : HttpServer) (platform : Platform) (context : HttpContext) : HttpResponse :=
  let resp := server.route platform context.request {code := context.respCode}
  completeResponse context.request (if 400 ≤ resp.code ∧ resp.body = [] then errorHandler resp else resp)

def refusal (context : HttpContext) : HttpResponse :=
  completeResponse context.request (errorHandler {code := context.respCode})

-- One turn of the loop in OnMessage per unit of fuel. ShutDown is the last
-- thing that a call does.
def onMessageLoop (server : HttpServer) (platform : Platform) :
    Nat → HttpContext → Buffer → Except Fault (List Effect × HttpContext × Buffer)
  | 0,_,_ => .error .unfinished
  | fuel+1,context,buffer => do
    let (context,buffer) ← context.recvHttpRequest buffer
    let req := context.request
    if 400 ≤ context.respCode then
      return ([.sent (renderResponse platform req (refusal context)),.shutDown],context,buffer.clear)
    else if context.status ≠ .over then return ([],context,buffer)
    else
      let resp := server.answer platform context
      let effects := [.routed req,.sent (renderResponse platform req resp)]
      if resp.isKeepAlive = false then return (effects ++ [.shutDown],context.reset,buffer)
      else if buffer.readableSize = 0 then return (effects,context.reset,buffer)
      else
        let (later,context,buffer) ← onMessageLoop server platform fuel context.reset buffer
        return (effects ++ later,context,buffer)

-- The connection's Any holds no context before the first message if OnConnect
-- was not called.
def onMessage (server : HttpServer) (platform : Platform) (context : Option HttpContext) (buffer : Buffer) :
    Except Fault (List Effect × HttpContext × Buffer) :=
  server.onMessageLoop platform (buffer.readableSize + 2) (context.getD {}) buffer

-- One connection reading: HandleRead appends what recv delivered and calls
-- OnMessage, until OnMessage asks for the shutdown.
def onReads (server : HttpServer) (platform : Platform) : Option HttpContext → Buffer → List Bytes →
    Except Fault (List Effect × Option HttpContext × Buffer)
  | context,buffer,[] => .ok ([],context,buffer)
  | context,buffer,chunk :: rest => do
    let buffer ← demand (buffer.writeAndPush chunk)
    let (effects,context,buffer) ← server.onMessage platform context buffer
    if effects.any Effect.isShutDown then return (effects,some context,buffer)
    else
      let (later,context,buffer) ← onReads server platform (some context) buffer rest
      return (effects ++ later,context,buffer)

end HttpServer
end LinuxOS.Http
