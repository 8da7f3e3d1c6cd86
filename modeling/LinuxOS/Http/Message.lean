import Mathlib.Data.Finmap
import LinuxOS.Http.Util

namespace LinuxOS.Http

-- std::unordered_map from strings to strings.
abbrev Dict := Finmap fun _ : Bytes => Bytes

-- What ends a call abnormally: a Buffer assertion, the two exceptions of
-- std::stoi; or, in the model only, loop fuel that was too small.
inductive Fault where
  | assertion | invalidArgument | outOfRange | unfinished
  deriving DecidableEq, Repr

def demand : Option α → Except Fault α
  | some value => .ok value
  | none => .error .assertion

def isdigit (c : UInt8) : Bool := 48 ≤ c ∧ c ≤ 57

def decimal (digits : Bytes) : Nat := digits.foldl (fun value c => 10 * value + (c.toNat - 48)) 0

def takeSign : Bytes → Bool × Bytes
  | 45 :: rest => (true,rest)
  | 43 :: rest => (false,rest)
  | body => (false,body)

-- strtol in base 10, then the range of int.
def stoi (str : Bytes) : Except Fault Int :=
  let (negative,body) := takeSign (str.dropWhile isspace)
  let digits := body.takeWhile isdigit
  if digits = [] then .error .invalidArgument
  else
    let value : Int := if negative then -decimal digits else decimal digits
    if -2147483648 ≤ value ∧ value ≤ 2147483647 then .ok value else .error .outOfRange

structure HttpRequest where
  method : Bytes := []
  uri : Bytes := []
  path : Bytes := []
  queryString : Bytes := []
  httpVersion : Bytes := []
  body : Bytes := []
  params : Dict := ∅
  pathParams : Dict := ∅
  reqHeaders : Dict := ∅
  deriving DecidableEq

namespace HttpRequest

def setHeaders (r : HttpRequest) (key val : Bytes) : HttpRequest :=
  {r with reqHeaders := r.reqHeaders.insert key val}

def getHeaders (r : HttpRequest) (key : Bytes) : Bytes := (r.reqHeaders.lookup key).getD []

def setParams (r : HttpRequest) (key val : Bytes) : HttpRequest :=
  {r with params := r.params.insert key val}

def setPathParam (r : HttpRequest) (key val : Bytes) : HttpRequest :=
  {r with pathParams := r.pathParams.insert key val}

def contentLength (r : HttpRequest) : Except Fault Int :=
  if ascii "Content-Length" ∈ r.reqHeaders then stoi (r.getHeaders (ascii "Content-Length")) else .ok 0

def isKeepAlive (r : HttpRequest) : Bool :=
  if ascii "Connection" ∈ r.reqHeaders then r.getHeaders (ascii "Connection") = ascii "keep-alive"
  else r.httpVersion = ascii "HTTP/1.1"

end HttpRequest

structure HttpResponse where
  code : Int := 200
  headers : Dict := ∅
  body : Bytes := []
  redirectFlag : Bool := false
  redirectUri : Bytes := []

namespace HttpResponse

def setHeaders (r : HttpResponse) (key val : Bytes) : HttpResponse :=
  {r with headers := r.headers.insert key val}

def getHeaders (r : HttpResponse) (key : Bytes) : Bytes := (r.headers.lookup key).getD []

def setContent (r : HttpResponse) (body type : Bytes) : HttpResponse :=
  setHeaders {r with body := body} (ascii "Content-Type") type

def isKeepAlive (r : HttpResponse) : Bool :=
  ascii "Connection" ∈ r.headers ∧ r.getHeaders (ascii "Connection") = ascii "keep-alive"

end HttpResponse
end LinuxOS.Http
