import Mathlib.Data.List.TakeWhile
import LinuxOS.Http.Stream

namespace LinuxOS.Http
open HttpContext

-- A request as a client means it. The header map is given by its entries in
-- the order in which they are sent.
structure Message where
  method : Bytes
  uri : Bytes
  headers : List (Bytes × Bytes)
  body : Bytes

namespace Message

def requestLine (m : Message) : Bytes := m.method ++ 32 :: (m.uri ++ 32 :: ascii "HTTP/1.1")

def headerLine (h : Bytes × Bytes) : Bytes := h.1 ++ [58,32] ++ h.2

def crlf (line : Bytes) : Bytes := line ++ [13,10]

def encode (m : Message) : Bytes :=
  crlf m.requestLine ++ m.headers.flatMap (fun h => crlf (headerLine h)) ++ crlf [] ++ m.body

def setAll (r : HttpRequest) (headers : List (Bytes × Bytes)) : HttpRequest :=
  headers.foldl (fun r h => r.setHeaders h.1 h.2) r

def started (m : Message) : HttpRequest :=
  parseUri {method := m.method, uri := m.uri, httpVersion := ascii "HTTP/1.1"}

def decoded (m : Message) : HttpRequest := {setAll m.started m.headers with body := m.body}

def Word (word : Bytes) : Prop := word ≠ [] ∧ 32 ∉ word ∧ 13 ∉ word ∧ 10 ∉ word

structure HeaderFormed (h : Bytes × Bytes) : Prop where
  name : ¬[58,32] <:+: h.1
  nameLine : 13 ∉ h.1 ∧ 10 ∉ h.1
  value : 13 ∉ h.2 ∧ 10 ∉ h.2
  fits : (crlf (headerLine h)).length ≤ maxLine

def Counts (digits body : Bytes) : Prop :=
  digits ≠ [] ∧ (∀ d ∈ digits, isdigit d = true) ∧ decimal digits = body.length ∧ body.length < 2147483648

structure Formed (m : Message) : Prop where
  method : Word m.method
  uri : Word m.uri
  fits : (crlf m.requestLine).length ≤ maxLine
  headers : ∀ h ∈ m.headers, HeaderFormed h
  names : (m.headers.map Prod.fst).Nodup
  connection : ∀ value, (ascii "Connection",value) ∈ m.headers → value = ascii "keep-alive"
  length : (m.body = [] ∧ ∀ value, (ascii "Content-Length",value) ∉ m.headers) ∨
    ∃ digits, (ascii "Content-Length",digits) ∈ m.headers ∧ Counts digits m.body

end Message

variable {line rest : Bytes}

theorem takeLine_lf (single : 10 ∉ line) : takeLine (line ++ 10 :: rest) = some (line ++ [10],rest) := by
  have found : (line ++ 10 :: rest).findIdx? (· == 10) = some line.length := by
    have absent : line.findIdx? (· == 10) = none := by
      rw [List.findIdx?_eq_none_iff]
      intro c member
      simp only [beq_eq_false_iff_ne]
      rintro rfl
      exact single member
    rw [List.findIdx?_append,absent]
    simp [List.findIdx?_cons]
  have length : (line ++ [10]).length = line.length + 1 := by simp
  have cut : line ++ 10 :: rest = (line ++ [10]) ++ rest := by simp
  rw [takeLine,found,Option.map_some,cut,← length,List.take_left,List.drop_left]

theorem takeLine_crlf (single : 10 ∉ line) : takeLine (Message.crlf line ++ rest) = some (Message.crlf line,rest) := by
  have ended : Message.crlf line ++ rest = (line ++ [13]) ++ 10 :: rest := by simp [Message.crlf]
  have whole : (line ++ [13]) ++ [10] = Message.crlf line := by simp [Message.crlf]
  rw [ended,takeLine_lf (by simp [single]),whole]

theorem chomp_crlf : chomp (Message.crlf line) = line := by
  have outer : popBack (Message.crlf line) 10 = line ++ [13] := by
    simp [popBack,Message.crlf,List.getLast?_append]
  rw [chomp,outer]
  simp [popBack,List.getLast?_append]

theorem find_first (cells : Bytes) (absent : c ∉ cells) : Bytes.find (cells ++ c :: rest) [c] 0 = some cells.length := by
  rw [Bytes.find,if_pos (Nat.zero_le _),List.drop_zero,Bytes.findHere_first rest absent]
  rfl

theorem find_second (front cells : Bytes) (absent : c ∉ cells) :
    Bytes.find (front ++ c :: (cells ++ c :: rest)) [c] (front.length + 1) = some (front.length + 1 + cells.length) := by
  have inside : front.length + 1 ≤ (front ++ c :: (cells ++ c :: rest)).length := by simp
  have left : (front ++ c :: (cells ++ c :: rest)).drop (front.length + 1) = cells ++ c :: rest := by
    rw [List.drop_length_add_append]
    rfl
  rw [Bytes.find,if_pos inside,left,Bytes.findHere_first rest absent]
  simp [Nat.add_comm]

theorem parseReqLine_three {req_line method uri version : Bytes} (r : HttpRequest)
    (shape : chomp req_line = method ++ 32 :: (uri ++ 32 :: version)) (oneMethod : 32 ∉ method) (oneUri : 32 ∉ uri)
    (filled : method ≠ [] ∧ uri ≠ [] ∧ version ≠ []) : parseReqLine r req_line =
      (true,parseUri {r with method := method, uri := uri, httpVersion := version}) := by
  have first : (method ++ 32 :: (uri ++ 32 :: version) : Bytes).find [32] 0 = some method.length := find_first _ oneMethod
  have second : (method ++ 32 :: (uri ++ 32 :: version) : Bytes).find [32] (method.length + 1) =
      some (method.length + 1 + uri.length) := find_second _ _ oneUri
  have front : (method ++ 32 :: (uri ++ 32 :: version)).take method.length = method := List.take_left
  have middle : (method ++ 32 :: (uri ++ 32 :: version) : Bytes).substr (method.length + 1)
      (method.length + 1 + uri.length - method.length - 1) = uri := by
    have size : method.length + 1 + uri.length - method.length - 1 = uri.length := by omega
    rw [size,Bytes.substr,List.drop_length_add_append]
    exact List.take_left
  have back : (method ++ 32 :: (uri ++ 32 :: version)).drop (method.length + 1 + uri.length + 1) = version := by
    rw [Nat.add_assoc,Nat.add_assoc,List.drop_length_add_append,Nat.add_comm 1,List.drop_succ_cons,
      List.drop_length_add_append]
    rfl
  simp only [parseReqLine,shape,first,second,front,middle,back]
  rw [if_neg (by simp [filled.1,filled.2.1,filled.2.2])]

theorem parseReqLine_encoded (r : HttpRequest) (m : Message) (method : Message.Word m.method)
    (uri : Message.Word m.uri) : parseReqLine r (Message.crlf m.requestLine) =
      (true,parseUri {r with method := m.method, uri := m.uri, httpVersion := ascii "HTTP/1.1"}) := by
  have shape : chomp (Message.crlf m.requestLine) = m.method ++ 32 :: (m.uri ++ 32 :: ascii "HTTP/1.1") := chomp_crlf
  exact parseReqLine_three r shape method.2.1 uri.2.1 ⟨method.1,uri.1,by decide⟩

theorem find_colon (name value : Bytes) (absent : ¬[58,32] <:+: name) :
    Bytes.findHere [58,32] (name ++ 58 :: 32 :: value) = some name.length := by
  induction name with
  | nil => simp [Bytes.findHere]
  | cons c name ih =>
    have later : ¬[58,32] <:+: name := fun inside => absent (inside.trans (List.suffix_cons c name).isInfix)
    have other : [58,32].isPrefixOf (c :: (name ++ 58 :: 32 :: value)) = false := by
      apply Bool.eq_false_iff.mpr
      intro starts
      cases name with
      | nil => simp at starts
      | cons d name =>
        have here : [58,32] <+: c :: d :: name := by simpa using starts
        exact absent here.isInfix
    simp [Bytes.findHere,other,ih later]

theorem parseHttpHead_encoded (r : HttpRequest) (h : Bytes × Bytes) (formed : Message.HeaderFormed h) :
    parseHttpHead r (Message.crlf (Message.headerLine h)) = some (r.setHeaders h.1 h.2) := by
  have shape : Message.headerLine h = h.1 ++ 58 :: 32 :: h.2 := by simp [Message.headerLine]
  have found : Bytes.find (Message.headerLine h) [58,32] 0 = some h.1.length := by
    rw [Bytes.find,if_pos (Nat.zero_le _),List.drop_zero,shape,find_colon _ _ formed.name]
    rfl
  have name : (Message.headerLine h).take h.1.length = h.1 := by rw [shape]; exact List.take_left
  have value : (Message.headerLine h).drop (h.1.length + 2) = h.2 := by
    rw [shape,List.drop_length_add_append]
    rfl
  simp only [parseHttpHead,chomp_crlf,found,Option.map_some,name,value]

variable {c : HttpContext} {h : Bytes × Bytes}

theorem takeHead_encoded (formed : Message.HeaderFormed h) :
    c.takeHead (Message.crlf (Message.headerLine h)) = (none,{c with request := c.request.setHeaders h.1 h.2}) := by
  have fits := formed.fits
  have notBlank : ∀ blank : Bytes, blank.length ≤ 2 → Message.crlf (Message.headerLine h) ≠ blank := by
    intro blank short same
    have length := congrArg List.length same
    simp only [Message.crlf,Message.headerLine,List.length_append,List.length_cons,List.length_nil] at length
    omega
  rw [takeHead,if_neg (by omega),if_neg,parseHttpHead_encoded _ _ formed]
  rintro (blank | blank)
  · exact notBlank _ (by simp) blank
  · exact notBlank _ (by simp) blank

theorem single_line (formed : Message.HeaderFormed h) : 10 ∉ Message.headerLine h := by
  simp [Message.headerLine,formed.nameLine.2,formed.value.2]

-- One turn of the header loop per entry, then the blank line.
theorem headOf_encoded (headers : List (Bytes × Bytes)) (formed : ∀ h ∈ headers, Message.HeaderFormed h) :
    headOf c (headers.flatMap (fun h => Message.crlf (Message.headerLine h)) ++ Message.crlf [] ++ rest) =
      bodyOf {c with request := Message.setAll c.request headers, status := .body} rest := by
  induction headers generalizing c with
  | nil =>
    have cut : takeLine (Message.crlf [] ++ rest) = some (Message.crlf [],rest) := takeLine_crlf (by simp)
    rw [List.flatMap_nil,List.nil_append,headOf_line cut]
    rfl
  | cons h headers ih =>
    have first := formed h List.mem_cons_self
    rw [List.flatMap_cons,List.append_assoc,List.append_assoc,headOf_line (takeLine_crlf (single_line first)),
      takeHead_encoded first,← List.append_assoc]
    exact ih (fun other member => formed other (List.mem_cons_of_mem _ member))

theorem setAll_frame (r : HttpRequest) (headers : List (Bytes × Bytes)) :
    Message.setAll r headers = {r with reqHeaders := (Message.setAll r headers).reqHeaders} := by
  induction headers generalizing r with
  | nil => rfl
  | cons h headers ih => exact ih _

def addAll (dict : Dict) (headers : List (Bytes × Bytes)) : Dict := headers.foldl (fun dict h => dict.insert h.1 h.2) dict

theorem addAll_absent (dict : Dict) (headers : List (Bytes × Bytes)) (absent : key ∉ headers.map Prod.fst) :
    (addAll dict headers).lookup key = dict.lookup key := by
  induction headers generalizing dict with
  | nil => rfl
  | cons h headers ih =>
    simp only [List.map_cons,List.mem_cons,not_or] at absent
    calc
      _ = (dict.insert h.1 h.2).lookup key := ih _ absent.2
      _ = _ := Finmap.lookup_insert_of_ne _ absent.1

theorem addAll_present (dict : Dict) (headers : List (Bytes × Bytes)) (unique : (headers.map Prod.fst).Nodup)
    (member : (key,value) ∈ headers) : (addAll dict headers).lookup key = some value := by
  induction headers generalizing dict with
  | nil => cases member
  | cons h headers ih =>
    simp only [List.map_cons,List.nodup_cons] at unique
    rcases List.mem_cons.mp member with equal | later
    · cases equal
      calc
        _ = (dict.insert key value).lookup key := addAll_absent _ _ unique.1
        _ = _ := Finmap.lookup_insert _
    · exact ih _ unique.2 later

theorem setAll_headers (r : HttpRequest) (headers : List (Bytes × Bytes)) :
    (Message.setAll r headers).reqHeaders = addAll r.reqHeaders headers := by
  induction headers generalizing r with
  | nil => rfl
  | cons h headers ih => exact ih _

theorem setAll_absent (r : HttpRequest) (headers : List (Bytes × Bytes)) (absent : key ∉ headers.map Prod.fst) :
    (Message.setAll r headers).reqHeaders.lookup key = r.reqHeaders.lookup key := by
  rw [setAll_headers,addAll_absent _ _ absent]

theorem setAll_present (r : HttpRequest) (headers : List (Bytes × Bytes)) (unique : (headers.map Prod.fst).Nodup)
    (member : (key,value) ∈ headers) : (Message.setAll r headers).reqHeaders.lookup key = some value := by
  rw [setAll_headers,addAll_present _ _ unique member]

theorem setPair_frame (r : HttpRequest) (kv : Bytes) : setPair r kv = {r with params := (setPair r kv).params} := by
  unfold setPair
  split
  · rfl
  · split <;> rfl

theorem parseQueryFrom_frame (query : Bytes) (fuel start : Nat) (r : HttpRequest) :
    parseQueryFrom query fuel start r = {r with params := (parseQueryFrom query fuel start r).params} := by
  induction fuel generalizing start r with
  | zero => rfl
  | succ fuel ih =>
    rw [parseQueryFrom]
    split
    · exact setPair_frame r _
    · rw [ih,setPair_frame]

theorem parseUri_frame (r : HttpRequest) : parseUri r = {r with
    path := (parseUri r).path, queryString := (parseUri r).queryString, params := (parseUri r).params} := by
  unfold parseUri
  split
  · rfl
  · rw [parseQueryString,parseQueryFrom_frame]

theorem parseReqLine_frame (r : HttpRequest) (line : Bytes) : ∃ method uri path queryString httpVersion params,
    (parseReqLine r line).2 = {r with
      method := method, uri := uri, path := path, queryString := queryString
      httpVersion := httpVersion, params := params} := by
  unfold parseReqLine
  dsimp only
  split
  · exact ⟨_,_,_,_,_,_,rfl⟩
  · split
    · exact ⟨_,_,_,_,_,_,rfl⟩
    · split
      · exact ⟨_,_,_,_,_,_,rfl⟩
      · rw [parseUri_frame]
        exact ⟨_,_,_,_,_,_,rfl⟩

theorem stoi_digits {digits body : Bytes} (counts : Message.Counts digits body) : stoi digits = .ok body.length := by
  obtain ⟨some_digit,all,value,small⟩ := counts
  cases digits with
  | nil => exact absurd rfl some_digit
  | cons d digits =>
    have first : isdigit d = true := all d List.mem_cons_self
    have range : 48 ≤ d ∧ d ≤ 57 := by simpa [isdigit] using first
    have notSpace : isspace d = false := by
      have low : ¬d ≤ 13 := fun le => absurd (UInt8.le_trans range.1 le) (by decide)
      have blank : d ≠ 32 := by rintro rfl; exact absurd range.1 (by decide)
      simp [isspace,low,blank]
    have minus : d ≠ 45 := by rintro rfl; exact absurd range.1 (by decide)
    have plus : d ≠ 43 := by rintro rfl; exact absurd range.1 (by decide)
    have whole : (d :: digits).takeWhile isdigit = d :: digits :=
      List.takeWhile_eq_self_iff.mpr all
    have fits : -2147483648 ≤ (body.length : Int) ∧ (body.length : Int) ≤ 2147483647 := by omega
    have start : (d :: digits).dropWhile isspace = d :: digits := by simp [notSpace]
    have sign : takeSign (d :: digits) = (false,d :: digits) := by simp [takeSign,minus,plus]
    simp only [stoi,start,sign,whole,value]
    simp [fits]

theorem contentLength_given {r : HttpRequest} (given : r.reqHeaders.lookup (ascii "Content-Length") = some v) :
    r.contentLength = stoi v := by
  have member : ascii "Content-Length" ∈ r.reqHeaders := Finmap.mem_iff.mpr ⟨_,given⟩
  simp [HttpRequest.contentLength,member,HttpRequest.getHeaders,given]

theorem contentLength_absent {r : HttpRequest} (absent : r.reqHeaders.lookup (ascii "Content-Length") = none) :
    r.contentLength = .ok 0 := by
  have missing : ascii "Content-Length" ∉ r.reqHeaders := Finmap.lookup_eq_none.mp absent
  simp [HttpRequest.contentLength,missing]

theorem absent_name {headers : List (Bytes × Bytes)} (absent : ∀ value, (key,value) ∉ headers) :
    key ∉ headers.map Prod.fst := by
  intro member
  obtain ⟨h,inside,equal⟩ := List.mem_map.mp member
  exact absent h.2 (by rw [← equal]; exact inside)

theorem bodyOf_encoded (m : Message) (formed : m.Formed) (r : HttpRequest) (empty : r.body = [])
    (noHeader : r.reqHeaders = ∅) (headers : c.request = Message.setAll r m.headers) :
    bodyOf c (m.body ++ rest) = .ok ({c with request := {c.request with body := m.body}, status := .over},rest) := by
  have none_yet : c.request.body = [] := by rw [headers,setAll_frame]; exact empty
  rcases formed.length with ⟨noBody,absent⟩ | ⟨digits,member,counts⟩
  · have length : c.request.contentLength = .ok 0 := by
      apply contentLength_absent
      rw [headers,setAll_absent _ _ (absent_name absent),noHeader]
      rfl
    rw [bodyOf,length,noBody,Except.map,takeBody_ended (.inl rfl),List.nil_append,← none_yet]
  · have length : c.request.contentLength = .ok m.body.length := by
      rw [contentLength_given (v := digits),stoi_digits counts]
      rw [headers]
      exact setAll_present _ _ formed.names member
    rw [bodyOf,length,Except.map]
    by_cases zero : m.body.length = 0
    · have noBody : m.body = [] := List.eq_nil_of_length_eq_zero zero
      rw [takeBody_ended (.inl (by rw [zero]; rfl)),noBody,List.nil_append,← none_yet]
    · have pending : ¬((m.body.length : Int) = 0 ∨ (m.body.length : Int) - c.request.body.length ≤ 0) := by
        rw [none_yet]
        simp only [List.length_nil]
        omega
      have need : ((m.body.length : Int) - c.request.body.length).toNat = m.body.length := by simp [none_yet]
      rw [takeBody_enough pending (by rw [need,List.length_append]; omega),need,List.take_left,List.drop_left]
      simp [addBody,none_yet]

theorem requestLine_single {m : Message} (formed : m.Formed) : 10 ∉ m.requestLine := by
  have version : 10 ∉ ascii "HTTP/1.1" := by decide
  simp [Message.requestLine,formed.method.2.2.2,formed.uri.2.2.2,version]

theorem parse_encoded (m : Message) (formed : m.Formed) (rest : Bytes) :
    parse {} (m.encode ++ rest) = .ok ({status := .over, request := m.decoded},rest) := by
  have cut : takeLine (m.encode ++ rest) = some (Message.crlf m.requestLine,
      m.headers.flatMap (fun h => Message.crlf (Message.headerLine h)) ++ Message.crlf [] ++ (m.body ++ rest)) := by
    have shape : m.encode ++ rest = Message.crlf m.requestLine ++
        (m.headers.flatMap (fun h => Message.crlf (Message.headerLine h)) ++ Message.crlf [] ++ (m.body ++ rest)) := by
      simp [Message.encode]
    rw [shape]
    exact takeLine_crlf (requestLine_single formed)
  have taken : parseReqLine {} (Message.crlf m.requestLine) = (true,m.started) :=
    parseReqLine_encoded {} m formed.method formed.uri
  have noBody : m.started.body = [] := by rw [Message.started,parseUri_frame]
  have noHeader : m.started.reqHeaders = ∅ := by rw [Message.started,parseUri_frame]
  have fits := formed.fits
  have line : takeReqLine {} (Message.crlf m.requestLine) = (true,{status := .head, request := m.started}) := by
    rw [takeReqLine,if_neg (by omega),taken]
  show lineOf {} (m.encode ++ rest) = _
  simp only [lineOf,cut,line]
  rw [headOf_encoded m.headers formed.headers,bodyOf_encoded m formed _ noBody noHeader rfl]
  rfl

end LinuxOS.Http
