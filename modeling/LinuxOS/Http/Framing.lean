import Mathlib.Data.Finset.Sort
import Mathlib.Data.List.Lex
import LinuxOS.Http.Encoding
import LinuxOS.Http.Server

namespace LinuxOS.Http
open HttpContext

-- One call of MakeResponse. The map is walked anew for each response, so each
-- call has its own platform.
structure Exchange where
  platform : Platform
  req : HttpRequest
  resp : HttpResponse

def HttpServer.makeResponse (platform : Platform) (req : HttpRequest) (resp : HttpResponse) : Bytes :=
  renderResponse platform req (completeResponse req resp)

-- std::unordered_map visits every entry once, in an order of its own.
def Platform.Walks (platform : Platform) : Prop :=
  ∀ dict : Dict, ((platform.entries dict).map Prod.fst).Nodup ∧
    ∀ key value, (key,value) ∈ platform.entries dict ↔ dict.lookup key = some value

structure Received where
  version : Bytes
  code : Int
  headers : Dict
  body : Bytes

def readNat (digits : Bytes) : Option Nat :=
  if digits = [] then none else if digits.all isdigit then some (decimal digits) else none

def readInt (text : Bytes) : Option Int :=
  let (negative,digits) := takeSign text
  (readNat digits).map fun value : Nat => if negative then -(value : Int) else value

-- The status line is cut at its first two blanks, a header line at its first
-- colon, before which there has to be a name.
def readStatus (line : Bytes) : Option (Bytes × Int) :=
  match line.find [32] 0 with
  | none => none
  | some first =>
    match line.find [32] (first + 1) with
    | none => none
    | some second => (readInt (line.substr (first + 1) (second - first - 1))).map fun code => (line.take first,code)

def readField (line : Bytes) : Option (Bytes × Bytes) :=
  match line.find [58] 0 with
  | none | some 0 => none
  | some (before+1) => some (line.take (before + 1),line.drop (before + 3))

def readFields (dict : Dict) (x : Bytes) : Option (Dict × Bytes) :=
  match _cut : takeLine x with
  | none => none
  | some (line,rest) =>
    if chomp line = [] then some (dict,rest)
    else
      match readField (chomp line) with
      | none => none
      | some (name,value) => readFields (dict.insert name value) rest
termination_by x.length
decreasing_by exact takeLine_shorter _cut

-- The answer to a HEAD request ends with its blank line.
def readBody (head : Bool) (headers : Dict) (x : Bytes) : Option (Bytes × Bytes) :=
  if head then some ([],x)
  else
    match (headers.lookup (ascii "Content-Length")).bind readNat with
    | none => none
    | some length => if length ≤ x.length then some (x.take length,x.drop length) else none

def readResponse (head : Bool) (x : Bytes) : Option (Received × Bytes) := do
  let (line,x) ← takeLine x
  let (version,code) ← readStatus (chomp line)
  let (headers,x) ← readFields ∅ x
  let (body,x) ← readBody head headers x
  return ({version := version, code := code, headers := headers, body := body},x)

def readResponses : List Bool → Bytes → Option (List Received × Bytes)
  | [],x => some ([],x)
  | head :: heads,x => do
    let (received,x) ← readResponse head x
    let (later,x) ← readResponses heads x
    return (received :: later,x)

namespace Exchange

def payload (e : Exchange) : Bytes := HttpServer.makeResponse e.platform e.req e.resp
def isHead (e : Exchange) : Bool := e.req.method = ascii "HEAD"
def version (e : Exchange) : Bytes := if e.req.httpVersion = [] then ascii "HTTP/1.1" else e.req.httpVersion

def field (e : Exchange) (name : Bytes) : Option Bytes :=
  if name = ascii "Location" ∧ e.resp.redirectFlag then some e.resp.redirectUri
  else if name = ascii "Content-Type" ∧ name ∉ e.resp.headers ∧ e.resp.body ≠ [] then
    some (ascii "application/octet-stream")
  else if name = ascii "Content-Length" then some (ascii (toString e.resp.body.length))
  else if name = ascii "Connection" then some (ascii (if e.req.isKeepAlive then "keep-alive" else "close"))
  else e.resp.headers.lookup name

structure Splits (e : Exchange) (r : Received) : Prop where
  version : r.version = e.version
  code : r.code = e.resp.code
  headers : ∀ name, r.headers.lookup name = e.field name
  body : r.body = if e.isHead then [] else e.resp.body

abbrev OneLine (text : Bytes) : Prop := 13 ∉ text ∧ 10 ∉ text
abbrev FieldName (name : Bytes) : Prop := name ≠ [] ∧ 58 ∉ name ∧ OneLine name

structure Formed (e : Exchange) : Prop where
  walks : e.platform.Walks
  version : 32 ∉ e.req.httpVersion ∧ OneLine e.req.httpVersion
  names : ∀ name ∈ e.resp.headers, FieldName name
  values : ∀ name value, e.resp.headers.lookup name = some value → OneLine value
  noLength : ascii "Content-Length" ∉ e.resp.headers
  location : e.resp.redirectFlag = true → OneLine e.resp.redirectUri

end Exchange

theorem digit_ascii (c : Char) (digit : c.isDigit = true) :
    (UInt8.ofNat c.toNat).toNat = c.toNat ∧ 48 ≤ c.toNat ∧ c.toNat ≤ 57 := by
  have range : 48 ≤ c.toNat ∧ c.toNat ≤ 57 := by simpa [Char.isDigit,UInt32.le_iff_toNat_le] using digit
  refine ⟨?_,range⟩
  rw [UInt8.toNat_ofNat']
  omega

theorem decimal_digits (digits : List Char) (all : ∀ c ∈ digits, c.isDigit = true) :
    decimal (digits.map fun c => UInt8.ofNat c.toNat) = Nat.ofDigitChars 10 digits 0 := by
  rw [decimal,List.foldl_map,Nat.ofDigitChars]
  apply List.foldl_ext
  intro value c member
  have same := digit_ascii c (all c member)
  simp [same.1]

theorem toDigits_digits (n : Nat) : ∀ c ∈ Nat.toDigits 10 n, c.isDigit = true :=
  fun _ member => Nat.isDigit_of_mem_toDigits (by decide) (by decide) member

theorem ascii_nat (n : Nat) : ascii (toString n) = (Nat.toDigits 10 n).map fun c => UInt8.ofNat c.toNat := by
  rw [ascii,Nat.toString_eq_repr,Nat.toList_repr]

theorem ascii_nat_digits (n : Nat) : ∀ d ∈ ascii (toString n), isdigit d = true := by
  intro d member
  rw [ascii_nat] at member
  obtain ⟨c,inside,rfl⟩ := List.mem_map.mp member
  have range := digit_ascii c (toDigits_digits n c inside)
  simp only [isdigit,UInt8.le_iff_toNat_le,range.1]
  simpa using range.2

theorem ascii_nat_some (n : Nat) : ascii (toString n) ≠ [] := by
  rw [ascii_nat]
  simp [Nat.toDigits_ne_nil]

theorem readNat_toString (n : Nat) : readNat (ascii (toString n)) = some n := by
  have value : decimal (ascii (toString n)) = n := by
    rw [ascii_nat,decimal_digits _ (toDigits_digits n),Nat.ofDigitChars_ten_toDigits]
  rw [readNat,if_neg (ascii_nat_some n),if_pos (List.all_eq_true.mpr (ascii_nat_digits n)),value]

theorem digit_plain (digit : isdigit c = true) : c ≠ 45 ∧ c ≠ 43 ∧ c ≠ 32 ∧ c ≠ 13 ∧ c ≠ 10 := by
  refine ⟨?_,?_,?_,?_,?_⟩
  all_goals
    rintro rfl
    revert digit
    decide

theorem takeSign_digits (n : Nat) : takeSign (ascii (toString n)) = (false,ascii (toString n)) := by
  cases digits : ascii (toString n) with
  | nil => exact absurd digits (ascii_nat_some n)
  | cons d rest =>
    have first := digit_plain (ascii_nat_digits n d (by rw [digits]; exact List.mem_cons_self))
    simp [takeSign,first.1,first.2.1]

theorem ascii_int (i : Int) :
    ascii (toString i) = if i < 0 then 45 :: ascii (toString i.natAbs) else ascii (toString i.natAbs) := by
  rw [Int.toString_eq_repr,Int.repr_eq_if,Nat.toString_eq_repr]
  by_cases negative : i < 0
  · have size : (-i).toNat = i.natAbs := by omega
    rw [if_neg (by omega),if_pos negative,size,ascii,String.toList_append]
    rfl
  · have size : i.toNat = i.natAbs := by omega
    rw [if_pos (by omega),if_neg negative,size]

theorem readInt_toString (i : Int) : readInt (ascii (toString i)) = some i := by
  rw [ascii_int]
  by_cases negative : i < 0
  · have value : -(i.natAbs : Int) = i := by omega
    simp only [if_pos negative,readInt,takeSign,readNat_toString,Option.map_some,if_true,value]
  · have value : (i.natAbs : Int) = i := by omega
    simp only [if_neg negative,readInt,takeSign_digits,readNat_toString,Option.map_some,Bool.false_eq_true,if_false,value]

theorem ascii_int_word (i : Int) : 32 ∉ ascii (toString i) ∧ 10 ∉ ascii (toString i) := by
  have plain : ∀ n : Nat, 32 ∉ ascii (toString n) ∧ 10 ∉ ascii (toString n) := by
    intro n
    exact ⟨fun member => (digit_plain (ascii_nat_digits n _ member)).2.2.1 rfl,
      fun member => (digit_plain (ascii_nat_digits n _ member)).2.2.2.2 rfl⟩
  rw [ascii_int]
  split
  · simpa using plain i.natAbs
  · exact plain i.natAbs

theorem readStatus_rendered (version desc : Bytes) (code : Int) (word : 32 ∉ version) :
    readStatus (version ++ 32 :: (ascii (toString code) ++ 32 :: desc)) = some (version,code) := by
  have first : (version ++ 32 :: (ascii (toString code) ++ 32 :: desc)).find [32] 0 = some version.length :=
    find_first version word
  have second : (version ++ 32 :: (ascii (toString code) ++ 32 :: desc)).find [32] (version.length + 1) =
      some (version.length + 1 + (ascii (toString code)).length) := find_second version _ (ascii_int_word code).1
  have size : version.length + 1 + (ascii (toString code)).length - version.length - 1 =
      (ascii (toString code)).length := by omega
  have middle : (version ++ 32 :: (ascii (toString code) ++ 32 :: desc)).substr (version.length + 1)
      (ascii (toString code)).length = ascii (toString code) := by
    rw [Bytes.substr,List.drop_length_add_append]
    exact List.take_left
  simp only [readStatus,first,second,size,middle,readInt_toString,Option.map_some,List.take_left]

theorem readField_rendered (h : Bytes × Bytes) (named : h.1 ≠ []) (plain : 58 ∉ h.1) :
    readField (Message.headerLine h) = some h := by
  have shape : Message.headerLine h = h.1 ++ 58 :: 32 :: h.2 := by simp [Message.headerLine]
  have colon : (h.1 ++ 58 :: 32 :: h.2).find [58] 0 = some h.1.length := find_first _ plain
  obtain ⟨before,length⟩ := Nat.exists_eq_succ_of_ne_zero (mt List.eq_nil_of_length_eq_zero named)
  have name : (h.1 ++ 58 :: 32 :: h.2).take (before + 1) = h.1 := List.take_left' length
  have value : (h.1 ++ 58 :: 32 :: h.2).drop (before + 3) = h.2 := by
    rw [show before + 3 = h.1.length + 2 by omega,List.drop_length_add_append]
    rfl
  rw [length] at colon
  rw [readField,shape]
  simp only [colon,name,value]

theorem readFields_line (cut : takeLine x = some (line,rest)) : readFields dict x =
    if chomp line = [] then some (dict,rest)
    else
      match readField (chomp line) with
      | none => none
      | some (name,value) => readFields (dict.insert name value) rest := by
  rw [readFields]
  split
  · rename_i missing; rw [cut] at missing; cases missing
  · rename_i found
    rw [cut] at found
    cases found
    rfl

def EntryFormed (h : Bytes × Bytes) : Prop := Exchange.FieldName h.1 ∧ Exchange.OneLine h.2

theorem readFields_rendered (dict : Dict) (headers : List (Bytes × Bytes)) (rest : Bytes)
    (formed : ∀ h ∈ headers, EntryFormed h) :
    readFields dict (headers.flatMap (fun h => Message.crlf (Message.headerLine h)) ++ Message.crlf [] ++ rest) =
      some (addAll dict headers,rest) := by
  induction headers generalizing dict with
  | nil =>
    have cut : takeLine (Message.crlf [] ++ rest) = some (Message.crlf [],rest) := takeLine_crlf (by simp)
    rw [List.flatMap_nil,List.nil_append,readFields_line cut,chomp_crlf,if_pos rfl]
    rfl
  | cons h headers ih =>
    have first := formed h List.mem_cons_self
    have single : 10 ∉ Message.headerLine h := by simp [Message.headerLine,first.1.2.2.2,first.2.2]
    have notBlank : Message.headerLine h ≠ [] := by simp [Message.headerLine]
    rw [List.flatMap_cons,List.append_assoc,List.append_assoc,readFields_line (takeLine_crlf single),chomp_crlf,
      if_neg notBlank,readField_rendered h first.1.1 first.1.2.1,← List.append_assoc]
    exact ih _ (fun other member => formed other (List.mem_cons_of_mem _ member))

theorem addAll_entries (platform : Platform) (walks : platform.Walks) (dict : Dict) :
    addAll ∅ (platform.entries dict) = dict := by
  obtain ⟨unique,exact⟩ := walks dict
  apply Finmap.ext_lookup
  intro key
  cases held : dict.lookup key with
  | some value => exact addAll_present _ _ unique ((exact key value).mpr held)
  | none =>
    have absent : key ∉ (platform.entries dict).map Prod.fst := by
      apply absent_name
      intro value member
      rw [(exact key value).mp member] at held
      cases held
    rw [addAll_absent _ _ absent]
    exact Finmap.lookup_empty key

theorem setHeaders_lookup (resp : HttpResponse) (key value name : Bytes) :
    (resp.setHeaders key value).headers.lookup name = if name = key then some value else resp.headers.lookup name := by
  split
  · rename_i same
    rw [same]
    exact Finmap.lookup_insert _
  · rename_i other
    exact Finmap.lookup_insert_of_ne _ other

open HttpServer

theorem setLength_lookup (resp : HttpResponse) (absent : ascii "Content-Length" ∉ resp.headers) (name : Bytes) :
    (setLength resp).headers.lookup name =
      if name = ascii "Content-Length" then some (ascii (toString resp.body.length)) else resp.headers.lookup name := by
  have zero : resp.body = [] → ascii "0" = ascii (toString resp.body.length) := by intro empty; rw [empty]; rfl
  rw [setLength,if_neg absent]
  split
  · exact setHeaders_lookup ..
  · rename_i empty
    rw [zero (not_not.mp empty)]
    exact setHeaders_lookup ..

theorem setType_lookup (resp : HttpResponse) (name : Bytes) : (setType resp).headers.lookup name =
    if name = ascii "Content-Type" ∧ name ∉ resp.headers ∧ resp.body ≠ [] then
      some (ascii "application/octet-stream")
    else resp.headers.lookup name := by
  unfold setType
  split
  · rename_i missing
    rw [setHeaders_lookup]
    by_cases same : name = ascii "Content-Type"
    · subst same
      rw [if_pos rfl,if_pos ⟨rfl,missing.2,missing.1⟩]
    · rw [if_neg same,if_neg (fun given => same given.1)]
  · rename_i present
    rw [if_neg]
    rintro ⟨rfl,absent,some_body⟩
    exact present ⟨some_body,absent⟩

theorem setLocation_lookup (resp : HttpResponse) (name : Bytes) : (setLocation resp).headers.lookup name =
    if name = ascii "Location" ∧ resp.redirectFlag then some resp.redirectUri else resp.headers.lookup name := by
  unfold setLocation
  split
  · rename_i redirect
    simp only [setHeaders_lookup,redirect,and_true]
  · rename_i plain
    rw [if_neg (fun given => plain given.2)]

theorem setLength_frame (resp : HttpResponse) : setLength resp = {resp with headers := (setLength resp).headers} := by
  unfold setLength
  split
  · rfl
  · split <;> rfl

theorem setType_frame (resp : HttpResponse) : setType resp = {resp with headers := (setType resp).headers} := by
  unfold setType
  split <;> rfl

theorem setLocation_frame (resp : HttpResponse) :
    setLocation resp = {resp with headers := (setLocation resp).headers} := by
  unfold setLocation
  split <;> rfl

theorem completeResponse_steps (req : HttpRequest) (resp : HttpResponse) : completeResponse req resp =
    setLocation (setType (setLength
      (resp.setHeaders (ascii "Connection") (ascii (if req.isKeepAlive then "keep-alive" else "close"))))) := by
  unfold completeResponse
  split <;> rfl

theorem completeResponse_frame (req : HttpRequest) (resp : HttpResponse) :
    completeResponse req resp = {resp with headers := (completeResponse req resp).headers} := by
  rw [completeResponse_steps,setLocation_frame,setType_frame,setLength_frame]
  rfl

theorem completeResponse_lookup (e : Exchange) (noLength : ascii "Content-Length" ∉ e.resp.headers) (name : Bytes) :
    (completeResponse e.req e.resp).headers.lookup name = e.field name := by
  obtain ⟨kept,defined⟩ : ∃ kept, kept = e.resp.setHeaders (ascii "Connection")
      (ascii (if e.req.isKeepAlive then "keep-alive" else "close")) := ⟨_,rfl⟩
  have connection : ∀ name, kept.headers.lookup name = if name = ascii "Connection" then
      some (ascii (if e.req.isKeepAlive then "keep-alive" else "close")) else e.resp.headers.lookup name := by
    intro name
    rw [defined]
    exact setHeaders_lookup ..
  have frame : kept = {e.resp with headers := kept.headers} := by rw [defined]; rfl
  have others : ascii "Content-Length" ≠ ascii "Connection" ∧ ascii "Content-Type" ≠ ascii "Connection" ∧
    ascii "Content-Type" ≠ ascii "Content-Length" := by decide
  have absent : ascii "Content-Length" ∉ kept.headers := by
    rw [← Finmap.lookup_eq_none] at noLength ⊢
    rw [connection,if_neg others.1,noLength]
  have type : name = ascii "Content-Type" ∧ name ∉ (setLength kept).headers ∧ e.resp.body ≠ [] ↔
      name = ascii "Content-Type" ∧ name ∉ e.resp.headers ∧ e.resp.body ≠ [] := by
    refine and_congr_right ?_
    rintro rfl
    rw [← Finmap.lookup_eq_none,← Finmap.lookup_eq_none,setLength_lookup _ absent,if_neg others.2.2,
      connection,if_neg others.2.1]
  have length : kept.body = e.resp.body ∧ (setLength kept).body = e.resp.body := by
    rw [setLength_frame,frame]
    exact ⟨rfl,rfl⟩
  have redirect : (setType (setLength kept)).redirectFlag = e.resp.redirectFlag ∧
      (setType (setLength kept)).redirectUri = e.resp.redirectUri := by
    rw [setType_frame,setLength_frame,frame]
    exact ⟨rfl,rfl⟩
  rw [completeResponse_steps,← defined,setLocation_lookup,redirect.1,redirect.2,setType_lookup,length.2,
    setLength_lookup _ absent,length.1,connection,Exchange.field]
  simp only [type]

theorem ascii_nat_line (n : Nat) : Exchange.OneLine (ascii (toString n)) :=
  ⟨fun member => (digit_plain (ascii_nat_digits n _ member)).2.2.2.1 rfl,
    fun member => (digit_plain (ascii_nat_digits n _ member)).2.2.2.2 rfl⟩

-- Also the fields that MakeResponse writes itself keep to their lines.
theorem field_formed (e : Exchange) (formed : e.Formed) (found : e.field name = some value) :
    EntryFormed (name,value) := by
  have own : ∀ text ∈ ["Location","Content-Type","Content-Length","Connection"], Exchange.FieldName (ascii text) := by
    decide
  have texts : ∀ text ∈ ["application/octet-stream","keep-alive","close"], Exchange.OneLine (ascii text) := by decide
  unfold Exchange.field at found
  split at found
  · rename_i location
    obtain ⟨rfl,redirect⟩ := location
    cases found
    exact ⟨own "Location" (by simp),formed.location redirect⟩
  · split at found
    · rename_i type
      obtain ⟨rfl,_⟩ := type
      cases found
      exact ⟨own "Content-Type" (by simp),texts "application/octet-stream" (by simp)⟩
    · split at found
      · subst name
        cases found
        exact ⟨own "Content-Length" (by simp),ascii_nat_line _⟩
      · split at found
        · subst name
          cases found
          refine ⟨own "Connection" (by simp),texts _ ?_⟩
          split <;> simp
        · exact ⟨formed.names name (Finmap.mem_iff.mpr ⟨_,found⟩),formed.values _ _ found⟩

theorem getStatusDesc_single (code : Int) : 10 ∉ Util.getStatusDesc code := by
  have table : ∀ entry ∈ kHttpStatusText, 10 ∉ ascii entry.2 := by decide +kernel
  unfold Util.getStatusDesc
  cases found : kHttpStatusText.lookup code with
  | none => decide
  | some desc =>
    obtain ⟨front,back,split,_⟩ := List.lookup_eq_some_iff.mp found
    exact table (code,desc) (by rw [split]; simp)

theorem payload_lines (e : Exchange) : e.payload =
    Message.crlf (e.version ++ 32 :: (ascii (toString e.resp.code) ++ 32 :: Util.getStatusDesc e.resp.code)) ++
      ((e.platform.entries (completeResponse e.req e.resp).headers).flatMap
          (fun h => Message.crlf (Message.headerLine h)) ++
        Message.crlf [] ++ (if e.isHead then [] else e.resp.body)) := by
  have frame := completeResponse_frame e.req e.resp
  have code : (completeResponse e.req e.resp).code = e.resp.code := by rw [frame]
  have body : (completeResponse e.req e.resp).body = e.resp.body := by rw [frame]
  rw [Exchange.payload,makeResponse,renderResponse,code,body]
  by_cases head : e.req.method = ascii "HEAD"
  · simp [Exchange.version,Exchange.isHead,head,Message.crlf,Message.headerLine]
  · simp [Exchange.version,Exchange.isHead,head,Message.crlf,Message.headerLine]

theorem readBody_rendered (e : Exchange) (headers : Dict) (rest : Bytes)
    (length : headers.lookup (ascii "Content-Length") = some (ascii (toString e.resp.body.length))) :
    readBody e.isHead headers ((if e.isHead then [] else e.resp.body) ++ rest) =
      some (if e.isHead then [] else e.resp.body,rest) := by
  cases e.isHead with
  | true => rfl
  | false =>
    have enough : e.resp.body.length ≤ (e.resp.body ++ rest).length := by simp
    simp only [readBody,length,Option.bind_some,readNat_toString,Bool.false_eq_true,if_false,if_pos enough,
      List.take_left,List.drop_left]

theorem readResponse_payload (e : Exchange) (formed : e.Formed) (rest : Bytes) :
    ∃ received, readResponse e.isHead (e.payload ++ rest) = some (received,rest) ∧ e.Splits received := by
  have fields := completeResponse_lookup e formed.noLength
  have version : 32 ∉ e.version ∧ 10 ∉ e.version := by
    unfold Exchange.version
    split
    · decide
    · exact ⟨formed.version.1,formed.version.2.2⟩
  have single : 10 ∉ e.version ++ 32 :: (ascii (toString e.resp.code) ++ 32 :: Util.getStatusDesc e.resp.code) := by
    simp only [List.mem_append,List.mem_cons,version.2,(ascii_int_word e.resp.code).2,getStatusDesc_single,or_false]
    decide
  have entries : ∀ h ∈ e.platform.entries (completeResponse e.req e.resp).headers, EntryFormed h := by
    intro h member
    apply field_formed e formed
    rw [← fields]
    exact ((formed.walks _).2 h.1 h.2).mp member
  have length : (completeResponse e.req e.resp).headers.lookup (ascii "Content-Length") =
      some (ascii (toString e.resp.body.length)) := by
    have others : ascii "Content-Length" ≠ ascii "Location" ∧ ascii "Content-Length" ≠ ascii "Content-Type" := by decide
    rw [fields,Exchange.field,if_neg (fun same => others.1 same.1),if_neg (fun same => others.2 same.1),if_pos rfl]
  refine ⟨⟨e.version,e.resp.code,(completeResponse e.req e.resp).headers,if e.isHead then [] else e.resp.body⟩,?_,
    rfl,rfl,fields,rfl⟩
  rw [payload_lines,List.append_assoc,List.append_assoc]
  simp only [readResponse,takeLine_crlf single,chomp_crlf,readStatus_rendered _ _ _ version.1,
    readFields_rendered _ _ _ entries,addAll_entries _ formed.walks,readBody_rendered e _ _ length,
    bind,Option.bind_some]
  rfl

theorem readResponses_payloads (exchanges : List Exchange) (formed : ∀ e ∈ exchanges, e.Formed) (rest : Bytes) :
    ∃ received, readResponses (exchanges.map Exchange.isHead) (exchanges.flatMap Exchange.payload ++ rest) =
      some (received,rest) ∧ List.Forall₂ Exchange.Splits exchanges received := by
  induction exchanges with
  | nil => exact ⟨[],rfl,.nil⟩
  | cons e exchanges ih =>
    obtain ⟨later,read,splits⟩ := ih (fun other member => formed other (List.mem_cons_of_mem _ member))
    obtain ⟨first,taken,split⟩ := readResponse_payload e (formed e List.mem_cons_self)
      (exchanges.flatMap Exchange.payload ++ rest)
    refine ⟨first :: later,?_,.cons split splits⟩
    rw [List.map_cons,List.flatMap_cons,List.append_assoc]
    simp only [readResponses,taken,read,bind,Option.bind_some]
    rfl

theorem responses_split (exchanges : List Exchange) (formed : ∀ e ∈ exchanges, e.Formed) :
    ∃ received, readResponses (exchanges.map Exchange.isHead) (exchanges.flatMap Exchange.payload) =
      some (received,[]) ∧ List.Forall₂ Exchange.Splits exchanges received := by
  have read := readResponses_payloads exchanges formed []
  rwa [List.append_nil] at read

def sortedDisk : Platform where
  isDirectory _ := false
  isRegular _ := false
  readFile _ := none
  entries dict := dict.keys.sort.filterMap fun key => (dict.lookup key).map fun value => (key,value)

theorem sortedDisk_walks : sortedDisk.Walks := by
  intro dict
  constructor
  · show ((dict.keys.sort.filterMap fun key => (dict.lookup key).map fun value => (key,value)).map Prod.fst).Nodup
    rw [List.map_filterMap]
    apply (Finset.sort_nodup dict.keys _).filterMap
    intro key other name first second
    simp only [Option.map_map,Option.mem_def,Option.map_eq_some_iff,Function.comp] at first second
    obtain ⟨_,_,rfl⟩ := first
    obtain ⟨_,_,same⟩ := second
    exact same.symm
  · intro key value
    simp only [sortedDisk,List.mem_filterMap,Finset.mem_sort,Option.map_eq_some_iff,Prod.mk.injEq]
    constructor
    · rintro ⟨_,_,_,held,rfl,rfl⟩
      exact held
    · intro held
      exact ⟨key,Finmap.mem_keys.mpr (Finmap.mem_iff.mpr ⟨_,held⟩),value,held,rfl,rfl⟩

-- A body that looks like the next response, then the same page for HEAD.
def page : HttpResponse where
  headers := Finmap.singleton (ascii "Server") (ascii "muduo: 1")
  body := ascii "HTTP/1.1 200 OK\r\n\r\n"

def visits : List Exchange := [⟨sortedDisk,{method := ascii "GET", httpVersion := ascii "HTTP/1.1"},page⟩,
  ⟨sortedDisk,{method := ascii "HEAD"},{page with code := -7, redirectFlag := true, redirectUri := ascii "/"}⟩]

theorem page_header (found : page.headers.lookup name = some value) :
    name = ascii "Server" ∧ value = ascii "muduo: 1" := by
  have member : name = ascii "Server" := (Finmap.mem_singleton _ _ _).mp (Finmap.mem_iff.mpr ⟨_,found⟩)
  subst member
  have held : page.headers.lookup (ascii "Server") = some (ascii "muduo: 1") := Finmap.lookup_singleton_eq
  exact ⟨rfl,Option.some.inj (found.symm.trans held)⟩

theorem page_formed (req : HttpRequest) (resp : HttpResponse) (headers : resp.headers = page.headers)
    (version : 32 ∉ req.httpVersion ∧ Exchange.OneLine req.httpVersion) (location : Exchange.OneLine resp.redirectUri) :
    Exchange.Formed ⟨sortedDisk,req,resp⟩ where
  walks := sortedDisk_walks
  version := version
  names := by
    intro name member
    rw [headers] at member
    obtain ⟨value,found⟩ := Finmap.mem_iff.mp member
    rw [(page_header found).1]
    decide
  values := by
    intro name value found
    rw [headers] at found
    rw [(page_header found).2]
    decide
  noLength := by
    intro member
    rw [headers] at member
    obtain ⟨value,found⟩ := Finmap.mem_iff.mp member
    exact absurd (page_header found).1 (by decide)
  location _ := location

theorem visits_formed : ∀ e ∈ visits, e.Formed := by
  intro e member
  have either : e = visits[0] ∨ e = visits[1] := by simpa [visits] using member
  rcases either with rfl | rfl
  · exact page_formed _ _ rfl (by decide) (by decide)
  · exact page_formed _ _ rfl (by decide) (by decide)

theorem responses_split_visits : ∃ received, readResponses [false,true] (visits.flatMap Exchange.payload) =
    some (received,[]) ∧ List.Forall₂ Exchange.Splits visits received :=
  responses_split visits visits_formed

end LinuxOS.Http
