import LinuxOS.Machine
import LinuxOS.Http.Encoding

namespace LinuxOS.Http

-- What std::stoi takes for an int: blanks, at most one sign, digits, and then
-- whatever does not begin with a digit.
structure Number where
  blanks : Bytes
  sign : Bytes
  digits : Bytes
  rest : Bytes
  blank : blanks.all isspace = true
  signed : sign = [] ∨ sign = [43] ∨ sign = [45]
  some_digit : digits ≠ []
  digit : digits.all isdigit = true
  ended : ∀ c ∈ rest.head?, isdigit c = false
  range : decimal digits ≤ if sign = [45] then 2147483648 else 2147483647

def Number.text (n : Number) : Bytes := n.blanks ++ (n.sign ++ (n.digits ++ n.rest))

def Numeric (value : Bytes) : Prop := ∃ n : Number, n.text = value

variable {x body value digits rest : Bytes} {c : UInt8}

theorem digit_notSpace (digit : isdigit c = true) : isspace c = false := by
  have range : 48 ≤ c ∧ c ≤ 57 := by simpa [isdigit] using digit
  have low : ¬c ≤ 13 := fun le => absurd (UInt8.le_trans range.1 le) (by decide)
  have blank : c ≠ 32 := by rintro rfl; exact absurd range.1 (by decide)
  simp [isspace,low,blank]

theorem digit_notSign (digit : isdigit c = true) : c ≠ 45 ∧ c ≠ 43 := by
  constructor
  · rintro rfl; exact absurd digit (by decide)
  · rintro rfl; exact absurd digit (by decide)

theorem takeSign_number (n : Number) : takeSign (n.sign ++ (n.digits ++ n.rest)) =
    (decide (n.sign = [45]),n.digits ++ n.rest) := by
  cases first : n.digits with
  | nil => exact absurd first n.some_digit
  | cons d digits =>
    have plain := digit_notSign (List.all_eq_true.mp n.digit d (by rw [first]; exact List.mem_cons_self))
    rcases n.signed with none | plus | minus
    · rw [none]; simp [takeSign,plain.1,plain.2]
    · rw [plus]; rfl
    · rw [minus]; rfl

theorem dropWhile_number (n : Number) : n.text.dropWhile isspace = n.sign ++ (n.digits ++ n.rest) := by
  rw [Number.text,List.dropWhile_append_of_pos (List.all_eq_true.mp n.blank)]
  cases first : n.digits with
  | nil => exact absurd first n.some_digit
  | cons d digits =>
    have plain := digit_notSpace (List.all_eq_true.mp n.digit d (by rw [first]; exact List.mem_cons_self))
    rcases n.signed with none | plus | minus
    · simp [none,plain]
    · rw [plus]; rfl
    · rw [minus]; rfl

theorem takeWhile_number (n : Number) : (n.digits ++ n.rest).takeWhile isdigit = n.digits := by
  rw [List.takeWhile_append_of_pos (List.all_eq_true.mp n.digit)]
  cases after : n.rest with
  | nil => simp
  | cons c rest =>
    have stops := n.ended c (by rw [after]; rfl)
    simp [stops]

-- What strtol reads: the sign, the digits after it, their value.
def signed (value : Bytes) : Bool × Bytes := takeSign (value.dropWhile isspace)

def digitsOf (value : Bytes) : Bytes := (signed value).2.takeWhile isdigit

def strtol (negative : Bool) (digits : Bytes) : Int := if negative then -decimal digits else decimal digits

theorem stoi_cut (value : Bytes) : stoi value =
    if digitsOf value = [] then .error .invalidArgument
    else if -2147483648 ≤ strtol (signed value).1 (digitsOf value) ∧
        strtol (signed value).1 (digitsOf value) ≤ 2147483647 then .ok (strtol (signed value).1 (digitsOf value))
    else .error .outOfRange := rfl

theorem strtol_range {sign : Bytes} (negative : Bool) (same : negative = true ↔ sign = [45]) :
    (-2147483648 ≤ strtol negative digits ∧ strtol negative digits ≤ 2147483647) ↔
      decimal digits ≤ if sign = [45] then 2147483648 else 2147483647 := by
  cases negative with
  | true =>
    rw [if_pos (same.mp rfl),strtol,if_pos rfl]
    omega
  | false =>
    rw [if_neg fun minus => absurd (same.mpr minus) (by decide),strtol,if_neg (by decide)]
    omega

theorem stoi_number (n : Number) : ∃ value, stoi n.text = .ok value := by
  have inside := (strtol_range (decide (n.sign = [45])) (by simp)).mpr n.range
  have sign : signed n.text = (decide (n.sign = [45]),n.digits ++ n.rest) := by
    rw [signed,dropWhile_number,takeSign_number]
  have digits : digitsOf n.text = n.digits := by rw [digitsOf,sign,takeWhile_number]
  rw [stoi_cut,digits,sign,if_neg n.some_digit,if_pos inside]
  exact ⟨_,rfl⟩

theorem takeSign_cases (body : Bytes) : ∃ sign, body = sign ++ (takeSign body).2 ∧
    (sign = [] ∨ sign = [43] ∨ sign = [45]) ∧ ((takeSign body).1 = true ↔ sign = [45]) := by
  unfold takeSign
  split
  · exact ⟨[45],rfl,.inr (.inr rfl),by simp⟩
  · exact ⟨[43],rfl,.inr (.inl rfl),by simp⟩
  · exact ⟨[],rfl,.inl rfl,by simp⟩

theorem stoi_numeric (value : Bytes) : (∃ n, stoi value = .ok n) ↔ Numeric value := by
  constructor
  · rintro ⟨n,converted⟩
    obtain ⟨sign,cut,one_sign,negative⟩ := takeSign_cases (value.dropWhile isspace)
    rw [stoi_cut] at converted
    split at converted
    · cases converted
    · rename_i some_digit
      split at converted
      · rename_i inside
        refine ⟨⟨value.takeWhile isspace,sign,digitsOf value,(signed value).2.dropWhile isdigit,List.all_takeWhile,
          one_sign,some_digit,List.all_takeWhile,?_,(strtol_range _ negative).mp inside⟩,?_⟩
        · intro c first
          have stops := List.head?_dropWhile_not isdigit (signed value).2
          rw [Option.mem_def.mp first] at stops
          exact stops
        · have digits : digitsOf value ++ (signed value).2.dropWhile isdigit = (signed value).2 :=
            List.takeWhile_append_dropWhile
          show value.takeWhile isspace ++ (sign ++ (digitsOf value ++ (signed value).2.dropWhile isdigit)) = value
          rw [digits,signed,← cut,List.takeWhile_append_dropWhile]
      · cases converted
  · rintro ⟨n,rfl⟩
    exact stoi_number n

namespace HttpContext
open Muduo Machine
variable {c : HttpContext} {buf : Buffer} {line : Bytes}

def lengthName : Bytes := ascii "Content-Length"

def RequestLine (line : Bytes) : Prop := line.length ≤ maxLine ∧ ∃ method uri version : Bytes,
  chomp line = method ++ 32 :: (uri ++ 32 :: version) ∧ 32 ∉ method ∧ 32 ∉ uri ∧ method ≠ [] ∧ uri ≠ [] ∧ version ≠ []

-- The Content-Length that a header block ends with, where `given` is the one so
-- far: none if there is none, if the block is not complete yet, or if one of
-- its lines is refused.
def headLength (given : Option Bytes) (x : Bytes) : Option Bytes :=
  match _cut : takeLine x with
  | none => none
  | some (line,rest) =>
    if maxLine < line.length then none
    else if line = [13,10] ∨ line = [10] then given
    else
      match (chomp line).find [58,32] 0 with
      | none => none
      | some pos =>
        headLength (if (chomp line).take pos = lengthName then some ((chomp line).drop (pos + 2)) else given) rest
termination_by x.length
decreasing_by exact takeLine_shorter _cut

def Declares (c : HttpContext) (x value : Bytes) : Prop :=
  match c.status with
  | .line => ∃ line rest, takeLine x = some (line,rest) ∧ RequestLine line ∧
      headLength (c.request.reqHeaders.lookup lengthName) rest = some value
  | .head => headLength (c.request.reqHeaders.lookup lengthName) x = some value
  | .body => c.request.reqHeaders.lookup lengthName = some value
  | .over | .error => False

theorem headLength_open (given : Option Bytes) (open' : takeLine x = none) : headLength given x = none := by
  rw [headLength]
  split
  · rfl
  · rename_i cut; rw [open'] at cut; cases cut

theorem headLength_line (given : Option Bytes) (cut : takeLine x = some (line,rest)) : headLength given x =
    if maxLine < line.length then none
    else if line = [13,10] ∨ line = [10] then given
    else
      match (chomp line).find [58,32] 0 with
      | none => none
      | some pos =>
        headLength (if (chomp line).take pos = lengthName then some ((chomp line).drop (pos + 2)) else given) rest := by
  rw [headLength]
  split
  · rename_i open'; rw [cut] at open'; cases open'
  · rename_i found
    rw [cut] at found
    cases found
    rfl

theorem bodyOf_returns (c : HttpContext) (x : Bytes) : (∃ parsed, bodyOf c x = .ok parsed) ↔
    ∀ value, c.request.reqHeaders.lookup lengthName = some value → Numeric value := by
  unfold bodyOf
  cases given : c.request.reqHeaders.lookup lengthName with
  | none =>
    rw [contentLength_absent given]
    simp [Except.map]
  | some value =>
    have numeric := stoi_numeric value
    rw [contentLength_given given]
    cases converted : stoi value with
    | ok n => simpa [converted,Except.map] using numeric
    | error fault => simpa [converted,Except.map] using numeric

theorem takeHead_blank (short : ¬maxLine < line.length) (blank : line = [13,10] ∨ line = [10]) :
    c.takeHead line = (some true,{c with status := .body}) := by
  rw [takeHead,if_neg short,if_pos blank]

theorem takeHead_refused (short : ¬maxLine < line.length) (more : ¬(line = [13,10] ∨ line = [10]))
    (nowhere : (chomp line).find [58,32] 0 = none) : c.takeHead line = (some false,c.fail 400) := by
  rw [takeHead,if_neg short,if_neg more,parseHttpHead,nowhere]
  rfl

theorem takeHead_pair (short : ¬maxLine < line.length) (more : ¬(line = [13,10] ∨ line = [10]))
    (found : (chomp line).find [58,32] 0 = some pos) : c.takeHead line =
      (none,{c with request := c.request.setHeaders ((chomp line).take pos) ((chomp line).drop (pos + 2))}) := by
  rw [takeHead,if_neg short,if_neg more,parseHttpHead,found]
  rfl

theorem reqHeaders_lookup (r : HttpRequest) (key value name : Bytes) :
    (r.setHeaders key value).reqHeaders.lookup name = if key = name then some value else r.reqHeaders.lookup name := by
  split
  · rename_i same
    rw [same]
    exact Finmap.lookup_insert _
  · rename_i other
    exact Finmap.lookup_insert_of_ne _ (Ne.symm other)

theorem headOf_returns (c : HttpContext) (x : Bytes) : (∃ parsed, headOf c x = .ok parsed) ↔
    ∀ value, headLength (c.request.reqHeaders.lookup lengthName) x = some value → Numeric value := by
  induction x using takeLine_induction generalizing c with
  | pending x cut => simp [headOf_open cut,headLength_open _ cut]
  | cut x line rest cut ih =>
    rw [headOf_line cut,headLength_line _ cut]
    by_cases long : maxLine < line.length
    · rw [takeHead_long long,if_pos long]
      simp
    · rw [if_neg long]
      by_cases blank : line = [13,10] ∨ line = [10]
      · rw [takeHead_blank long blank,if_pos blank]
        exact bodyOf_returns {c with status := .body} rest
      · rw [if_neg blank]
        cases found : (chomp line).find [58,32] 0 with
        | none =>
          rw [takeHead_refused long blank found]
          simp
        | some pos =>
          have later := ih {c with request := c.request.setHeaders ((chomp line).take pos) ((chomp line).drop (pos + 2))}
          rw [takeHead_pair long blank found]
          rw [reqHeaders_lookup] at later
          exact later

theorem parseReqLine_words (r : HttpRequest) (line : Bytes) : (parseReqLine r line).1 = true ↔
    ∃ method uri version : Bytes, chomp line = method ++ 32 :: (uri ++ 32 :: version) ∧ 32 ∉ method ∧ 32 ∉ uri ∧
      method ≠ [] ∧ uri ≠ [] ∧ version ≠ [] := by
  constructor
  · intro accepted
    simp only [parseReqLine] at accepted
    cases first : (chomp line).find [32] 0 with
    | none => rw [first] at accepted; cases accepted
    | some pos1 =>
      rw [first] at accepted
      dsimp only at accepted
      cases second : (chomp line).find [32] (pos1 + 1) with
      | none => rw [second] at accepted; cases accepted
      | some pos2 =>
        rw [second] at accepted
        dsimp only at accepted
        obtain ⟨method,rest,cut,oneMethod,place,_⟩ := Bytes.find_some first
        obtain ⟨uri,version,after,oneUri,place',_⟩ := Bytes.find_some second
        rw [List.drop_zero] at cut
        have left : (chomp line).drop (pos1 + 1) = rest := by
          rw [cut,← place,Nat.zero_add,List.drop_length_add_append]
          rfl
        have front : (chomp line).take pos1 = method := by
          rw [cut,← place,Nat.zero_add]
          exact List.take_left
        have middle : (chomp line).substr (pos1 + 1) (pos2 - pos1 - 1) = uri := by
          have size : pos2 - pos1 - 1 = uri.length := by omega
          rw [Bytes.substr,after,size]
          exact List.take_left
        have back : (chomp line).drop (pos2 + 1) = version := by
          have order : pos2 + 1 = (pos1 + 1) + (uri.length + 1) := by omega
          rw [order,← List.drop_drop,after,List.drop_length_add_append]
          rfl
        rw [front,middle,back] at accepted
        split at accepted
        · cases accepted
        · rename_i filled
          push Not at filled
          exact ⟨method,uri,version,by rw [cut,← left,after],oneMethod,oneUri,filled⟩
  · rintro ⟨method,uri,version,shape,oneMethod,oneUri,filled⟩
    rw [parseReqLine_three r shape oneMethod oneUri filled]

theorem parseReqLine_reqHeaders (r : HttpRequest) (line : Bytes) : (parseReqLine r line).2.reqHeaders = r.reqHeaders := by
  obtain ⟨_,_,_,_,_,_,frame⟩ := parseReqLine_frame r line
  rw [frame]

theorem takeReqLine_accepts (c : HttpContext) (line : Bytes) :
    RequestLine line ∧ c.takeReqLine line =
      (true,{c with request := (parseReqLine c.request line).2, status := .head}) ∨
    ¬RequestLine line ∧ (c.takeReqLine line).1 = false := by
  have words := parseReqLine_words c.request line
  unfold RequestLine takeReqLine
  by_cases long : maxLine < line.length
  · rw [if_pos long]
    exact .inr ⟨fun accepted => absurd accepted.1 (Nat.not_le.mpr long),rfl⟩
  · rw [if_neg long]
    cases parsed : parseReqLine c.request line with
    | mk accepted request =>
      rw [parsed] at words
      cases accepted with
      | true => exact .inl ⟨⟨Nat.not_lt.mp long,words.mp rfl⟩,rfl⟩
      | false => exact .inr ⟨fun accepted => absurd (words.mpr accepted.2) (by simp),rfl⟩

theorem lineOf_returns (c : HttpContext) (x : Bytes) : (∃ parsed, lineOf c x = .ok parsed) ↔
    ∀ value, (∃ line rest, takeLine x = some (line,rest) ∧ RequestLine line ∧
      headLength (c.request.reqHeaders.lookup lengthName) rest = some value) → Numeric value := by
  unfold lineOf
  cases cut : takeLine x with
  | none => simp
  | some parts =>
    obtain ⟨line,rest⟩ := parts
    dsimp only
    rcases takeReqLine_accepts c line with ⟨accepted,taken⟩ | ⟨refused,taken⟩
    · have later := headOf_returns {c with request := (parseReqLine c.request line).2, status := .head} rest
      rw [taken]
      rw [parseReqLine_reqHeaders] at later
      simp only [later]
      constructor
      · rintro numeric value ⟨_,_,same,_,declared⟩
        cases same
        exact numeric value declared
      · intro numeric value declared
        exact numeric value ⟨line,rest,rfl,accepted,declared⟩
    · cases result : c.takeReqLine line with
      | mk went next =>
        rw [result] at taken
        subst taken
        refine ⟨?_,fun _ => ⟨_,rfl⟩⟩
        rintro _ value ⟨_,_,same,accepted,_⟩
        cases same
        exact absurd accepted refused

theorem parse_returns (c : HttpContext) (x : Bytes) :
    (∃ parsed, parse c x = .ok parsed) ↔ ∀ value, Declares c x value → Numeric value := by
  unfold parse Declares
  cases c.status with
  | line => exact lineOf_returns c x
  | head => exact headOf_returns c x
  | body => exact bodyOf_returns c x
  | _ => simp

theorem recvHttpRequest_returns (c : HttpContext) (buf : Buffer) :
    (∃ result, c.recvHttpRequest buf = .ok result) ↔ ∀ value, Declares c buf.readable value → Numeric value := by
  rw [← parse_returns,← recvHttpRequest_seen]
  cases c.recvHttpRequest buf with
  | ok result => simp [seen,Except.map]
  | error fault => simp [seen,Except.map]

-- What happens to one connection's parser and input buffer, in any order.
inductive Event where
  | delivered (chunk : Bytes) | received | reset | cleared

abbrev Input := HttpContext × Buffer

def receive (s : Input) : Event → Option Input
  | .delivered chunk => (s.2.writeAndPush chunk).map fun buf => (s.1,buf)
  | .received =>
    match s.1.recvHttpRequest s.2 with
    | .ok next => some next
    | .error _ => none
  | .reset => some (s.1.reset,s.2)
  | .cleared => some (s.1,s.2.clear)

def Convertible (s : Input) : Event → Prop
  | .received => ∀ value, Declares s.1 s.2.readable value → Numeric value
  | _ => True

theorem receive_exactly (s : Input) (event : Event) : (∃ next, receive s event = some next) ↔ Convertible s event := by
  cases event with
  | delivered chunk =>
    obtain ⟨buf,pushed,_⟩ := s.2.writeAndPush_spec chunk
    simp [receive,Convertible,pushed]
  | received =>
    rw [Convertible,← recvHttpRequest_returns,receive]
    cases s.1.recvHttpRequest s.2 with
    | ok next => simp
    | error fault => simp
  | reset => simp [receive,Convertible]
  | cleared => simp [receive,Convertible]

theorem receive_returns (s : Input) (events : List Event) :
    (∃ next, run receive s events = some next) ↔ Throughout receive Convertible s events :=
  run_exactly receive_exactly

theorem receive_abc : ¬∀ (s : Input) (events : List Event), ∃ next, run receive s events = some next := by
  intro holds
  obtain ⟨next,ran⟩ := holds ({},Buffer.initial) [.delivered (ascii "GET / HTTP/1.1\nContent-Length: abc\n\n"),.received]
  have stopped : (run receive ({},Buffer.initial)
      [.delivered (ascii "GET / HTTP/1.1\nContent-Length: abc\n\n"),.received]).isNone = true := by decide +kernel
  rw [ran] at stopped
  cases stopped

end HttpContext
end LinuxOS.Http
