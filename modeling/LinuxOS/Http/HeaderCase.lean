import LinuxOS.Http.Faults

namespace LinuxOS.Http
namespace HttpContext
open Muduo

def connectionName : Bytes := ascii "Connection"

def lower (b : UInt8) : UInt8 := if 65 ≤ b ∧ b ≤ 90 then b + 32 else b

def SameLetters (name name' : Bytes) : Prop := name.map lower = name'.map lower

-- The two names that the parser looks up keep their spelling, and no other name
-- takes it on.
structure Spelled (name name' : Bytes) : Prop where
  letters : SameLetters name name'
  length : name = lengthName ↔ name' = lengthName
  connection : name = connectionName ↔ name' = connectionName

-- Whole header lines whose names are changed, and then the same bytes: the rest
-- of the block, the body, the next request.
inductive Recased (allowed : Bytes → Bytes → Prop) : Bytes → Bytes → Prop where
  | same (x : Bytes) : Recased allowed x x
  | line (name name' value : Bytes) : ¬[58,32] <:+: name → 10 ∉ name ++ value → allowed name name' →
      Recased allowed x x' →
      Recased allowed (name ++ 58 :: 32 :: (value ++ 10 :: x)) (name' ++ 58 :: 32 :: (value ++ 10 :: x'))

variable {c c' next next' : HttpContext} {x x' line rest name name' value : Bytes} {b : UInt8}
variable {allowed : Bytes → Bytes → Prop}

structure SameRequest (c c' : HttpContext) : Prop where
  respCode : c.respCode = c'.respCode
  status : c.status = c'.status
  request : c'.request = {c.request with reqHeaders := c'.request.reqHeaders}
  length : c.request.reqHeaders.lookup lengthName = c'.request.reqHeaders.lookup lengthName
  connection : c.request.reqHeaders.lookup connectionName = c'.request.reqHeaders.lookup connectionName

def Agree : Parsed → Parsed → Prop
  | .ok (next,rest),.ok (next',rest') =>
    SameRequest next next' ∧ rest.length = rest'.length ∧ (next.status ≠ .error → rest = rest')
  | .error fault,.error fault' => fault = fault'
  | _,_ => False

theorem lower_separator (separator : b = 58 ∨ b = 32 ∨ b = 10) {d : UInt8} (same : lower d = b) : d = b := by
  unfold lower at same
  split at same
  · rename_i capital
    have number := congrArg UInt8.toNat same
    rw [UInt8.toNat_add] at number
    simp only [UInt8.le_iff_toNat_le,UInt8.reduceToNat] at capital number
    rcases separator with rfl | rfl | rfl
    all_goals simp only [UInt8.reduceToNat] at number; omega
  · exact same

theorem sameLetters_length (letters : SameLetters name name') : name.length = name'.length := by
  simpa using congrArg List.length letters

theorem sameLetters_newline (letters : SameLetters name name') (absent : 10 ∉ name) : 10 ∉ name' := by
  intro member
  have lowered : (10 : UInt8) ∈ name'.map lower := List.mem_map.mpr ⟨10,member,rfl⟩
  rw [← letters] at lowered
  obtain ⟨d,found,same⟩ := List.mem_map.mp lowered
  rw [lower_separator (.inr (.inr rfl)) same] at found
  exact absent found

theorem sameLetters_colon (letters : SameLetters name name') (absent : ¬[58,32] <:+: name) : ¬[58,32] <:+: name' := by
  rintro ⟨front,back,shape⟩
  have lowered : name.map lower = (front.map lower ++ [58,32]) ++ back.map lower := by
    rw [letters,← shape]
    simp [lower]
  obtain ⟨first,last,cut,before,_⟩ := List.map_eq_append_iff.mp lowered
  obtain ⟨start,middle,cut',_,between⟩ := List.map_eq_append_iff.mp before
  obtain ⟨d,more,split,colon,tail⟩ := List.map_eq_cons_iff.mp between
  obtain ⟨e,none,split',blank,empty⟩ := List.map_eq_cons_iff.mp tail
  have nothing : none = [] := List.map_eq_nil_iff.mp empty
  have same : d = 58 := lower_separator (.inl rfl) colon
  have same' : e = 32 := lower_separator (.inr (.inl rfl)) blank
  subst nothing same same' split' split cut' cut
  exact absent ⟨start,last,rfl⟩

theorem alike_self (c : HttpContext) : SameRequest c c := ⟨rfl,rfl,rfl,rfl,rfl⟩

theorem SameRequest.contentLength (alike : SameRequest c c') : c.request.contentLength = c'.request.contentLength := by
  have length := alike.length
  cases given : c.request.reqHeaders.lookup lengthName with
  | none =>
    rw [given] at length
    rw [contentLength_absent given,contentLength_absent length.symm]
  | some value =>
    rw [given] at length
    rw [contentLength_given given,contentLength_given length.symm]

theorem SameRequest.isKeepAlive (alike : SameRequest c c') : c.request.isKeepAlive = c'.request.isKeepAlive := by
  have connection := alike.connection
  have version : c'.request.httpVersion = c.request.httpVersion := by rw [alike.request]
  have member : connectionName ∈ c.request.reqHeaders ↔ connectionName ∈ c'.request.reqHeaders := by
    rw [Finmap.mem_iff,Finmap.mem_iff,connection]
  have value : c.request.getHeaders connectionName = c'.request.getHeaders connectionName := by
    rw [HttpRequest.getHeaders,HttpRequest.getHeaders,connection]
  unfold connectionName at member value
  simp only [HttpRequest.isKeepAlive,version,member,value]

theorem agree_same (alike : SameRequest next next') (x : Bytes) : Agree (.ok (next,x)) (.ok (next',x)) :=
  ⟨alike,rfl,fun _ => rfl⟩

theorem alike_fail (alike : SameRequest c c') (code : Int) : SameRequest (c.fail code) (c'.fail code) :=
  ⟨rfl,rfl,alike.request,alike.length,alike.connection⟩

theorem alike_status (alike : SameRequest c c') (status : RecvStatus) :
    SameRequest {c with status := status} {c' with status := status} :=
  ⟨alike.respCode,rfl,alike.request,alike.length,alike.connection⟩

theorem alike_addBody (alike : SameRequest c c') (part : Bytes) : SameRequest (c.addBody part) (c'.addBody part) := by
  refine ⟨alike.respCode,alike.status,?_,alike.length,alike.connection⟩
  rw [addBody,addBody,alike.request]

theorem alike_setHeaders (alike : SameRequest c c') (spelled : Spelled name name') (value : Bytes) :
    SameRequest {c with request := c.request.setHeaders name value} {c' with request := c'.request.setHeaders name' value} := by
  refine ⟨alike.respCode,alike.status,?_,?_,?_⟩
  · show c'.request.setHeaders name' value = _
    rw [HttpRequest.setHeaders,alike.request]
    rfl
  · show (c.request.setHeaders name value).reqHeaders.lookup lengthName =
      (c'.request.setHeaders name' value).reqHeaders.lookup lengthName
    rw [reqHeaders_lookup,reqHeaders_lookup]
    simp only [spelled.length,alike.length]
  · show (c.request.setHeaders name value).reqHeaders.lookup connectionName =
      (c'.request.setHeaders name' value).reqHeaders.lookup connectionName
    rw [reqHeaders_lookup,reqHeaders_lookup]
    simp only [spelled.connection,alike.connection]

theorem bodyOf_alike (alike : SameRequest c c') (x : Bytes) : Agree (bodyOf c x) (bodyOf c' x) := by
  have body : c'.request.body = c.request.body := by rw [alike.request]
  rw [bodyOf,bodyOf,alike.contentLength]
  cases c'.request.contentLength with
  | error fault => rfl
  | ok n =>
    simp only [Except.map,takeBody,body]
    split
    · exact agree_same (alike_status alike .over) x
    · split
      · exact agree_same (alike_status (alike_addBody alike _) .over) _
      · exact agree_same (alike_addBody alike x) []

theorem spelled_self (name : Bytes) : Spelled name name := ⟨rfl,Iff.rfl,Iff.rfl⟩

theorem headOf_alike (alike : SameRequest c c') (x : Bytes) : Agree (headOf c x) (headOf c' x) := by
  induction x using takeLine_induction generalizing c c' with
  | pending x cut =>
    rw [headOf_open cut,headOf_open cut]
    split
    · exact agree_same (alike_fail alike 414) x
    · exact agree_same alike x
  | cut x line rest cut ih =>
    rw [headOf_line cut,headOf_line cut]
    by_cases long : maxLine < line.length
    · rw [takeHead_long long,takeHead_long long]
      exact agree_same (alike_fail alike 414) rest
    by_cases blank : line = [13,10] ∨ line = [10]
    · rw [takeHead_blank long blank,takeHead_blank long blank]
      exact bodyOf_alike (alike_status alike .body) rest
    · cases found : (chomp line).find [58,32] 0 with
      | none =>
        rw [takeHead_refused long blank found,takeHead_refused long blank found]
        exact agree_same (alike_fail alike 400) rest
      | some pos =>
        rw [takeHead_pair long blank found,takeHead_pair long blank found]
        exact ih (alike_setHeaders alike (spelled_self _) _)

theorem chomp_lf (line : Bytes) : chomp (line ++ [10]) = popBack line 13 := by
  have outer : popBack (line ++ [10]) 10 = line := by simp [popBack]
  rw [chomp,outer]

theorem popBack_header (name value : Bytes) :
    popBack (name ++ 58 :: 32 :: value) 13 = name ++ 58 :: 32 :: popBack value 13 := by
  cases value with
  | nil => simp [popBack,List.getLast?_append]
  | cons d value =>
    have last : (name ++ 58 :: 32 :: d :: value).getLast? = (d :: value).getLast? := by
      simp [List.getLast?_append,List.getLast?_cons]
    rw [popBack,popBack,last]
    split
    · rw [List.dropLast_append_of_ne_nil (List.cons_ne_nil _ _),List.dropLast_cons_cons,List.dropLast_cons_cons]
    · rfl

theorem recased_length (letters : ∀ name name', allowed name name' → SameLetters name name') (changed : Recased allowed x x') :
    x.length = x'.length := by
  induction changed with
  | same x => rfl
  | line name name' value once single allow _ ih =>
    have names := sameLetters_length (letters name name' allow)
    simp [names,ih]

theorem takeHead_named (absent : ¬[58,32] <:+: name) (short : ¬maxLine < (name ++ 58 :: 32 :: (value ++ [10])).length) :
    c.takeHead (name ++ 58 :: 32 :: (value ++ [10])) =
      (none,{c with request := c.request.setHeaders name (popBack value 13)}) := by
  have chomped : chomp (name ++ 58 :: 32 :: (value ++ [10])) = name ++ 58 :: 32 :: popBack value 13 := by
    have ended : name ++ 58 :: 32 :: (value ++ [10]) = (name ++ 58 :: 32 :: value) ++ [10] := by simp
    rw [ended,chomp_lf,popBack_header]
  have found : (chomp (name ++ 58 :: 32 :: (value ++ [10]))).find [58,32] 0 = some name.length := by
    rw [chomped,Bytes.find,if_pos (Nat.zero_le _),List.drop_zero,find_colon _ _ absent]
    rfl
  have more : ¬(name ++ 58 :: 32 :: (value ++ [10]) = [13,10] ∨ name ++ 58 :: 32 :: (value ++ [10]) = [10]) := by
    rintro (blank | blank)
    · have length := congrArg List.length blank
      simp at length
      omega
    · have length := congrArg List.length blank
      simp at length
      omega
  have front : (chomp (name ++ 58 :: 32 :: (value ++ [10]))).take name.length = name := by rw [chomped]; exact List.take_left
  have back : (chomp (name ++ 58 :: 32 :: (value ++ [10]))).drop (name.length + 2) = popBack value 13 := by
    rw [chomped,List.drop_length_add_append]
    rfl
  rw [takeHead_pair short more found,front,back]

theorem headOf_recased (alike : SameRequest c c') (changed : Recased Spelled x x') : Agree (headOf c x) (headOf c' x') := by
  induction changed generalizing c c' with
  | same x => exact headOf_alike alike x
  | @line x x' name name' value once single spelled later ih =>
    have names := sameLetters_length spelled.letters
    have lengths := recased_length (fun _ _ spelled => spelled.letters) later
    have once' := sameLetters_colon spelled.letters once
    simp only [List.mem_append,not_or] at single
    have cut : takeLine (name ++ 58 :: 32 :: (value ++ 10 :: x)) = some (name ++ 58 :: 32 :: (value ++ [10]),x) := by
      have one : 10 ∉ name ++ 58 :: 32 :: value := by simp [single.1,single.2]
      simpa using takeLine_lf one
    have cut' : takeLine (name' ++ 58 :: 32 :: (value ++ 10 :: x')) = some (name' ++ 58 :: 32 :: (value ++ [10]),x') := by
      have one : 10 ∉ name' ++ 58 :: 32 :: value := by simp [sameLetters_newline spelled.letters single.1,single.2]
      simpa using takeLine_lf one
    have same : (name' ++ 58 :: 32 :: (value ++ [10])).length = (name ++ 58 :: 32 :: (value ++ [10])).length := by
      simp [names]
    rw [headOf_line cut,headOf_line cut']
    by_cases long : maxLine < (name ++ 58 :: 32 :: (value ++ [10])).length
    · rw [takeHead_long long,takeHead_long (same ▸ long)]
      exact ⟨alike_fail alike 414,lengths,fun running => absurd rfl running⟩
    · rw [takeHead_named once long,takeHead_named once' (same ▸ long)]
      exact ih (alike_setHeaders alike spelled _)

theorem lineOf_recased (c : HttpContext) (single : 10 ∉ line) (changed : Recased Spelled x x') :
    Agree (lineOf c (line ++ 10 :: x)) (lineOf c (line ++ 10 :: x')) := by
  have lengths := recased_length (fun _ _ spelled => spelled.letters) changed
  simp only [lineOf,takeLine_lf single]
  rcases takeReqLine_cases c (line ++ [10]) with ⟨failed,taken,error⟩ | ⟨request,taken⟩
  · rw [taken]
    exact ⟨alike_self failed,lengths,fun running => absurd error running⟩
  · rw [taken]
    exact headOf_recased (alike_self _) changed

def SameOutcome : Except Fault (HttpContext × Buffer) → Except Fault (HttpContext × Buffer) → Prop
  | .ok (next,left),.ok (next',left') =>
    left.readableSize = left'.readableSize ∧ next.request.body = next'.request.body ∧ next.status = next'.status ∧
      next.request.isKeepAlive = next'.request.isKeepAlive ∧ (next.status ≠ .error → left.readable = left'.readable)
  | .error fault,.error fault' => fault = fault'
  | _,_ => False

theorem agree_outcome {first second : Except Fault (HttpContext × Buffer)} (agree : Agree (seen first) (seen second)) :
    SameOutcome first second := by
  cases first with
  | error fault =>
    cases second with
    | error fault' => exact agree
    | ok state => exact agree.elim
  | ok state =>
    cases second with
    | error fault => exact agree.elim
    | ok state' =>
      obtain ⟨alike,lengths,rests⟩ := agree
      have body : state'.1.request.body = state.1.request.body := by rw [alike.request]
      refine ⟨?_,body.symm,alike.status,alike.isKeepAlive,rests⟩
      rw [← Buffer.readable_length,← Buffer.readable_length]
      exact lengths

theorem recvHttpRequest_recased (c : HttpContext) (buf buf' : Buffer) (line block block' : Bytes) (active : c.status = .line)
    (single : 10 ∉ line) (bytes : buf.readable = line ++ 10 :: block) (bytes' : buf'.readable = line ++ 10 :: block')
    (changed : Recased Spelled block block') : SameOutcome (c.recvHttpRequest buf) (c.recvHttpRequest buf') := by
  have agree := lineOf_recased c single changed
  apply agree_outcome
  rw [recvHttpRequest_seen,recvHttpRequest_seen,bytes,bytes']
  simpa only [parse,active] using agree

def holding (x : Bytes) : Buffer := ⟨x,0,x.length,Nat.zero_le _,Nat.le_refl _⟩

theorem readable_holding (x : Bytes) : (holding x).readable = x := by simp [holding,Buffer.readable]

theorem recvHttpRequest_recased_host :
    SameOutcome (recvHttpRequest {} (holding (ascii "GET / HTTP/1.1\nHost: a\nContent-Length: 1\n\nx")))
      (recvHttpRequest {} (holding (ascii "GET / HTTP/1.1\nhOST: a\nContent-Length: 1\n\nx"))) :=
  recvHttpRequest_recased {} _ _ (ascii "GET / HTTP/1.1") (ascii "Host: a\nContent-Length: 1\n\nx")
    (ascii "hOST: a\nContent-Length: 1\n\nx") rfl (by decide) (readable_holding _) (readable_holding _)
    (.line (ascii "Host") (ascii "hOST") (ascii "a") (by decide) (by decide)
      ⟨by unfold SameLetters; decide,by decide,by decide⟩ (.same _))

theorem sameOutcome_body {first second : Except Fault (HttpContext × Buffer)} (same : SameOutcome first second) :
    first.toOption.map (·.1.request.body) = second.toOption.map (·.1.request.body) := by
  cases first with
  | error fault =>
    cases second with
    | error fault' => rfl
    | ok state => exact same.elim
  | ok state =>
    cases second with
    | error fault => exact same.elim
    | ok state' => exact congrArg some same.2.1

theorem recvHttpRequest_lowercase : ¬∀ (c : HttpContext) (buf buf' : Buffer) (line block block' : Bytes),
    c.status = .line → 10 ∉ line → buf.readable = line ++ 10 :: block → buf'.readable = line ++ 10 :: block' →
    Recased SameLetters block block' → SameOutcome (c.recvHttpRequest buf) (c.recvHttpRequest buf') := by
  intro holds
  have same := holds {} _ _ (ascii "POST / HTTP/1.1") (ascii "Content-Length: 1\n\nx")
    (ascii "content-length: 1\n\nx") rfl (by decide) (readable_holding _) (readable_holding _)
    (.line (ascii "Content-Length") (ascii "content-length") (ascii "1") (by decide) (by decide)
      (by unfold SameLetters; decide) (.same _))
  exact absurd (sameOutcome_body same) (by decide +kernel)

end HttpContext
end LinuxOS.Http
