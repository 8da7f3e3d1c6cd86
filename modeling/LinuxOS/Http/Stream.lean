import LinuxOS.Http.Context

namespace LinuxOS.Http.HttpContext
open Muduo
variable {c next : HttpContext} {x y line rest : Bytes} {buf : Buffer}

-- The parser as a function of the unread bytes alone.
abbrev Parsed := Except Fault (HttpContext × Bytes)

def takeLine (x : Bytes) : Option (Bytes × Bytes) :=
  (x.findIdx? (· == 10)).map fun ch => (x.take (ch + 1),x.drop (ch + 1))

theorem takeLine_shorter (cut : takeLine x = some (line,rest)) : rest.length < x.length := by
  obtain ⟨ch,found,equal⟩ := Option.map_eq_some_iff.mp cut
  obtain ⟨inside,_⟩ := List.findIdx?_eq_some_iff_getElem.mp found
  cases equal
  simp only [List.length_drop]
  omega

-- The one induction over unread bytes: what is left behind each complete line.
@[elab_as_elim] theorem takeLine_induction {motive : Bytes → Prop}
    (pending : ∀ x, takeLine x = none → motive x)
    (cut : ∀ x line rest, takeLine x = some (line,rest) → motive rest → motive x) (x : Bytes) : motive x := by
  induction size : x.length using Nat.strong_induction_on generalizing x with
  | _ size ih =>
    cases taken : takeLine x with
    | none => exact pending x taken
    | some parts =>
      have shorter := takeLine_shorter taken
      exact cut x parts.1 parts.2 taken (ih parts.2.length (by omega) parts.2 rfl)

def takeBody (c : HttpContext) (content_length : Int) (x : Bytes) : HttpContext × Bytes :=
  let need_length := content_length - c.request.body.length
  if content_length = 0 ∨ need_length ≤ 0 then ({c with status := .over},x)
  else if need_length.toNat ≤ x.length then
    ({c.addBody (x.take need_length.toNat) with status := .over},x.drop need_length.toNat)
  else (c.addBody x,[])

def bodyOf (c : HttpContext) (x : Bytes) : Parsed := c.request.contentLength.map (c.takeBody · x)

def headOf (c : HttpContext) (x : Bytes) : Parsed :=
  match _cut : takeLine x with
  | none => .ok (if maxLine < x.length then c.fail 414 else c,x)
  | some (line,rest) =>
    match c.takeHead line with
    | (none,next) => headOf next rest
    | (some true,next) => bodyOf next rest
    | (some false,next) => .ok (next,rest)
termination_by x.length
decreasing_by exact takeLine_shorter _cut

def lineOf (c : HttpContext) (x : Bytes) : Parsed :=
  match takeLine x with
  | none => .ok (if maxLine < x.length then c.fail 414 else c,x)
  | some (line,rest) =>
    match c.takeReqLine line with
    | (true,next) => headOf next rest
    | (false,next) => .ok (next,rest)

def parse (c : HttpContext) (x : Bytes) : Parsed :=
  match c.status with
  | .line => lineOf c x
  | .head => headOf c x
  | .body => bodyOf c x
  | .over | .error => .ok (c,x)

theorem parse_done (done : c.status = .over ∨ c.status = .error) : parse c x = .ok (c,x) := by
  rcases done with complete | error
  · simp [parse,complete]
  · simp [parse,error]

theorem takeHead_cases (c : HttpContext) (line : Bytes) :
    (∃ code, c.takeHead line = (some false,c.fail code)) ∨
    c.takeHead line = (some true,{c with status := .body}) ∨
    ∃ request, c.takeHead line = (none,{c with request := request}) := by
  unfold takeHead
  split
  · exact .inl ⟨_,rfl⟩
  · split
    · exact .inr (.inl rfl)
    · split
      · exact .inl ⟨_,rfl⟩
      · exact .inr (.inr ⟨_,rfl⟩)

theorem takeReqLine_cases (c : HttpContext) (line : Bytes) :
    (∃ failed, c.takeReqLine line = (false,failed) ∧ failed.status = .error) ∨
    ∃ request, c.takeReqLine line = (true,{c with request := request, status := .head}) := by
  unfold takeReqLine
  split
  · exact .inl ⟨_,rfl,rfl⟩
  · split
    · exact .inl ⟨_,rfl,rfl⟩
    · exact .inr ⟨_,rfl⟩

theorem takeHead_long (long : maxLine < line.length) : c.takeHead line = (some false,c.fail 414) := by
  rw [takeHead,if_pos long]

theorem takeReqLine_long (long : maxLine < line.length) : c.takeReqLine line = (false,c.fail 414) := by
  rw [takeReqLine,if_pos long]

theorem takeLine_append (cut : takeLine x = some (line,rest)) : takeLine (x ++ y) = some (line,rest ++ y) := by
  obtain ⟨ch,found,equal⟩ := Option.map_eq_some_iff.mp cut
  obtain ⟨inside,_⟩ := List.findIdx?_eq_some_iff_getElem.mp found
  cases equal
  have same : (x ++ y).findIdx? (· == 10) = some ch := by rw [List.findIdx?_append,found]; rfl
  rw [takeLine,same,Option.map_some,List.take_append_of_le_length inside,List.drop_append_of_le_length inside]

theorem takeLine_joined (open' : takeLine x = none) (cut : takeLine (x ++ y) = some (line,rest)) :
    x.length < line.length := by
  have absent : x.findIdx? (· == 10) = none := Option.map_eq_none_iff.mp open'
  rw [takeLine,List.findIdx?_append,absent,Option.none_or,Option.map_map] at cut
  obtain ⟨ch,found,equal⟩ := Option.map_eq_some_iff.mp cut
  obtain ⟨inside,_⟩ := List.findIdx?_eq_some_iff_getElem.mp found
  cases equal
  simp only [List.length_take,List.length_append]
  omega

def Continues (first : Parsed) (y : Bytes) (whole : Parsed) : Prop :=
  match first with
  | .error fault => whole = .error fault
  | .ok (c,rest) =>
    if c.status = .error then ∃ left, whole = .ok (c,left) else whole = parse c (rest ++ y)

theorem continues_error (failed : next.status = .error) : Continues (.ok (next,rest)) y (.ok (next,z)) := by
  simp [Continues,failed]

theorem continues_self (running : next.status ≠ .error) : Continues (.ok (next,rest)) y (parse next (rest ++ y)) := by
  simp [Continues,running]

variable {n : Int}

theorem takeBody_ended (ended : n = 0 ∨ n - c.request.body.length ≤ 0) :
    c.takeBody n x = ({c with status := .over},x) := by rw [takeBody,if_pos ended]

theorem takeBody_enough (pending : ¬(n = 0 ∨ n - c.request.body.length ≤ 0))
    (enough : (n - c.request.body.length).toNat ≤ x.length) :
    c.takeBody n x = ({c.addBody (x.take (n - c.request.body.length).toNat) with status := .over},
      x.drop (n - c.request.body.length).toNat) := by rw [takeBody,if_neg pending,if_pos enough]

theorem takeBody_short (pending : ¬(n = 0 ∨ n - c.request.body.length ≤ 0))
    (short : ¬(n - c.request.body.length).toNat ≤ x.length) : c.takeBody n x = (c.addBody x,[]) := by
  rw [takeBody,if_neg pending,if_neg short]

-- Bytes that do not complete the body all go into it; the question is then
-- asked again of the bytes that follow.
theorem takeBody_twice (pending : ¬(n = 0 ∨ n - c.request.body.length ≤ 0))
    (short : ¬(n - c.request.body.length).toNat ≤ x.length) :
    c.takeBody n (x ++ y) = (c.addBody x).takeBody n y := by
  have grown : ((c.addBody x).request.body.length : Int) = c.request.body.length + x.length := by simp [addBody]
  have pending' : ¬(n = 0 ∨ n - (c.addBody x).request.body.length ≤ 0) := by rw [grown]; omega
  by_cases enough : (n - (c.addBody x).request.body.length).toNat ≤ y.length
  · have both : (n - c.request.body.length).toNat ≤ (x ++ y).length := by
      rw [grown] at enough
      rw [List.length_append]
      omega
    have parts : (n - c.request.body.length).toNat =
        x.length + (n - (c.addBody x).request.body.length).toNat := by rw [grown]; omega
    rw [takeBody_enough pending both,takeBody_enough pending' enough,parts,List.take_length_add_append,
      List.drop_length_add_append]
    simp [addBody]
  · have both : ¬(n - c.request.body.length).toNat ≤ (x ++ y).length := by
      rw [grown] at enough
      rw [List.length_append]
      omega
    rw [takeBody_short pending both,takeBody_short pending' enough]
    simp [addBody]

theorem bodyOf_cases (parsed : bodyOf c x = .ok (next,rest)) : next = {c with status := .over} ∧ rest = x ∨
    (∃ part count, next = {c.addBody part with status := .over} ∧ rest = x.drop count) ∨
    next = c.addBody x ∧ rest = [] := by
  unfold bodyOf at parsed
  cases given : c.request.contentLength with
  | error => rw [given] at parsed; cases parsed
  | ok n =>
    rw [given] at parsed
    have equal : c.takeBody n x = (next,rest) := Except.ok.inj parsed
    unfold takeBody at equal
    dsimp only at equal
    split at equal
    · cases equal; exact .inl ⟨rfl,rfl⟩
    · split at equal
      · cases equal; exact .inr (.inl ⟨_,_,rfl,rfl⟩)
      · cases equal; exact .inr (.inr ⟨rfl,rfl⟩)

theorem bodyOf_append (active : c.status = .body) : Continues (bodyOf c x) y (bodyOf c (x ++ y)) := by
  unfold bodyOf
  cases given : c.request.contentLength with
  | error fault => rfl
  | ok n =>
    simp only [Except.map]
    by_cases ended : n = 0 ∨ n - c.request.body.length ≤ 0
    · rw [takeBody_ended ended,takeBody_ended ended,← parse_done (.inl rfl)]
      exact continues_self (by simp)
    · by_cases enough : (n - c.request.body.length).toNat ≤ x.length
      · have whole : (n - c.request.body.length).toNat ≤ (x ++ y).length := by rw [List.length_append]; omega
        rw [takeBody_enough ended enough,takeBody_enough ended whole,
          List.take_append_of_le_length enough,List.drop_append_of_le_length enough,← parse_done (.inl rfl)]
        exact continues_self (by simp)
      · rw [takeBody_short ended enough,takeBody_twice ended enough]
        have again : parse (c.addBody x) ([] ++ y) = .ok ((c.addBody x).takeBody n y) := by
          have same : (c.addBody x).request.contentLength = .ok n := given
          rw [parse,show (c.addBody x).status = .body from active]
          simp [bodyOf,same,Except.map]
        rw [← again]
        exact continues_self (by simp [addBody,active])

theorem headOf_open (open' : takeLine x = none) :
    headOf c x = .ok (if maxLine < x.length then c.fail 414 else c,x) := by
  rw [headOf]
  split
  · rfl
  · rename_i cut; rw [open'] at cut; cases cut

theorem headOf_line (cut : takeLine x = some (line,rest)) : headOf c x =
    match c.takeHead line with
    | (none,next) => headOf next rest
    | (some true,next) => bodyOf next rest
    | (some false,next) => .ok (next,rest) := by
  rw [headOf]
  split
  · rename_i open'; rw [cut] at open'; cases open'
  · rename_i found
    rw [cut] at found
    cases found
    rfl

-- The oversize test on an unterminated buffer agrees with the one on the line
-- that it becomes.
theorem headOf_append (active : c.status = .head) : Continues (headOf c x) y (headOf c (x ++ y)) := by
  induction x using takeLine_induction generalizing c with
  | pending x cut =>
    rw [headOf_open cut]
    split
    · rename_i long
      cases joined : takeLine (x ++ y) with
      | none =>
        rw [headOf_open joined,if_pos (by rw [List.length_append]; omega)]
        exact continues_error rfl
      | some parts =>
        have longer := takeLine_joined cut joined
        rw [headOf_line joined,takeHead_long (Nat.lt_trans long longer)]
        exact continues_error rfl
    · have again : headOf c (x ++ y) = parse c (x ++ y) := by simp [parse,active]
      rw [again]
      exact continues_self (by simp [active])
  | cut x line rest cut ih =>
    rw [headOf_line cut,headOf_line (takeLine_append cut)]
    rcases takeHead_cases c line with ⟨code,failed⟩ | blank | ⟨request,header⟩
    · rw [failed]; exact continues_error rfl
    · rw [blank]; exact bodyOf_append rfl
    · rw [header]; exact ih active

theorem lineOf_append (active : c.status = .line) : Continues (lineOf c x) y (lineOf c (x ++ y)) := by
  cases cut : takeLine x with
  | none =>
    simp only [lineOf,cut]
    split
    · rename_i long
      cases joined : takeLine (x ++ y) with
      | none =>
        have longer : maxLine < (x ++ y).length := by rw [List.length_append]; omega
        simp only [if_pos longer]
        exact continues_error rfl
      | some parts =>
        have longer := takeLine_joined cut joined
        simp only [takeReqLine_long (Nat.lt_trans long longer)]
        exact continues_error rfl
    · have again : lineOf c (x ++ y) = parse c (x ++ y) := by simp only [parse,active]
      rw [lineOf] at again
      rw [again]
      exact continues_self (by simp [active])
  | some parts =>
    obtain ⟨line,rest⟩ := parts
    simp only [lineOf,cut,takeLine_append cut]
    rcases takeReqLine_cases c line with ⟨failed,taken,error⟩ | ⟨request,taken⟩
    · rw [taken]; exact continues_error error
    · rw [taken]; exact headOf_append rfl

theorem parse_append (c : HttpContext) (x y : Bytes) : Continues (parse c x) y (parse c (x ++ y)) := by
  cases active : c.status with
  | error =>
    rw [parse_done (.inr active),parse_done (.inr active)]
    exact continues_error active
  | body => simpa only [parse,active] using bodyOf_append active
  | head => simpa only [parse,active] using headOf_append active
  | line => simpa only [parse,active] using lineOf_append active
  | _ =>
    have done : ∀ z, parse c z = .ok (c,z) := fun _ => parse_done (.inl active)
    simp [Continues,done,active]

theorem parse_stable (parsed : parse c x = .ok (next,rest)) : parse next rest = .ok (next,rest) := by
  have continues := parse_append c x []
  rw [parsed,List.append_nil,parsed] at continues
  simp only [Continues,List.append_nil] at continues
  split at continues
  · rename_i failed; exact parse_done (.inr failed)
  · exact continues.symm

def seen : Except Fault (HttpContext × Buffer) → Parsed := Except.map fun state => (state.1,state.2.readable)

theorem buffer_open : buf.findCRLF = none ↔ takeLine buf.readable = none := by
  simp [Buffer.findCRLF,takeLine]

theorem buffer_line (cut : takeLine buf.readable = some (line,rest)) :
    ∃ left, buf.getLineAndPop = some (line,left) ∧ left.readable = rest := by
  obtain ⟨ch,found,equal⟩ := Option.map_eq_some_iff.mp cut
  obtain ⟨inside,_⟩ := List.findIdx?_eq_some_iff_getElem.mp found
  obtain ⟨left,moved,after⟩ := buf.moveReadOffset_spec inside (Nat.succ_pos ch)
  cases equal
  have length : (buf.readable.take (ch + 1)).length = ch + 1 := by rw [List.length_take]; omega
  refine ⟨left,?_,after⟩
  have size : ch + 1 ≤ buf.readableSize := buf.readable_length ▸ inside
  simp only [Buffer.getLineAndPop,Buffer.getLine,Buffer.findCRLF,found,Buffer.readString,if_pos size,
    Option.bind_eq_bind,Option.bind_some,length,moved]
  rfl

theorem fromBody_seen (active : c.status = .body) : seen (c.fromBody buf) = bodyOf c buf.readable := by
  have length := buf.readable_length
  simp only [fromBody,recvHttpBody,active,ne_eq,not_true,if_false,bodyOf]
  cases given : c.request.contentLength with
  | error fault => rfl
  | ok n =>
    simp only [bind,Except.bind,Except.map]
    by_cases zero : n = 0
    · rw [if_pos zero,takeBody_ended (.inl zero)]; rfl
    · rw [if_neg zero]
      by_cases ended : n - c.request.body.length ≤ 0
      · rw [if_pos ended,takeBody_ended (.inr ended)]; rfl
      · have pending : ¬(n = 0 ∨ n - c.request.body.length ≤ 0) := by omega
        rw [if_neg ended]
        by_cases enough : (n - c.request.body.length).toNat ≤ buf.readableSize
        · obtain ⟨left,popped,after⟩ := buf.readStringAndPop_spec (length ▸ enough) (by omega)
          rw [if_pos enough,takeBody_enough pending (length ▸ enough),popped,← after]
          rfl
        · rw [if_neg enough,takeBody_short pending (length ▸ enough)]
          by_cases some_left : 0 < buf.readableSize
          · obtain ⟨left,popped,after⟩ := buf.readStringAndPop_spec (Nat.le_of_eq length.symm) some_left
            rw [if_pos some_left,popped]
            simp only [demand,seen,Except.map,pure,Except.pure,after]
            rw [List.take_of_length_le (Nat.le_of_eq length),List.drop_of_length_le (Nat.le_of_eq length)]
          · have empty : buf.readable = [] := List.eq_nil_of_length_eq_zero (by omega)
            rw [if_neg some_left]
            simp [seen,Except.map,pure,Except.pure,empty,addBody]

theorem recvReqHeadLoop_seen (active : c.status = .head) (enough : buf.readable.length < fuel) :
    seen (do
      let (went,c,buf) ← recvReqHeadLoop fuel c buf
      if went then c.fromBody buf else return (c,buf)) = headOf c buf.readable := by
  induction fuel generalizing c buf with
  | zero => omega
  | succ fuel ih =>
    cases cut : takeLine buf.readable with
    | none =>
      rw [headOf_open cut,buf.readable_length,recvReqHeadLoop,if_pos (buffer_open.mpr cut)]
      split
      · rfl
      · simp [bind,Except.bind,fromBody,recvHttpBody,active,seen,Except.map,pure,Except.pure]
    | some parts =>
      obtain ⟨line,rest⟩ := parts
      obtain ⟨left,popped,after⟩ := buffer_line cut
      have shorter := takeLine_shorter cut
      have present : buf.findCRLF ≠ none := fun absent => by
        rw [buffer_open.mp absent] at cut; cases cut
      rw [headOf_line cut,recvReqHeadLoop,if_neg present,popped]
      subst after
      rcases takeHead_cases c line with ⟨code,failed⟩ | blank | ⟨request,header⟩
      · simp only [demand,bind,Except.bind,failed]; rfl
      · simp only [demand,bind,Except.bind,blank]
        exact fromBody_seen (c := {c with status := .body}) rfl
      · simp only [demand,bind,Except.bind,header]
        exact ih (c := {c with request := request}) active (by omega)

theorem fromHead_seen (active : c.status = .head) : seen (c.fromHead buf) = headOf c buf.readable := by
  have loop := recvReqHeadLoop_seen active (Nat.lt_succ_self buf.readable.length)
  rw [← loop,fromHead,recvReqHead,if_neg (by simp [active]),← buf.readable_length]

theorem fromLine_seen (active : c.status = .line) : seen (c.fromLine buf) = lineOf c buf.readable := by
  rw [fromLine,recvReqLine,if_neg (by simp [active])]
  cases cut : takeLine buf.readable with
  | none =>
    rw [if_pos (buffer_open.mpr cut)]
    simp only [lineOf,cut,buf.readable_length]
    split
    · rfl
    · simp [bind,Except.bind,fromHead,recvReqHead,active,seen,Except.map,pure,Except.pure]
  | some parts =>
    obtain ⟨line,rest⟩ := parts
    obtain ⟨left,popped,after⟩ := buffer_line cut
    have present : buf.findCRLF ≠ none := fun absent => by
      rw [buffer_open.mp absent] at cut; cases cut
    rw [if_neg present,popped]
    simp only [lineOf,cut,← after]
    rcases takeReqLine_cases c line with ⟨failed,taken,_⟩ | ⟨request,taken⟩
    · simp only [demand,bind,Except.bind,taken]; rfl
    · simp only [demand,bind,Except.bind,taken]
      exact fromHead_seen (c := {c with request := request, status := .head}) rfl

-- RecvHttpRequest does to the buffer what parse does to its readable bytes; in
-- particular no Buffer assertion fails in it.
theorem recvHttpRequest_seen (c : HttpContext) (buf : Buffer) :
    seen (c.recvHttpRequest buf) = parse c buf.readable := by
  cases active : c.status with
  | line => simpa only [recvHttpRequest,parse,active] using fromLine_seen active
  | head => simpa only [recvHttpRequest,parse,active] using fromHead_seen active
  | body => simpa only [recvHttpRequest,parse,active] using fromBody_seen active
  | _ => simp only [recvHttpRequest,parse,active]; rfl

end LinuxOS.Http.HttpContext
