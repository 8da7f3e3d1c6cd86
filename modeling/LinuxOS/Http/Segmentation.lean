import LinuxOS.Http.Stream

namespace LinuxOS.Http.HttpContext
open Muduo
variable {c : HttpContext} {x : Bytes} {state : HttpContext × Buffer}

-- One read: the chunk is appended, and the parser is called unless it has
-- finished one way or the other.
def feed (state : HttpContext × Buffer) (chunk : Bytes) : Except Fault (HttpContext × Buffer) := do
  let buf ← demand (state.2.writeAndPush chunk)
  if state.1.status = .over ∨ state.1.status = .error then return (state.1,buf)
  else state.1.recvHttpRequest buf

def feedAll : HttpContext × Buffer → List Bytes → Except Fault (HttpContext × Buffer)
  | state,[] => .ok state
  | state,chunk :: rest => do feedAll (← feed state chunk) rest

def Alike : Parsed → Parsed → Prop
  | .error left,.error right => left = right
  | .ok left,.ok right => left.1 = right.1 ∧ (left.1.status ≠ .error → left.2 = right.2)
  | _,_ => False

theorem alike_refl (end' : Parsed) : Alike end' end' := by
  cases end' with
  | error => rfl
  | ok => exact ⟨rfl,fun _ => rfl⟩

theorem feed_seen (state : HttpContext × Buffer) (chunk : Bytes) :
    seen (feed state chunk) = parse state.1 (state.2.readable ++ chunk) := by
  obtain ⟨buf,written,readable⟩ := state.2.writeAndPush_spec chunk
  simp only [feed,written,demand,bind,Except.bind]
  split
  · rename_i done
    rw [parse_done done,← readable]
    rfl
  · rw [recvHttpRequest_seen,readable]

theorem feedAll_alike (stable : parse state.1 state.2.readable = .ok (state.1,state.2.readable))
    (chunks : List Bytes) :
    Alike (seen (feedAll state chunks)) (parse state.1 (state.2.readable ++ chunks.flatten)) := by
  induction chunks generalizing state with
  | nil =>
    rw [List.flatten_nil,List.append_nil,stable]
    exact alike_refl _
  | cons chunk rest ih =>
    have continues := parse_append state.1 (state.2.readable ++ chunk) rest.flatten
    have first := feed_seen state chunk
    rw [List.flatten_cons,← List.append_assoc]
    cases fed : feed state chunk with
    | error fault =>
      rw [fed] at first
      rw [← first] at continues
      have whole : parse state.1 (state.2.readable ++ chunk ++ rest.flatten) = .error fault := continues
      rw [whole]
      simp only [feedAll,fed]
      rfl
    | ok middle =>
      rw [fed] at first
      have parsed : parse state.1 (state.2.readable ++ chunk) = .ok (middle.1,middle.2.readable) := first.symm
      have later := ih (parse_stable parsed)
      have run : feedAll state (chunk :: rest) = feedAll middle rest := by
        simp only [feedAll,fed]
        rfl
      rw [parsed] at continues
      simp only [Continues] at continues
      rw [run]
      split at continues
      · rename_i failed
        obtain ⟨left,whole⟩ := continues
        rw [whole]
        rw [parse_done (.inr failed)] at later
        cases ended : seen (feedAll middle rest) with
        | error => rw [ended] at later; exact later.elim
        | ok last =>
          rw [ended] at later
          obtain ⟨same,_⟩ := later
          exact ⟨same,fun running => absurd (same ▸ failed) running⟩
      · rw [continues]
        exact later

theorem segmentation_irrelevant (chunks : List Bytes) :
    Alike (seen (feedAll ({},{}) chunks)) (seen (feed ({},{}) chunks.flatten)) := by
  have fresh : parse {} ({} : Buffer).readable = .ok ({},({} : Buffer).readable) := by
    rw [Buffer.readable_start]
    rfl
  rw [feed_seen]
  exact feedAll_alike fresh chunks

example : (seen (feedAll ({},{}) [ascii "GET /a HT",ascii "TP/1.1\r",ascii "\nContent-Length: 3\r\n\r\nab",
    ascii "cd"])).map (fun s => (s.1.status,s.1.request.body,s.2)) = .ok (.over,ascii "abc",ascii "d") := by
  decide +kernel

end LinuxOS.Http.HttpContext
