import LinuxOS.Http.UrlEncoding

namespace LinuxOS.Http
namespace HttpContext

-- The loop of ParseQueryString with its own test. `none` is a loop that the
-- steps did not suffice for.
def queryLoop (query : Bytes) : Nat → Nat → HttpRequest → Option HttpRequest
  | 0,_,_ => none
  | steps+1,start,r =>
    if start ≤ query.length then
      match query.find [38] start with
      | none => some (setPair r (query.drop start))
      | some stop => queryLoop query steps (stop + 1) (setPair r (query.substr start (stop - start)))
    else some r

end HttpContext

open Util HttpContext
variable {query front cells rest : Bytes} {c : UInt8} {r : HttpRequest} {start stop steps : Nat}

def encodePair (entry : Bytes × Bytes) : Bytes := urlEncode true entry.1 ++ 61 :: urlEncode true entry.2

def encodeQuery (entries : List (Bytes × Bytes)) : Bytes := [38].intercalate (entries.map encodePair)

def setEntries (r : HttpRequest) (entries : List (Bytes × Bytes)) : HttpRequest :=
  entries.foldl (fun r entry => r.setParams entry.1 entry.2) r

theorem find_at (front cells rest : Bytes) (absent : c ∉ cells) :
    Bytes.find (front ++ (cells ++ c :: rest)) [c] front.length = some (front.length + cells.length) := by
  have inside : front.length ≤ (front ++ (cells ++ c :: rest)).length := by simp
  rw [Bytes.find,if_pos inside,List.drop_left,Bytes.findHere_first rest absent]
  simp [Nat.add_comm]

theorem find_nowhere (front cells : Bytes) (absent : c ∉ cells) : Bytes.find (front ++ cells) [c] front.length = none := by
  have inside : front.length ≤ (front ++ cells).length := by simp
  rw [Bytes.find,if_pos inside,List.drop_left,Bytes.findHere_absent.mpr absent]
  rfl

theorem queryLoop_last (steps : Nat) (r : HttpRequest) (nowhere : query.find [38] start = none) :
    queryLoop query (steps + 1) start r = some (parseQueryFrom query (steps + 1) start r) := by
  rw [queryLoop,parseQueryFrom,nowhere]
  by_cases inside : start ≤ query.length
  · rw [if_pos inside]
  · have nothing : query.drop start = [] := List.drop_of_length_le (by omega)
    rw [if_neg inside]
    simp [setPair,nothing]

-- Every turn but the last moves the start on, so the loop ends, with the result
-- that the parser's own definition names.
theorem queryLoop_ends (query : Bytes) (steps start : Nat) (r : HttpRequest) (enough : query.length ≤ steps + start) :
    queryLoop query (steps + 1) start r = some (parseQueryFrom query (steps + 1) start r) := by
  induction steps generalizing start r with
  | zero =>
    cases found : query.find [38] start with
    | none => exact queryLoop_last 0 r found
    | some stop =>
      obtain ⟨_,_,_,_,moved,inside⟩ := Bytes.find_some found
      omega
  | succ steps ih =>
    cases found : query.find [38] start with
    | none => exact queryLoop_last (steps + 1) r found
    | some stop =>
      obtain ⟨_,_,_,_,moved,inside⟩ := Bytes.find_some found
      rw [queryLoop,parseQueryFrom,found,if_pos (by omega)]
      exact ih (stop + 1) _ (by omega)

theorem equals_absent (key : Bytes) : 61 ∉ urlEncode true key := urlEncode_absent key (by decide)

theorem encodePair_single (entry : Bytes × Bytes) : 38 ∉ encodePair entry := by
  have key : (38 : UInt8) ∉ urlEncode true entry.1 := urlEncode_absent entry.1 (by decide)
  have value : (38 : UInt8) ∉ urlEncode true entry.2 := urlEncode_absent entry.2 (by decide)
  simp [encodePair,key,value]

theorem setPair_encoded (r : HttpRequest) (entry : Bytes × Bytes) :
    setPair r (encodePair entry) = r.setParams entry.1 entry.2 := by
  have some_byte : encodePair entry ≠ [] := by simp [encodePair]
  have equals : Bytes.find (encodePair entry) [61] 0 = some (urlEncode true entry.1).length :=
    find_first _ (equals_absent entry.1)
  have key : (encodePair entry).take (urlEncode true entry.1).length = urlEncode true entry.1 := List.take_left
  have value : (encodePair entry).drop ((urlEncode true entry.1).length + 1) = urlEncode true entry.2 := by
    rw [encodePair,List.drop_length_add_append]
    rfl
  rw [setPair,if_neg some_byte,equals]
  simp only [key,value,urlDecode_urlEncode]

theorem encodeQuery_cons (entry next : Bytes × Bytes) (entries : List (Bytes × Bytes)) :
    encodeQuery (entry :: next :: entries) = encodePair entry ++ 38 :: encodeQuery (next :: entries) := by
  simp [encodeQuery,List.intercalate_cons_cons]

theorem queryLoop_encoded (front : Bytes) (r : HttpRequest) (entry : Bytes × Bytes) (entries : List (Bytes × Bytes))
    (enough : entries.length ≤ steps) :
    queryLoop (front ++ encodeQuery (entry :: entries)) (steps + 1) front.length r =
      some (setEntries r (entry :: entries)) := by
  induction entries generalizing front r entry steps with
  | nil =>
    have alone : encodeQuery [entry] = encodePair entry := List.intercalate_singleton
    rw [alone,queryLoop,if_pos (by simp),find_nowhere _ _ (encodePair_single entry)]
    simp only [List.drop_left,setPair_encoded]
    rfl
  | cons next entries ih =>
    cases steps with
    | zero => simp at enough
    | succ steps =>
      have after : front ++ (encodePair entry ++ 38 :: encodeQuery (next :: entries)) =
          (front ++ encodePair entry ++ [38]) ++ encodeQuery (next :: entries) := by simp
      have piece : Bytes.substr (front ++ (encodePair entry ++ 38 :: encodeQuery (next :: entries))) front.length
          (front.length + (encodePair entry).length - front.length) = encodePair entry := by
        rw [Bytes.substr,List.drop_left,Nat.add_sub_cancel_left,List.take_left]
      have place : front.length + (encodePair entry).length + 1 = (front ++ encodePair entry ++ [38]).length := by
        simp [Nat.add_assoc]
      rw [encodeQuery_cons,queryLoop,if_pos (by simp),find_at _ _ _ (encodePair_single entry)]
      simp only [piece,setPair_encoded,place]
      rw [after,ih _ _ next (Nat.le_of_succ_le_succ enough)]
      rfl

theorem setEntries_params (r : HttpRequest) (entries : List (Bytes × Bytes)) :
    (setEntries r entries).params = addAll r.params entries := by
  induction entries generalizing r with
  | nil => rfl
  | cons entry entries ih => exact ih _

theorem addAll_holds (entries : List (Bytes × Bytes)) (keys : (entries.map Prod.fst).Nodup) (key value : Bytes) :
    (addAll ∅ entries).lookup key = some value ↔ (key,value) ∈ entries := by
  constructor
  · intro found
    by_cases member : key ∈ entries.map Prod.fst
    · obtain ⟨entry,listed,rfl⟩ := List.mem_map.mp member
      rw [addAll_present ∅ entries keys listed] at found
      cases found
      exact listed
    · rw [addAll_absent ∅ entries member,Finmap.lookup_empty] at found
      cases found
  · exact addAll_present ∅ entries keys

theorem addAll_map (m : Dict) (entries : List (Bytes × Bytes)) (keys : (entries.map Prod.fst).Nodup)
    (holds : ∀ key value, m.lookup key = some value ↔ (key,value) ∈ entries) : addAll ∅ entries = m := by
  apply Finmap.ext_lookup
  intro key
  ext value
  rw [holds,addAll_holds entries keys]

theorem encodeQuery_length (entry : Bytes × Bytes) (entries : List (Bytes × Bytes)) :
    entries.length ≤ (encodeQuery (entry :: entries)).length := by
  induction entries generalizing entry with
  | nil => simp
  | cons next entries ih =>
    have later := ih next
    rw [encodeQuery_cons]
    simp only [List.length_cons,List.length_append]
    omega

theorem parseQueryString_encoded (m : Dict) (entries : List (Bytes × Bytes)) (r : HttpRequest)
    (keys : (entries.map Prod.fst).Nodup) (holds : ∀ key value, m.lookup key = some value ↔ (key,value) ∈ entries)
    (query : r.queryString = encodeQuery entries) (empty : r.params = ∅) :
    queryLoop r.queryString (r.queryString.length + 1) 0 r = some (parseQueryString r) ∧
      (parseQueryString r).params = m := by
  have ends : queryLoop r.queryString (r.queryString.length + 1) 0 r = some (parseQueryString r) :=
    queryLoop_ends r.queryString r.queryString.length 0 r (Nat.le_add_right _ 0)
  have entered : parseQueryString r = setEntries r entries := by
    cases entries with
    | nil =>
      have blank : r.queryString = [] := query
      rw [parseQueryString,blank]
      rfl
    | cons entry entries =>
      rw [query] at ends
      have looped := queryLoop_encoded [] r entry entries (encodeQuery_length entry entries)
      exact Option.some.inj (ends.symm.trans looped)
  refine ⟨ends,?_⟩
  rw [entered,setEntries_params,empty]
  exact addAll_map m entries keys holds

theorem parseQueryString_two :
    queryLoop (ascii "a%26=%3D&=+%25") 15 0 {queryString := ascii "a%26=%3D&=+%25"} =
      some (parseQueryString {queryString := ascii "a%26=%3D&=+%25"}) ∧
    (parseQueryString {queryString := ascii "a%26=%3D&=+%25"}).params = addAll ∅ [(ascii "a&",ascii "="),([],ascii " %")] :=
  parseQueryString_encoded _ [(ascii "a&",ascii "="),([],ascii " %")] {queryString := ascii "a%26=%3D&=+%25"}
    (by decide) (addAll_holds _ (by decide)) (by decide) rfl

end LinuxOS.Http
