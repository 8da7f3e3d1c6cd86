import Mathlib.Data.List.Infix

namespace LinuxOS

-- std::string, char arrays and what recv and send move: plain bytes.
abbrev Bytes := List UInt8

def ascii (text : String) : Bytes := text.toList.map fun c => UInt8.ofNat c.toNat

def isspace (c : UInt8) : Bool := c = 32 ∨ (9 ≤ c ∧ c ≤ 13)

namespace Bytes

def splice (cells : Bytes) (at' : Nat) (data : Bytes) : Bytes :=
  cells.take at' ++ data ++ cells.drop (at' + data.length)

theorem splice_length {cells data : Bytes} (fits : at' + data.length ≤ cells.length) :
    (cells.splice at' data).length = cells.length := by
  simp [splice]; omega

theorem splice_inside {cells data : Bytes} (inside : at' ≤ cells.length) :
    at' ≤ (cells.splice at' data).length := by
  simp [splice]; omega

theorem splice_before {cells data : Bytes} (inside : at' ≤ cells.length) (front : count ≤ at') :
    (cells.splice at' data).take count = cells.take count := by
  rw [splice,List.append_assoc,List.take_append_of_le_length (by simp; omega),List.take_take,
    Nat.min_eq_left front]

theorem splice_through (cells data : Bytes) (inside : at' ≤ cells.length) :
    (cells.splice at' data).take (at' + data.length) = cells.take at' ++ data := by
  have length : (cells.take at' ++ data).length = at' + data.length := by simp; omega
  rw [splice,← length,List.take_left']
  rfl

-- A write into an array of fixed size: none is a write past its end.
def store (cells : Bytes) (at' : Nat) (data : Bytes) : Option Bytes :=
  if at' + data.length ≤ cells.length then some (cells.splice at' data) else none

theorem store_fits {cells data : Bytes} (fits : at' + data.length ≤ cells.length) :
    cells.store at' data = some (cells.splice at' data) := if_pos fits

theorem store_past {cells data : Bytes} (past : cells.length < at' + data.length) : cells.store at' data = none :=
  if_neg (Nat.not_le_of_gt past)

theorem store_front (cells data : Bytes) :
    cells.store 0 data = if data.length ≤ cells.length then some (data ++ cells.drop data.length) else none := by
  simp [store,splice]

theorem store_between (front old data back : Bytes) (same : old.length = data.length) :
    store (front ++ (old ++ back)) front.length data = some (front ++ (data ++ back)) := by
  rw [store_fits (by simp only [List.length_append]; omega),splice,List.take_left,← List.drop_drop,List.drop_left,
    ← same,List.drop_left,List.append_assoc]

-- std::string::find, from the front and from an offset on.
def findHere (sub : Bytes) : Bytes → Option Nat
  | [] => if sub = [] then some 0 else none
  | c :: rest =>
    if sub.isPrefixOf (c :: rest) then some 0 else (findHere sub rest).map (· + 1)

def find (cells sub : Bytes) (offset : Nat) : Option Nat :=
  if offset ≤ cells.length then (findHere sub (cells.drop offset)).map (· + offset) else none

def substr (cells : Bytes) (pos count : Nat) : Bytes := (cells.drop pos).take count

theorem findHere_none {sub cells : Bytes} : findHere sub cells = none ↔ ¬sub <:+: cells := by
  induction cells with
  | nil => by_cases empty : sub = [] <;> simp [findHere,empty]
  | cons c rest ih =>
    rw [findHere,List.infix_cons_iff,← List.isPrefixOf_iff_prefix]
    split <;> simp_all

theorem findHere_at {sub front rest : Bytes} (first : ∀ k < front.length, ¬sub <+: (front ++ (sub ++ rest)).drop k) :
    findHere sub (front ++ (sub ++ rest)) = some front.length := by
  induction front with
  | nil =>
    have here : sub <+: sub ++ rest := List.prefix_append ..
    cases shape : sub ++ rest with
    | nil => simp_all [findHere]
    | cons c more =>
      rw [shape] at here
      simp [findHere,List.isPrefixOf_iff_prefix.mpr here]
  | cons c front ih =>
    have other : ¬sub.isPrefixOf (c :: (front ++ (sub ++ rest))) = true := fun here =>
      first 0 (Nat.succ_pos _) (List.isPrefixOf_iff_prefix.mp here)
    have later := ih fun k early => first (k+1) (Nat.succ_lt_succ early)
    rw [List.cons_append,findHere,if_neg other,later]
    rfl

theorem findHere_absent {cells : Bytes} : findHere [c] cells = none ↔ c ∉ cells := by
  rw [findHere_none,List.singleton_infix_iff]

theorem findHere_first {front : Bytes} (rest : Bytes) (absent : c ∉ front) :
    findHere [c] (front ++ c :: rest) = some front.length := by
  change findHere [c] (front ++ ([c] ++ rest)) = _
  refine findHere_at fun k early here => absent ?_
  rw [List.drop_append_of_le_length (Nat.le_of_lt early),List.drop_eq_getElem_cons early] at here
  have same : c = front[k] := (List.cons_prefix_cons.mp here).1
  rw [same]
  exact List.getElem_mem early

theorem findHere_some {cells : Bytes} (found : findHere [c] cells = some at') :
    ∃ front rest, cells = front ++ c :: rest ∧ c ∉ front ∧ front.length = at' := by
  induction cells generalizing at' with
  | nil => simp [findHere] at found
  | cons d rest ih =>
    simp only [findHere] at found
    split at found
    · rename_i here
      cases found
      have same : c = d := by simpa using here
      exact ⟨[],rest,by rw [same]; rfl,by simp,rfl⟩
    · rename_i other
      obtain ⟨at'',later,equal⟩ := Option.map_eq_some_iff.mp found
      obtain ⟨front,tail,split,absent,length⟩ := ih later
      have different : c ≠ d := by simpa using other
      exact ⟨d :: front,tail,by rw [split]; rfl,by simp [different,absent],by simp [length,equal]⟩

theorem find_some {cells : Bytes} (found : cells.find [c] offset = some stop) :
    ∃ front rest, cells.drop offset = front ++ c :: rest ∧ c ∉ front ∧ offset + front.length = stop ∧ stop < cells.length := by
  unfold find at found
  split at found
  · rename_i inside
    obtain ⟨at',here,place⟩ := Option.map_eq_some_iff.mp found
    obtain ⟨front,rest,cut,absent,length⟩ := findHere_some here
    have room := congrArg List.length cut
    simp only [List.length_drop,List.length_append,List.length_cons] at room
    exact ⟨front,rest,cut,absent,by omega,by omega⟩
  · cases found

end Bytes
end LinuxOS
