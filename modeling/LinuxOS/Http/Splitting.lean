import Mathlib.Algebra.Group.Nat.Defs
import LinuxOS.Separators
import LinuxOS.Http.Util

namespace LinuxOS.Http
open Separators
variable {src sep text : Bytes} {arr out pieces : List Bytes} {offset fuel stop : Nat}

namespace Util

-- The loop of Split, with its offset and its vector when it ends. Each turn takes a byte or more, and
-- fuel.
def splitLoop (src sep : Bytes) : Nat → Nat → List Bytes → Option (Nat × List Bytes)
  | 0,_,_ => none
  | fuel+1,offset,arr =>
    if offset < src.length then
      match src.find sep offset with
      | some pos => splitLoop src sep fuel (pos + sep.length) (arr ++ [src.substr offset (pos - offset)])
      | none => some (offset,arr ++ [src.drop offset])
    else some (offset,arr)

-- Split with what it returns, an int, and its vector.
def splitInto (src sep : Bytes) (arr : List Bytes) : Option (Int × List Bytes) :=
  if src = [] then some (0,arr)
  else (splitLoop src sep (src.length+1) 0 arr).map fun (_,arr) => (Int.bmod arr.length (2^32),arr)

def endsAfterSeparator (src sep : Bytes) : Bool :=
  src ≠ [] ∧ (splitLoop src sep (src.length+1) 0 []).map Prod.fst = some src.length

end Util

open Util

-- Split drops an empty piece at the end, and only there.
def trimmed (pieces : List Bytes) : List Bytes := if pieces.getLast? = some [] then pieces.dropLast else pieces

theorem trimmed_cons {pieces : List Bytes} (s : Bytes) (more : pieces ≠ []) : trimmed (s :: pieces) = s :: trimmed pieces := by
  cases pieces with
  | nil => exact absurd rfl more
  | cons t pieces =>
    simp only [trimmed,List.getLast?_cons_cons,List.dropLast_cons_cons]
    split <;> rfl

theorem trimmed_cases (pieces : List Bytes) : pieces = trimmed pieces ∨ pieces = trimmed pieces ++ [[]] := by
  unfold trimmed
  split
  · rename_i ended
    obtain ⟨front,shape⟩ := List.getLast?_eq_some_iff.mp ended
    right
    rw [shape,List.dropLast_concat]
  · exact .inl rfl

theorem splitLoop_scanned (some_letter : sep ≠ []) (scanned : Scanned sep text pieces) (here : src.drop offset = text)
    (inside : offset ≤ src.length) (enough : src.length - offset < fuel) (arr : List Bytes) :
    ∃ stop, splitLoop src sep fuel offset arr = some (stop,arr ++ trimmed pieces) ∧
      (stop = src.length ↔ pieces.getLast? = some []) := by
  induction scanned generalizing offset fuel arr with
  | @last text clean =>
    obtain ⟨fuel,rfl⟩ := Nat.exists_eq_succ_of_ne_zero (Nat.ne_of_gt (Nat.zero_lt_of_lt enough))
    have length := congrArg List.length here
    rw [List.length_drop] at length
    refine ⟨offset,?_,?_⟩
    · rw [splitLoop]
      split
      · rename_i before
        have nowhere : src.find sep offset = none := by
          rw [Bytes.find,if_pos inside,here,Bytes.findHere_none.mpr clean]
          rfl
        have some_byte : text ≠ [] := List.ne_nil_of_length_pos (by omega)
        rw [nowhere,here]
        simp [trimmed,some_byte]
      · have empty : text = [] := List.eq_nil_of_length_eq_zero (by omega)
        simp [trimmed,empty]
    · rw [List.getLast?_singleton,Option.some.injEq,← List.length_eq_zero_iff]
      omega
  | @next front rest pieces first later ih =>
    obtain ⟨fuel,rfl⟩ := Nat.exists_eq_succ_of_ne_zero (Nat.ne_of_gt (Nat.zero_lt_of_lt enough))
    have positive : 0 < sep.length := List.length_pos_iff.mpr some_letter
    have length := congrArg List.length here
    simp only [List.length_drop,List.length_append] at length
    have found : src.find sep offset = some (front.length + offset) := by
      rw [Bytes.find,if_pos inside,here,Bytes.findHere_at first]
      rfl
    have piece : src.substr offset (front.length + offset - offset) = front := by
      rw [Bytes.substr,here,Nat.add_sub_cancel,List.take_left]
    have after : src.drop (front.length + offset + sep.length) = rest := by
      have order : front.length + offset + sep.length = offset + (front ++ sep).length := by
        rw [List.length_append]; omega
      rw [order,← List.drop_drop,here,← List.append_assoc,List.drop_left]
    have shorter : src.length - (front.length + offset + sep.length) < fuel := by omega
    obtain ⟨stop,ran,ended⟩ := ih after (by omega) shorter (arr ++ [front])
    refine ⟨stop,?_,?_⟩
    · rw [splitLoop,if_pos (by omega),found]
      simp only [piece]
      rw [ran,trimmed_cons front later.nonempty,List.append_assoc]
      rfl
    · rw [ended]
      cases shape : pieces with
      | nil => exact absurd shape later.nonempty
      | cons second more => rw [List.getLast?_cons_cons]

theorem splitLoop_splitFrom (some_letter : sep ≠ []) (enough : src.length - offset ≤ fuel)
    (ran : splitLoop src sep (fuel+1) offset arr = some (stop,out)) : out = arr ++ splitFrom src sep fuel offset := by
  induction fuel generalizing offset arr with
  | zero =>
    rw [splitLoop,if_neg (by omega)] at ran
    cases ran
    simp [splitFrom]
  | succ fuel ih =>
    rw [splitLoop] at ran
    rw [splitFrom]
    split at ran
    · rename_i before
      rw [if_pos before]
      cases found : src.find sep offset with
      | none =>
        rw [found] at ran
        cases ran
        rfl
      | some pos =>
        rw [found] at ran
        have positive : 0 < sep.length := List.length_pos_iff.mpr some_letter
        have moved : offset ≤ pos := by
          obtain ⟨k,_,rfl⟩ := Option.map_eq_some_iff.mp ((Option.ite_none_right_eq_some.mp found).2)
          exact Nat.le_add_left ..
        rw [ih (by omega) ran,List.append_assoc]
        rfl
    · rename_i ended
      rw [if_neg ended]
      cases ran
      simp

theorem splitLoop_whole (some_letter : sep ≠ []) (scanned : Scanned sep src pieces) (arr : List Bytes) :
    ∃ stop, splitLoop src sep (src.length+1) 0 arr = some (stop,arr ++ trimmed pieces) ∧
      (stop = src.length ↔ pieces.getLast? = some []) :=
  splitLoop_scanned some_letter scanned (List.drop_zero ..) (Nat.zero_le _) (Nat.lt_succ_self _) arr

theorem split_scanned (some_letter : sep ≠ []) (scanned : Scanned sep src pieces) : split src sep = trimmed pieces := by
  obtain ⟨stop,ran,_⟩ := splitLoop_whole some_letter scanned []
  exact (splitLoop_splitFrom some_letter (Nat.sub_le ..) ran).symm

theorem trimmed_join (scanned : Scanned sep text pieces) (some_byte : text ≠ []) :
    sep.intercalate (trimmed pieces) ++ (if pieces.getLast? = some [] then sep else []) = text := by
  have whole := scanned.join
  by_cases ended : pieces.getLast? = some []
  · obtain ⟨front,rfl⟩ := List.getLast?_eq_some_iff.mp ended
    have some_piece : front ≠ [] := by
      rintro rfl
      exact some_byte whole.symm
    rw [intercalate_concat some_piece,List.append_nil] at whole
    rw [trimmed,if_pos ended,if_pos ended,List.dropLast_concat]
    exact whole
  · rw [trimmed,if_neg ended,if_neg ended,List.append_nil]
    exact whole

theorem mem_trimmed {s : Bytes} (member : s ∈ trimmed pieces) : s ∈ pieces := by
  rcases trimmed_cases pieces with whole | ended
  · rw [whole]; exact member
  · rw [ended]; exact List.mem_append_left _ member

-- With the two things that its result says otherwise: an empty source gives 0, whatever the vector
-- has, and the size is an int.
theorem split_loses_nothing (src sep : Bytes) (arr : List Bytes) (some_letter : sep ≠ []) : ∃ segments,
    splitInto src sep arr = some (if src = [] then 0 else Int.bmod (arr ++ segments).length (2^32),arr ++ segments) ∧
      (∀ s ∈ segments, ¬sep <:+: s) ∧
      sep.intercalate segments ++ (if endsAfterSeparator src sep = true then sep else []) = src := by
  by_cases empty : src = []
  · refine ⟨[],?_,by simp,?_⟩
    · rw [splitInto,if_pos empty,if_pos empty,List.append_nil]
    · simp [endsAfterSeparator,empty]
  · obtain ⟨pieces,scanned⟩ := scanned_exists some_letter src
    have after : endsAfterSeparator src sep = true ↔ pieces.getLast? = some [] := by
      obtain ⟨stop,ran,ended⟩ := splitLoop_whole some_letter scanned []
      rw [← ended,endsAfterSeparator,ran]
      simp [empty]
    obtain ⟨stop,ran,_⟩ := splitLoop_whole some_letter scanned arr
    refine ⟨trimmed pieces,?_,fun s member => scanned.clean some_letter (mem_trimmed member),?_⟩
    · rw [splitInto,if_neg empty,if_neg empty]
      exact congrArg (Option.map _) ran
    · simp only [after]
      exact trimmed_join scanned empty

theorem split_loses_nothing_path : ∃ segments, splitInto (ascii "/a//b/") [47] [ascii "x"] =
    some (if ascii "/a//b/" = [] then 0 else Int.bmod ([ascii "x"] ++ segments).length (2^32),[ascii "x"] ++ segments) ∧
      (∀ s ∈ segments, ¬[47] <:+: s) ∧
      [47].intercalate segments ++ (if endsAfterSeparator (ascii "/a//b/") [47] = true then [47] else []) = ascii "/a//b/" :=
  split_loses_nothing (ascii "/a//b/") [47] [ascii "x"] (List.cons_ne_nil _ _)

-- An empty source returns 0 where the vector has a segment from before.
theorem split_empty_source : ¬∀ (src sep : Bytes) (arr : List Bytes), sep ≠ [] → ∃ (size : Int) (segments : List Bytes),
    splitInto src sep arr = some (size,arr ++ segments) ∧ size = (arr ++ segments).length ∧ (∀ s ∈ segments, ¬sep <:+: s) ∧
      sep.intercalate segments ++ (if endsAfterSeparator src sep = true then sep else []) = src := by
  intro claimed
  obtain ⟨size,segments,made,sized,_⟩ := claimed [] [47] [[97]] (List.cons_ne_nil _ _)
  obtain ⟨zero,_⟩ := Prod.mk.inj (Option.some.inj made)
  rw [← zero] at sized
  simp at sized
  omega

end LinuxOS.Http
