import Mathlib.Data.List.Infix
import Mathlib.Data.Nat.Find

namespace LinuxOS.Separators
variable {Letter : Type*} {sep text front rest piece : List Letter} {pieces : List (List Letter)} {k : Nat}

def First (sep front rest : List Letter) : Prop := ∀ k < front.length, ¬sep <+: (front ++ (sep ++ rest)).drop k

-- The text read from the left, cut at each separator that is met; the next one is looked for after
-- its end, so separators do not overlap.
inductive Scanned (sep : List Letter) : List Letter → List (List Letter) → Prop
  | last {text : List Letter} (clean : ¬sep <:+: text) : Scanned sep text [text]
  | next {front rest : List Letter} {pieces : List (List Letter)} (first : First sep front rest)
      (later : Scanned sep rest pieces) : Scanned sep (front ++ (sep ++ rest)) (front :: pieces)

theorem First.clean (first : First sep front rest) (some_letter : sep ≠ []) : ¬sep <:+: front := by
  rintro ⟨before,after,rfl⟩
  have positive : 0 < sep.length := List.length_pos_iff.mpr some_letter
  refine first before.length (by simp; omega) ⟨after ++ (sep ++ rest),?_⟩
  rw [List.append_assoc,List.append_assoc,List.drop_left]

theorem Scanned.nonempty (scanned : Scanned sep text pieces) : pieces ≠ [] := by
  cases scanned <;> exact List.cons_ne_nil _ _

theorem Scanned.clean (scanned : Scanned sep text pieces) (some_letter : sep ≠ []) (member : piece ∈ pieces) :
    ¬sep <:+: piece := by
  induction scanned with
  | last clean => exact List.mem_singleton.mp member ▸ clean
  | next first later ih =>
    rcases List.mem_cons.mp member with rfl | found
    · exact first.clean some_letter
    · exact ih found

theorem Scanned.join (scanned : Scanned sep text pieces) : sep.intercalate pieces = text := by
  induction scanned with
  | last clean => exact List.intercalate_singleton
  | @next front rest pieces first later ih =>
    cases pieces with
    | nil => exact absurd rfl later.nonempty
    | cons piece more => rw [List.intercalate_cons_cons,ih,List.append_assoc]

theorem first_exists (found : sep <:+: text) : ∃ front rest, text = front ++ (sep ++ rest) ∧ First sep front rest := by
  classical
  obtain ⟨before,after,shape⟩ := found
  have somewhere : ∃ k, sep <+: text.drop k := by
    refine ⟨before.length,after,?_⟩
    rw [← shape,List.append_assoc,List.drop_left]
  obtain ⟨rest,here⟩ := Nat.find_spec somewhere
  have whole : text = text.take (Nat.find somewhere) ++ (sep ++ rest) := by rw [here,List.take_append_drop]
  refine ⟨text.take (Nat.find somewhere),rest,whole,fun k early => ?_⟩
  rw [← whole]
  rw [List.length_take] at early
  exact Nat.find_min somewhere (by omega)

theorem scanned_exists (some_letter : sep ≠ []) (text : List Letter) : ∃ pieces, Scanned sep text pieces := by
  by_cases found : sep <:+: text
  · obtain ⟨front,rest,shape,first⟩ := first_exists found
    have shorter : rest.length < text.length := by
      have positive : 0 < sep.length := List.length_pos_iff.mpr some_letter
      simp only [shape,List.length_append]
      omega
    obtain ⟨pieces,later⟩ := scanned_exists some_letter rest
    exact ⟨front :: pieces,shape ▸ .next first later⟩
  · exact ⟨[text],.last found⟩
termination_by text.length

theorem intercalate_concat (some_piece : pieces ≠ []) (piece : List Letter) :
    sep.intercalate (pieces ++ [piece]) = sep.intercalate pieces ++ (sep ++ piece) := by
  induction pieces with
  | nil => exact absurd rfl some_piece
  | cons first more ih =>
    cases more with
    | nil => simp [List.intercalate_singleton,List.intercalate_cons_cons]
    | cons second more =>
      rw [List.cons_append,List.cons_append,List.intercalate_cons_cons,← List.cons_append,ih (List.cons_ne_nil _ _),
        List.intercalate_cons_cons]
      simp only [List.append_assoc]

end LinuxOS.Separators

namespace LinuxOS.Streams
variable {Item Letter : Type*} {text : Item → List Letter} {items front back : List Item} {x rest : List Letter}

-- What has come so far of a stream of items: whole ones, then a beginning of
-- the next.
structure Come (text : Item → List Letter) (items : List Item) (x : List Letter) (front back : List Item)
    (rest : List Letter) : Prop where
  items : items = front ++ back
  whole : x = front.flatMap text ++ rest
  part : back = [] ∧ rest = [] ∨ ∃ next later, back = next :: later ∧ rest <+: text next ∧ rest ≠ text next

theorem come_exists (starts : x <+: items.flatMap text) : ∃ front back rest, Come text items x front back rest := by
  induction items generalizing x with
  | nil => exact ⟨[],[],[],rfl,List.prefix_nil.mp starts,.inl ⟨rfl,rfl⟩⟩
  | cons item items ih =>
    rw [List.flatMap_cons] at starts
    by_cases whole : text item <+: x
    · obtain ⟨y,rfl⟩ := whole
      obtain ⟨front,back,rest,come⟩ := ih ((List.prefix_append_right_inj _).mp starts)
      refine ⟨item :: front,back,rest,by rw [come.items]; rfl,?_,come.part⟩
      rw [come.whole,List.flatMap_cons,List.append_assoc]
    · have short : x <+: text item :=
        (List.prefix_or_prefix_of_prefix starts (List.prefix_append _ _)).resolve_right whole
      refine ⟨[],item :: items,x,rfl,rfl,.inr ⟨item,items,rfl,short,?_⟩⟩
      rintro rfl
      exact whole (List.prefix_refl _)

theorem Come.ends (come : Come text items (items.flatMap text) front back rest) : back = [] ∧ rest = [] := by
  rcases come.part with done | ⟨next,later,rfl,short,other⟩
  · exact done
  · have same := come.whole
    rw [come.items,List.flatMap_append,List.flatMap_cons] at same
    obtain ⟨missing,split⟩ := short
    have lengths := congrArg List.length (List.append_cancel_left same)
    rw [← split,List.length_append,List.length_append] at lengths
    have none : missing = [] := List.eq_nil_of_length_eq_zero (by omega)
    rw [none,List.append_nil] at split
    exact absurd split other

end LinuxOS.Streams
