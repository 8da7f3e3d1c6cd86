import Mathlib.Data.List.Nodup
import Mathlib.Logic.Function.Basic

namespace LinuxOS.Links
open Function (update)
variable {Cell : Type*} {link other : Cell → Option Cell} {head front : Option Cell} {a last : Cell}
variable {cells first rest : List Cell} {n k : Nat}

-- An intrusive list: every cell's link word leads to the next cell, the last one's
-- leads nowhere.
def Chain (link : Cell → Option Cell) : Option Cell → List Cell → Prop
  | head,[] => head = none
  | head,a :: rest => head = some a ∧ Chain link (link a) rest

@[simp] theorem chain_nil : Chain link head [] ↔ head = none := Iff.rfl
@[simp] theorem chain_cons : Chain link head (a :: rest) ↔ head = some a ∧ Chain link (link a) rest := Iff.rfl

theorem Chain.agree (chain : Chain link head cells) (same : ∀ a ∈ cells, other a = link a) :
    Chain other head cells := by
  induction cells generalizing head with
  | nil => exact chain
  | cons a rest ih =>
    refine ⟨chain.1,?_⟩
    rw [same a (.head _)]
    exact ih chain.2 fun b member => same b (.tail _ member)

theorem Chain.unique (chain : Chain link head first) (chain' : Chain link head rest) : first = rest := by
  induction first generalizing head rest with
  | nil =>
    cases rest with
    | nil => rfl
    | cons a rest => cases chain.symm.trans chain'.1
  | cons a first ih =>
    cases rest with
    | nil => cases chain.1.symm.trans chain'
    | cons b rest =>
      cases chain.1.symm.trans chain'.1
      rw [ih chain.2 chain'.2]

theorem Chain.nonempty (chain : Chain link (some a) cells) : ∃ rest, cells = a :: rest := by
  cases cells with
  | nil => cases chain
  | cons b rest => cases chain.1; exact ⟨rest,rfl⟩

variable [DecidableEq Cell]

theorem Chain.push (chain : Chain link head cells) (absent : a ∉ cells) :
    Chain (update link a head) (some a) (a :: cells) := by
  refine ⟨rfl,?_⟩
  rw [Function.update_self]
  exact chain.agree fun b member => Function.update_of_ne (ne_of_mem_of_not_mem member absent) ..

theorem Chain.cut (chain : Chain link head (first ++ rest)) (final : first.getLast? = some last)
    (distinct : (first ++ rest).Nodup) :
    Chain (update link last none) head first ∧ Chain (update link last none) (link last) rest := by
  induction first generalizing head with
  | nil => cases final
  | cons a first ih =>
    rw [List.cons_append,List.nodup_cons] at distinct
    cases first with
    | nil =>
      obtain rfl : a = last := Option.some.inj final
      refine ⟨⟨chain.1,by simp⟩,chain.2.agree fun b member => Function.update_of_ne ?_ ..⟩
      exact ne_of_mem_of_not_mem member distinct.1
    | cons b first =>
      rw [List.getLast?_cons_cons] at final
      obtain ⟨front,back⟩ := ih chain.2 final distinct.2
      have different : a ≠ last := by
        rintro rfl
        exact distinct.1 (List.mem_append_left _ (List.mem_of_getLast? final))
      refine ⟨⟨chain.1,?_⟩,back⟩
      rwa [Function.update_of_ne different]

theorem Chain.join (chain : Chain link head first) (back : Chain link front rest)
    (final : first.getLast? = some last) (distinct : (first ++ rest).Nodup) :
    Chain (update link last front) head (first ++ rest) := by
  induction first generalizing head with
  | nil => cases final
  | cons a first ih =>
    rw [List.cons_append,List.nodup_cons] at distinct
    refine ⟨chain.1,?_⟩
    cases first with
    | nil =>
      obtain rfl : a = last := Option.some.inj final
      rw [Function.update_self]
      exact back.agree fun b member => Function.update_of_ne (ne_of_mem_of_not_mem member distinct.1) ..
    | cons b first =>
      rw [List.getLast?_cons_cons] at final
      have different : a ≠ last := by
        rintro rfl
        exact distinct.1 (List.mem_append_left _ (List.mem_of_getLast? final))
      rw [Function.update_of_ne different]
      exact ih chain.2 final distinct.2

omit [DecidableEq Cell]

def walk (link : Cell → Option Cell) : Nat → Cell → Nat → Cell × Nat
  | 0,a,k => (a,k)
  | n+1,a,k =>
    match link a with
    | some b => walk link n b (k+1)
    | none => (a,k)

theorem walk_spec (chain : Chain link (some a) cells) : ∃ first rest, cells = first ++ rest ∧
    first.getLast? = some (walk link n a k).1 ∧ (walk link n a k).2 + 1 = k + first.length ∧ first.head? = some a := by
  obtain ⟨tail,rfl⟩ := chain.nonempty
  induction n generalizing a k tail with
  | zero => exact ⟨[a],tail,rfl,rfl,rfl,rfl⟩
  | succ n ih =>
    have back := chain.2
    cases follows : link a with
    | none =>
      rw [walk,follows]
      exact ⟨[a],tail,rfl,rfl,rfl,rfl⟩
    | some b =>
      rw [follows] at back
      obtain ⟨more,rfl⟩ := back.nonempty
      obtain ⟨first,rest,split,final,count,start⟩ := ih (k := k+1) more back
      have step : walk link (n+1) a k = walk link n b (k+1) := by rw [walk,follows]
      rw [step]
      refine ⟨a :: first,rest,by rw [List.cons_append,split],?_,?_,rfl⟩
      · cases first with
        | nil => cases final
        | cons c first => rw [List.getLast?_cons_cons]; exact final
      · rw [List.length_cons]; omega

def stride (link : Cell → Option Cell) : Nat → Cell → Option Cell
  | 0,a => some a
  | n+1,a => (link a).bind (stride link n)

theorem stride_spec (chain : Chain link (some a) cells) (enough : n < cells.length) :
    ∃ first rest last, cells = first ++ rest ∧ stride link n a = some last ∧ first.getLast? = some last ∧
      first.length = n + 1 := by
  obtain ⟨tail,rfl⟩ := chain.nonempty
  induction n generalizing a tail with
  | zero => exact ⟨[a],tail,a,rfl,rfl,rfl,rfl⟩
  | succ n ih =>
    have back := chain.2
    cases tail with
    | nil => rw [List.length_singleton] at enough; omega
    | cons b more =>
      have follows : link a = some b := back.1
      rw [follows] at back
      obtain ⟨first,rest,last,split,reached,final,length⟩ := ih more back (by simpa using enough)
      refine ⟨a :: first,rest,last,by rw [List.cons_append,split],?_,?_,by rw [List.length_cons,length]⟩
      · rw [stride,follows]; exact reached
      · cases first with
        | nil => cases final
        | cons c first => rw [List.getLast?_cons_cons]; exact final

end LinuxOS.Links
