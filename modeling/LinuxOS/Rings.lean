import Mathlib.Data.List.Chain
import Mathlib.Data.List.Nodup
import Mathlib.Logic.Function.Basic

namespace LinuxOS.Rings
open Function (update)

-- The two link words of every cell; none is the null pointer.
structure Links (Cell : Type*) where
  next : Cell → Option Cell
  prev : Cell → Option Cell

variable {Cell : Type*} {m other : Links Cell} {head p x n stop : Cell} {cells before after : List Cell} {fuel : Nat}

def Links.Joined (m : Links Cell) (a b : Cell) : Prop := m.next a = some b ∧ m.prev b = some a

def Links.flip (m : Links Cell) : Links Cell := ⟨m.prev,m.next⟩

-- A way along the links, both ways joined. It may end where it began, but it leaves no cell twice
-- and enters none twice.
structure Way (m : Links Cell) (cells : List Cell) : Prop where
  joined : cells.IsChain m.Joined
  left : cells.dropLast.Nodup
  entered : cells.tail.Nodup

def Ring (m : Links Cell) (head : Cell) (cells : List Cell) : Prop := Way m (head :: (cells ++ [head]))

theorem joined_agree (joined : cells.IsChain m.Joined) (nexts : ∀ a ∈ cells.dropLast, other.next a = m.next a)
    (prevs : ∀ b ∈ cells.tail, other.prev b = m.prev b) : cells.IsChain other.Joined := by
  induction joined with
  | nil => exact .nil
  | singleton a => exact .singleton a
  | @cons_cons a b rest joined _ ih =>
    rw [List.dropLast_cons_cons] at nexts
    refine .cons_cons ⟨?_,?_⟩ (ih (fun c member => nexts c (.tail _ member)) fun c member => prevs c (.tail _ member))
    · rw [nexts a (.head _)]; exact joined.1
    · rw [prevs b (.head _)]; exact joined.2

theorem Way.agree (way : Way m cells) (nexts : ∀ a ∈ cells.dropLast, other.next a = m.next a)
    (prevs : ∀ b ∈ cells.tail, other.prev b = m.prev b) : Way other cells :=
  ⟨joined_agree way.joined nexts prevs,way.left,way.entered⟩

theorem Way.flip (way : Way m cells) : Way m.flip cells.reverse := by
  refine ⟨List.isChain_reverse.mpr ?_,?_,?_⟩
  · exact way.joined.imp fun a b joined => joined.symm
  · rw [List.dropLast_reverse]; exact List.nodup_reverse.mpr way.entered
  · rw [List.tail_reverse]; exact List.nodup_reverse.mpr way.left

theorem Ring.flip (ring : Ring m head cells) : Ring m.flip head cells.reverse := by
  have way := Way.flip ring
  rw [List.reverse_cons,List.reverse_append] at way
  exact way

theorem ring_nil : Ring m head [] ↔ m.Joined head head := by
  constructor
  · intro ring
    exact (List.isChain_cons_cons.mp ring.joined).1
  · intro joined
    exact ⟨.cons_cons joined (.singleton head),List.nodup_singleton head,List.nodup_singleton head⟩

theorem Ring.distinct (ring : Ring m head cells) : (head :: cells).Nodup := by
  have left := ring.left
  rwa [← List.cons_append,List.dropLast_concat] at left

theorem Way.around (way : Way m (before ++ p :: n :: after)) :
    (before ++ p :: (n :: after).dropLast).Nodup ∧ ((before ++ [p]).tail ++ n :: after).Nodup := by
  have left := way.left
  have entered := way.entered
  rw [List.dropLast_append_cons,List.dropLast_cons_cons] at left
  rw [List.append_cons,List.tail_append_of_ne_nil (by simp)] at entered
  exact ⟨left,entered⟩

theorem way_around (joined : (before ++ p :: n :: after).IsChain m.Joined)
    (left : (before ++ p :: (n :: after).dropLast).Nodup) (entered : ((before ++ [p]).tail ++ n :: after).Nodup) :
    Way m (before ++ p :: n :: after) := by
  refine ⟨joined,?_,?_⟩
  · rw [List.dropLast_append_cons,List.dropLast_cons_cons]; exact left
  · rw [List.append_cons,List.tail_append_of_ne_nil (by simp)]; exact entered

theorem Ring.agree (ring : Ring m head cells)
    (same : ∀ a ∈ head :: cells, other.next a = m.next a ∧ other.prev a = m.prev a) : Ring other head cells := by
  refine Way.agree ring (fun a member => ?_) fun b member => ?_
  · rw [← List.cons_append,List.dropLast_concat] at member
    exact (same a member).1
  · have known : b ∈ head :: cells := by
      rcases List.mem_append.mp member with found | last
      · exact .tail _ found
      · exact List.mem_singleton.mp last ▸ .head _
    exact (same b known).2

theorem Ring.first (ring : Ring m head cells) : m.next head = some (cells.headD head) := by
  cases cells with
  | nil => exact (ring_nil.mp ring).1
  | cons a rest => exact (List.isChain_cons_cons.mp ring.joined).1.1

theorem Ring.last (ring : Ring m head cells) : m.prev head = some (cells.getLastD head) := by
  have first := Ring.first ring.flip
  rw [List.headD_eq_head?_getD,List.head?_reverse,← List.getLastD_eq_getLast?] at first
  exact first

theorem ends_split (head : Cell) (cells : List Cell) :
    (∃ front, head :: cells = front ++ [cells.getLastD head]) ∧ ∃ back, cells ++ [head] = cells.headD head :: back := by
  constructor
  · rcases List.eq_nil_or_concat cells with rfl | ⟨front,last,rfl⟩
    · exact ⟨[],rfl⟩
    · exact ⟨head :: front,by simp⟩
  · cases cells with
    | nil => exact ⟨[],rfl⟩
    | cons a rest => exact ⟨rest ++ [head],rfl⟩

variable [DecidableEq Cell]

def Links.cut (m : Links Cell) (p x n : Cell) : Links Cell where
  next := update (update m.next p (some n)) x none
  prev := update (update m.prev n (some p)) x none

def Links.insert (m : Links Cell) (p x n : Cell) : Links Cell where
  next := update (update m.next x (some n)) p (some x)
  prev := update (update m.prev x (some p)) n (some x)

theorem cut_other (a : Cell) (same : a ≠ x) :
    (a ≠ p → (m.cut p x n).next a = m.next a) ∧ (a ≠ n → (m.cut p x n).prev a = m.prev a) := by
  constructor <;> intro other
  · exact (Function.update_of_ne same ..).trans (Function.update_of_ne other ..)
  · exact (Function.update_of_ne same ..).trans (Function.update_of_ne other ..)

theorem cut_joined (before : p ≠ x) (after : n ≠ x) : (m.cut p x n).Joined p n :=
  ⟨(Function.update_of_ne before ..).trans (Function.update_self ..),
    (Function.update_of_ne after ..).trans (Function.update_self ..)⟩

theorem insert_other (a : Cell) (same : a ≠ x) :
    (a ≠ p → (m.insert p x n).next a = m.next a) ∧ (a ≠ n → (m.insert p x n).prev a = m.prev a) := by
  constructor <;> intro other
  · exact (Function.update_of_ne other ..).trans (Function.update_of_ne same ..)
  · exact (Function.update_of_ne other ..).trans (Function.update_of_ne same ..)

theorem insert_joined (before : p ≠ x) (after : n ≠ x) :
    (m.insert p x n).Joined p x ∧ (m.insert p x n).Joined x n :=
  ⟨⟨Function.update_self ..,(Function.update_of_ne after.symm ..).trans (Function.update_self ..)⟩,
    (Function.update_of_ne before.symm ..).trans (Function.update_self ..),Function.update_self ..⟩

theorem Way.cut (way : Way m (before ++ p :: x :: n :: after)) : Way (m.cut p x n) (before ++ p :: n :: after) := by
  obtain ⟨left,entered⟩ := way.around
  rw [List.dropLast_cons_cons] at left
  obtain ⟨front,_,back⟩ := List.isChain_append_cons_cons.mp way.joined
  obtain ⟨_,back⟩ := List.isChain_cons_cons.mp back
  obtain ⟨_,leaving,beside⟩ := List.nodup_append.mp left
  obtain ⟨_,entering,beside'⟩ := List.nodup_append.mp entered
  simp only [List.nodup_cons,List.mem_cons,not_or] at leaving entering
  refine way_around (List.isChain_append_cons_cons.mpr ⟨joined_agree front ?frontLeft ?frontEntered,
    cut_joined leaving.1.1 (Ne.symm entering.1.1),joined_agree back ?backLeft ?backEntered⟩) ?left ?entered
  case frontLeft =>
    intro a member
    rw [List.dropLast_concat] at member
    exact (cut_other a (beside a member x (.tail _ (.head _)))).1 (beside a member p (.head _))
  case frontEntered =>
    intro b member
    exact (cut_other b (beside' b member x (.head _))).2 (beside' b member n (.tail _ (.head _)))
  case backLeft =>
    intro a member
    exact (cut_other a (ne_of_mem_of_not_mem member leaving.2.1)).1 (ne_of_mem_of_not_mem member leaving.1.2)
  case backEntered =>
    intro b member
    exact (cut_other b (ne_of_mem_of_not_mem member entering.1.2)).2 (ne_of_mem_of_not_mem member entering.2.1)
  case left => exact left.sublist (List.Sublist.append_left (.cons_cons _ (List.sublist_cons_self _ _)) _)
  case entered => exact entered.sublist (List.Sublist.append_left (List.sublist_cons_self _ _) _)

theorem Way.insert (way : Way m (before ++ p :: n :: after)) (absent : x ∉ before ++ p :: n :: after) :
    Way (m.insert p x n) (before ++ p :: x :: n :: after) := by
  obtain ⟨left,entered⟩ := way.around
  obtain ⟨front,_,back⟩ := List.isChain_append_cons_cons.mp way.joined
  obtain ⟨_,leaving,beside⟩ := List.nodup_append.mp left
  obtain ⟨_,entering,beside'⟩ := List.nodup_append.mp entered
  have other : ∀ a ∈ before ++ p :: n :: after, a ≠ x := fun a member same => absent (same ▸ member)
  have known : ∀ a ∈ (before ++ [p]).tail ++ n :: after, a ∈ before ++ p :: n :: after := by
    intro a member
    rw [List.append_cons]
    exact (List.mem_append.mp member).elim (fun found => List.mem_append_left _ (List.mem_of_mem_tail found))
      (List.mem_append_right _)
  have left' : ∀ a ∈ before ++ p :: (n :: after).dropLast, a ∈ before ++ p :: n :: after := by
    intro a member
    rw [← List.dropLast_cons_cons,← List.dropLast_append_cons] at member
    exact List.dropLast_subset _ member
  obtain ⟨first,second⟩ := insert_joined (m := m) (other p (by simp)) (other n (by simp))
  refine way_around (List.isChain_append_cons_cons.mpr ⟨joined_agree front ?frontLeft ?frontEntered,first,
    .cons_cons second (joined_agree back ?backLeft ?backEntered)⟩) ?left ?entered
  case frontLeft =>
    intro a member
    rw [List.dropLast_concat] at member
    exact (insert_other a (other a (List.mem_append_left _ member))).1 (beside a member p (.head _))
  case frontEntered =>
    intro b member
    exact (insert_other b (other b (known b (List.mem_append_left _ member)))).2 (beside' b member n (.head _))
  case backLeft =>
    intro a member
    exact (insert_other a (other a (left' a (List.mem_append_right _ (.tail _ member))))).1
      (ne_of_mem_of_not_mem member (List.nodup_cons.mp leaving).1)
  case backEntered =>
    intro b member
    exact (insert_other b (other b (known b (List.mem_append_right _ (.tail _ member))))).2
      (ne_of_mem_of_not_mem member (List.nodup_cons.mp entering).1)
  case left =>
    rw [List.dropLast_cons_cons,List.append_cons,List.nodup_middle,← List.append_cons]
    exact List.nodup_cons.mpr ⟨fun member => absent (left' x member),left⟩
  case entered =>
    rw [List.nodup_middle]
    exact List.nodup_cons.mpr ⟨fun member => absent (known x member),entered⟩

theorem Ring.push (ring : Ring m head cells) (absent : x ∉ head :: cells) :
    Ring (m.insert head x (cells.headD head)) head (x :: cells) := by
  cases cells with
  | nil =>
    have way : Way m ([] ++ head :: head :: []) := ring
    exact way.insert (by simpa using absent)
  | cons a rest =>
    have way : Way m ([] ++ head :: a :: (rest ++ [head])) := ring
    refine way.insert (x := x) fun member => absent ?_
    simp only [List.nil_append,List.mem_cons,List.mem_append,List.not_mem_nil,or_false] at member ⊢
    tauto

theorem Ring.take (ring : Ring m head (before ++ x :: after)) : m.prev x = some (before.getLastD head) ∧
    m.next x = some (after.headD head) ∧
    Ring (m.cut (before.getLastD head) x (after.headD head)) head (before ++ after) := by
  obtain ⟨front,entering⟩ := (ends_split head before).1
  obtain ⟨back,leaving⟩ := (ends_split head after).2
  have whole : head :: ((before ++ x :: after) ++ [head]) =
      front ++ before.getLastD head :: x :: after.headD head :: back := by
    rw [List.append_assoc,List.cons_append,leaving,← List.cons_append,entering,List.append_assoc]; rfl
  have rest : head :: ((before ++ after) ++ [head]) = front ++ before.getLastD head :: after.headD head :: back := by
    rw [List.append_assoc,leaving,← List.cons_append,entering,List.append_assoc]; rfl
  rw [Ring,whole] at ring
  obtain ⟨_,joined,back⟩ := List.isChain_append_cons_cons.mp ring.joined
  refine ⟨joined.2,(List.isChain_cons_cons.mp back).1.1,?_⟩
  rw [Ring,rest]
  exact ring.cut

def walk (link : Cell → Option Cell) (stop : Cell) : Nat → Cell → Option (List Cell)
  | 0,_ => none
  | fuel+1,a => if a = stop then some [] else (link a).bind fun b => (walk link stop fuel b).map (a :: ·)

def circuit (link : Cell → Option Cell) (head : Cell) (fuel : Nat) : Option (List Cell) :=
  (link head).bind (walk link head fuel)

theorem walk_joined (joined : (cells ++ [stop]).IsChain m.Joined) (absent : stop ∉ cells) (enough : cells.length < fuel) :
    walk m.next stop fuel (cells.headD stop) = some cells := by
  induction cells generalizing fuel with
  | nil =>
    obtain ⟨fuel,rfl⟩ := Nat.exists_eq_succ_of_ne_zero (Nat.ne_of_gt enough)
    exact if_pos rfl
  | cons a rest ih =>
    obtain ⟨fuel,rfl⟩ := Nat.exists_eq_succ_of_ne_zero (Nat.ne_of_gt (Nat.zero_lt_of_lt enough))
    simp only [List.mem_cons,not_or] at absent
    have later := ih joined.tail absent.2 (Nat.lt_of_succ_lt_succ enough)
    have follows : m.next a = some (rest.headD stop) := by
      cases rest with
      | nil => exact (List.isChain_cons_cons.mp joined).1.1
      | cons b rest => exact (List.isChain_cons_cons.mp joined).1.1
    rw [List.headD_cons,walk,if_neg (Ne.symm absent.1),follows,Option.bind_some,later,Option.map_some]

theorem Ring.forward (ring : Ring m head cells) (enough : cells.length < fuel) : circuit m.next head fuel = some cells := by
  rw [circuit,ring.first,Option.bind_some]
  exact walk_joined ring.joined.tail (List.nodup_cons.mp ring.distinct).1 enough

theorem Ring.backward (ring : Ring m head cells) (enough : cells.length < fuel) :
    circuit m.prev head fuel = some cells.reverse :=
  Ring.forward ring.flip (by rwa [List.length_reverse])

end LinuxOS.Rings
