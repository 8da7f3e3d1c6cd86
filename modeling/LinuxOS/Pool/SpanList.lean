import LinuxOS.Machine
import LinuxOS.Rings
import LinuxOS.Pages.Cache

namespace LinuxOS.Pool
open Function (update)
open Machine Rings
open Pages (Span PageCache)

-- A Span object: its links `_prev` and `_next`, and the fields that the lists leave alone.
structure Node where
  prev : Option Nat := none
  next : Option Nat := none
  span : Span := {}

abbrev Memory := Nat → Node

namespace SpanList

-- A write through a pointer; none is a write through the null pointer.
def write (m : Memory) (pointer : Option Nat) (change : Node → Node) : Option Memory :=
  pointer.map fun a => update m a (change (m a))

section
variable (m : Memory) (head : Nat)

-- SpanList(): `new Span`, linked to itself both ways.
def construct : Memory := update m head {prev := some head, next := some head}

def begin : Option Nat := (m head).next

def empty : Bool := (m head).next = some head

def pushFront (new_span : Nat) : Option Memory := do
  let next := (m head).next
  let m ← write m (some new_span) fun node => {node with next}
  let m ← write m (some new_span) fun node => {node with prev := some head}
  let m ← write m next fun node => {node with prev := some new_span}
  write m (some head) fun node => {node with next := some new_span}

def popBack : Option (Memory × Option Nat) := do
  let tail := (m head).prev
  let tail_prev ← tail.map fun a => (m a).prev
  let m ← write m tail_prev fun node => {node with next := some head}
  let m ← write m (some head) fun node => {node with prev := tail_prev}
  let m ← write m tail fun node => {node with next := none}
  let m ← write m tail fun node => {node with prev := none}
  some (m,tail)

-- The list that the span is in is named only in the assertion.
def erase (span : Nat) : Option Memory := do
  guard (span ≠ head)
  let prev := (m span).prev
  let next := (m span).next
  let m ← write m prev fun node => {node with next}
  let m ← write m next fun node => {node with prev}
  let m ← write m (some span) fun node => {node with prev := none}
  write m (some span) fun node => {node with next := none}

end

def setNext (m : Memory) (a : Nat) (next : Option Nat) : Memory := update m a {m a with next}
def setPrev (m : Memory) (a : Nat) (prev : Option Nat) : Memory := update m a {m a with prev}

def links (m : Memory) : Links Nat := ⟨fun a => (m a).next,fun a => (m a).prev⟩

structure Relinked (nodes : List Nat) (m next : Memory) : Prop where
  payload : ∀ a, (next a).span = (m a).span
  others : ∀ a, a ∉ nodes → next a = m a

variable {m next : Memory} {head a x : Nat} {nodes cells before after : List Nat} {value : Option Nat}

theorem links_setNext : links (setNext m a value) = {links m with next := update (links m).next a value} := by
  simp only [links,setNext,Links.mk.injEq]
  constructor <;> funext b <;> by_cases same : b = a <;> simp [same]

theorem links_setPrev : links (setPrev m a value) = {links m with prev := update (links m).prev a value} := by
  simp only [links,setPrev,Links.mk.injEq]
  constructor <;> funext b <;> by_cases same : b = a <;> simp [same]

theorem construct_joined (heads : List Nat) (m : Memory) (head : Nat) (member : head ∈ heads) :
    ((heads.foldl construct m) head).next = some head ∧ ((heads.foldl construct m) head).prev = some head := by
  induction heads using List.reverseRecOn with
  | nil => cases member
  | append_singleton heads last ih =>
    rw [List.foldl_concat,construct]
    by_cases same : head = last
    · rw [same,Function.update_self]; exact ⟨rfl,rfl⟩
    · rw [Function.update_of_ne same]
      exact ih ((List.mem_append.mp member).resolve_right fun found => same (List.mem_singleton.mp found))

theorem relinked_refl (nodes : List Nat) (m : Memory) : Relinked nodes m m := ⟨fun _ => rfl,fun _ _ => rfl⟩

theorem Relinked.setNext (relinked : Relinked nodes m next) (member : a ∈ nodes) :
    Relinked nodes m (SpanList.setNext next a value) := by
  refine ⟨fun b => ?_,fun b other => ?_⟩
  · by_cases same : b = a <;> simp [SpanList.setNext,same,relinked.payload]
  · rw [SpanList.setNext,Function.update_of_ne (Ne.symm (ne_of_mem_of_not_mem member other))]
    exact relinked.others b other

theorem Relinked.setPrev (relinked : Relinked nodes m next) (member : a ∈ nodes) :
    Relinked nodes m (SpanList.setPrev next a value) := by
  refine ⟨fun b => ?_,fun b other => ?_⟩
  · by_cases same : b = a <;> simp [SpanList.setPrev,same,relinked.payload]
  · rw [SpanList.setPrev,Function.update_of_ne (Ne.symm (ne_of_mem_of_not_mem member other))]
    exact relinked.others b other

def inserted (m : Memory) (head x next : Nat) : Memory :=
  setNext (setPrev (setPrev (setNext m x (some next)) x (some head)) next (some x)) head (some x)

def popped (m : Memory) (head x prev : Nat) : Memory :=
  setPrev (setNext (setPrev (setNext m prev (some head)) head (some prev)) x none) x none

def erased (m : Memory) (x prev next : Nat) : Memory :=
  setNext (setPrev (setPrev (setNext m prev (some next)) next (some prev)) x none) x none

theorem links_inserted : links (inserted m head x a) = (links m).insert head x a := by
  simp only [inserted,links_setNext,links_setPrev,Links.insert]

theorem links_popped : links (popped m head x a) = (links m).cut a x head := by
  simp only [popped,links_setNext,links_setPrev,Links.cut]

theorem links_erased : links (erased m x a head) = (links m).cut a x head := by
  simp only [erased,links_setNext,links_setPrev,Links.cut]

theorem pushFront_inserts (ring : Ring (links m) head cells) (x : Nat) : ∃ next, pushFront m head x = some next ∧
    links next = (links m).insert head x (cells.headD head) ∧ Relinked (x :: head :: cells) m next := by
  have first : (m head).next = some (cells.headD head) := ring.first
  have member : cells.headD head ∈ x :: head :: cells := by cases cells <;> simp
  refine ⟨inserted m head x (cells.headD head),?_,links_inserted,
    ((((relinked_refl _ m).setNext (by simp)).setPrev (by simp)).setPrev member).setNext (by simp)⟩
  simp only [pushFront,first]
  rfl

theorem popBack_cuts (ring : Ring (links m) head (before ++ [x])) : ∃ next, popBack m head = some (next,some x) ∧
    links next = (links m).cut (before.getLastD head) x head ∧ Relinked (head :: (before ++ [x])) m next := by
  have tail : (m head).prev = some x := by
    have last := ring.last
    rwa [List.getLastD_concat] at last
  have tail_prev : (m x).prev = some (before.getLastD head) := ring.take.1
  have member : before.getLastD head ∈ head :: (before ++ [x]) := by
    rcases List.eq_nil_or_concat before with rfl | ⟨front,b,rfl⟩ <;> simp
  refine ⟨popped m head x (before.getLastD head),?_,links_popped,
    ((((relinked_refl _ m).setNext member).setPrev (by simp)).setNext (by simp)).setPrev (by simp)⟩
  simp only [popBack,tail,Option.map_some,tail_prev]
  rfl

theorem erase_cuts (ring : Ring (links m) head (before ++ x :: after)) : ∃ next, erase m head x = some next ∧
    links next = (links m).cut (before.getLastD head) x (after.headD head) ∧
      Relinked (head :: (before ++ x :: after)) m next := by
  obtain ⟨prev,next,_⟩ := ring.take
  have prev : (m x).prev = some (before.getLastD head) := prev
  have next : (m x).next = some (after.headD head) := next
  have other : x ≠ head := by
    rintro rfl
    exact (List.nodup_cons.mp ring.distinct).1 (List.mem_append_right _ (.head _))
  have member : before.getLastD head ∈ head :: (before ++ x :: after) := by
    rcases List.eq_nil_or_concat before with rfl | ⟨front,b,rfl⟩ <;> simp
  have member' : after.headD head ∈ head :: (before ++ x :: after) := by cases after <;> simp
  refine ⟨erased m x (before.getLastD head) (after.headD head),?_,links_erased,
    ((((relinked_refl _ m).setNext member).setPrev member').setPrev (by simp)).setNext (by simp)⟩
  rw [erase,guard,if_pos other,prev,next]
  rfl

end SpanList

-- A call on one of a family of lists, or of `erase` on the list that the span is in.
inductive ListCall (Index : Type*) where
  | pushFront (i : Index) (span : Nat)
  | popBack (i : Index)
  | erase (i : Index) (span : Nat)

-- What the family is for: a finite sequence of spans for each list.
abbrev SpanLists (Index : Type*) := Index → List Nat

namespace SpanLists
open SpanList
variable {Index : Type*} (heads : Index → Nat) (m : Memory) (lists : SpanLists Index)

def perform : ListCall Index → Option (Memory × Option Nat)
  | .pushFront i span => (pushFront m (heads i) span).map fun m => (m,none)
  | .popBack i => popBack m (heads i)
  | .erase i span => (erase m (heads i) span).map fun m => (m,none)

def step (call : ListCall Index) : Option Memory := (perform heads m call).map Prod.fst

def answer : ListCall Index → Option Nat
  | .popBack i => (lists i).getLast?
  | _ => none

-- A span in no list is pushed, a list that is not empty popped, a span of the list erased. The head
-- is the list's own, so nobody has it to push.
def Admitted : ListCall Index → Prop
  | .pushFront _ span => ∀ j, span ∉ heads j :: lists j
  | .popBack i => lists i ≠ []
  | .erase i span => span ∈ lists i

def touched : ListCall Index → List Nat
  | .pushFront i span => span :: heads i :: lists i
  | .popBack i | .erase i _ => heads i :: lists i

-- What walking the lists shows, from begin() to end() along `_next` and from the last span along `_prev`.
-- A walk of more steps than the list has spans has ended.
structure Tells : Prop where
  forward : ∀ i fuel, (lists i).length < fuel →
    (begin m (heads i)).bind (walk (fun a => (m a).next) (heads i) fuel) = some (lists i)
  backward : ∀ i fuel, (lists i).length < fuel →
    (m (heads i)).prev.bind (walk (fun a => (m a).prev) (heads i) fuel) = some (lists i).reverse
  empty : ∀ i, SpanList.empty m (heads i) = true ↔ lists i = []
  once : ∀ i, (lists i).Nodup
  apart : ∀ i j span, span ∈ lists i → span ∈ lists j → i = j

structure Holds : Prop where
  rings : ∀ i, Ring (links m) (heads i) (lists i)
  apart : ∀ i j a, a ∈ heads i :: lists i → a ∈ heads j :: lists j → i = j

variable {heads m lists} {next : Memory} {call : ListCall Index} {i : Index} {span : Nat} {nodes cells : List Nat}

theorem holds_start (distinct : Function.Injective heads) (constructed : ∀ i, (links m).Joined (heads i) (heads i)) :
    Holds heads m fun _ => [] := by
  refine ⟨fun i => ring_nil.mpr (constructed i),fun i j a member member' => distinct ?_⟩
  rw [← List.mem_singleton.mp member,← List.mem_singleton.mp member']

theorem Holds.tells (holds : Holds heads m lists) : Tells heads m lists := by
  refine ⟨fun i fuel enough => (holds.rings i).forward enough,fun i fuel enough => (holds.rings i).backward enough,
    fun i => ?_,fun i => (List.nodup_cons.mp (holds.rings i).distinct).2,
    fun i j span member member' => holds.apart i j span (.tail _ member) (.tail _ member')⟩
  have first : (m (heads i)).next = some ((lists i).headD (heads i)) := (holds.rings i).first
  have distinct := (holds.rings i).distinct
  rw [SpanList.empty,first]
  cases shape : lists i with
  | nil => simp
  | cons a rest =>
    rw [shape] at distinct
    have other : a ≠ heads i := by
      rintro rfl
      exact (List.nodup_cons.mp distinct).1 (.head _)
    simp [other]

variable [DecidableEq Index]

def follow (lists : SpanLists Index) : ListCall Index → SpanLists Index
  | .pushFront i span => update lists i (span :: lists i)
  | .popBack i => update lists i (lists i).dropLast
  | .erase i span => update lists i ((lists i).erase span)

theorem Holds.change (holds : Holds heads m lists) (ring : Ring (links next) (heads i) cells)
    (relinked : Relinked nodes m next) (own : ∀ a ∈ nodes, ∀ j, a ∈ heads j :: lists j → j = i)
    (inside : ∀ a ∈ heads i :: cells, a ∈ nodes) : Holds heads next (update lists i cells) := by
  have others : ∀ j, j ≠ i → ∀ a ∈ heads j :: lists j, a ∉ nodes := fun j other a member found =>
    other (own a found j member)
  constructor
  · intro j
    by_cases same : j = i
    · subst same; rw [Function.update_self]; exact ring
    · rw [Function.update_of_ne same]
      refine (holds.rings j).agree fun a member => ?_
      simp only [links,relinked.others a (others j same a member),and_self]
  · intro j k a member member'
    by_cases first : j = i <;> by_cases second : k = i
    · rw [first,second]
    · subst first
      rw [Function.update_self] at member
      rw [Function.update_of_ne second] at member'
      exact absurd (inside a member) (others k second a member')
    · subst second
      rw [Function.update_of_ne first] at member
      rw [Function.update_self] at member'
      exact absurd (inside a member') (others j first a member)
    · rw [Function.update_of_ne first] at member
      rw [Function.update_of_ne second] at member'
      exact holds.apart j k a member member'

theorem Holds.perform (holds : Holds heads m lists) (admitted : Admitted heads lists call) :
    ∃ next, perform heads m call = some (next,answer lists call) ∧ Holds heads next (follow lists call) ∧
      Relinked (touched heads lists call) m next := by
  cases call with
  | pushFront i span =>
    obtain ⟨next,pushed,linked,relinked⟩ := pushFront_inserts (holds.rings i) span
    have ring := (holds.rings i).push (admitted i)
    rw [← linked] at ring
    refine ⟨next,by rw [SpanLists.perform,pushed]; rfl,holds.change ring relinked ?_ ?_,relinked⟩
    · intro a member j member'
      rcases List.mem_cons.mp member with rfl | old
      · exact absurd member' (admitted j)
      · exact holds.apart j i a member' old
    · intro a member
      simp only [List.mem_cons] at member ⊢
      tauto
  | popBack i =>
    obtain ⟨before,x,shape⟩ := (List.eq_nil_or_concat (lists i)).resolve_left admitted
    rw [List.concat_eq_append] at shape
    have ring := holds.rings i
    rw [shape] at ring
    obtain ⟨next,popped,linked,relinked⟩ := popBack_cuts ring
    have rest := ring.take.2.2
    rw [List.headD_nil,List.append_nil,← linked] at rest
    have same : follow lists (.popBack i) = update lists i before := by rw [follow,shape,List.dropLast_concat]
    rw [← shape] at relinked
    refine ⟨next,by rw [SpanLists.perform,popped,answer,shape,List.getLast?_concat],?_,relinked⟩
    rw [same]
    refine holds.change rest relinked (fun a member j member' => holds.apart j i a member' member) fun a member => ?_
    rw [shape]
    exact List.cons_subset_cons _ (List.subset_append_left ..) member
  | erase i span =>
    obtain ⟨before,after,shape⟩ := List.append_of_mem admitted
    have ring := holds.rings i
    rw [shape] at ring
    obtain ⟨next,erased,linked,relinked⟩ := erase_cuts ring
    have rest := ring.take.2.2
    rw [← linked] at rest
    have absent : span ∉ before := by
      have distinct := (List.nodup_cons.mp ring.distinct).2
      exact fun found => (List.nodup_append.mp distinct).2.2 span found span (.head _) rfl
    have same : follow lists (.erase i span) = update lists i (before ++ after) := by
      rw [follow,shape,List.erase_append_right _ absent,List.erase_cons_head]
    rw [← shape] at relinked
    refine ⟨next,by rw [SpanLists.perform,erased]; rfl,?_,relinked⟩
    rw [same]
    refine holds.change rest relinked (fun a member j member' => holds.apart j i a member' member) fun a member => ?_
    rw [shape]
    simp only [List.mem_cons,List.mem_append] at member ⊢
    tauto

theorem spanLists_refine_lists (heads : Index → Nat) (distinct : Function.Injective heads) (m : Memory)
    (constructed : ∀ i, (m (heads i)).next = some (heads i) ∧ (m (heads i)).prev = some (heads i))
    (calls : List (ListCall Index))
    (admitted : Throughout (fun lists call => some (follow lists call)) (Admitted heads) (fun _ => []) calls) :
    ∃ s, run (step heads) m calls = some s ∧ Tells heads s (calls.foldl follow fun _ => []) ∧
      ∀ call, Admitted heads (calls.foldl follow fun _ => []) call →
        ∃ next, perform heads s call = some (next,answer (calls.foldl follow fun _ => []) call) ∧
          Relinked (touched heads (calls.foldl follow fun _ => []) call) s next := by
  have stepped : ∀ s lists call, Holds heads s lists → Admitted heads lists call →
      ∃ next, step heads s call = some next ∧ Holds heads next (follow lists call) := by
    intro s lists call holds admitted
    obtain ⟨next,performed,holds,_⟩ := holds.perform admitted
    exact ⟨next,by rw [step,performed]; rfl,holds⟩
  obtain ⟨s,ran,holds⟩ := run_refines stepped (holds_start distinct constructed) admitted
  refine ⟨s,ran,holds.tells,fun call allowed => ?_⟩
  obtain ⟨next,performed,_,relinked⟩ := holds.perform allowed
  exact ⟨next,performed,relinked⟩

instance {n : Nat} (heads : Fin n → Nat) : ∀ (lists : SpanLists (Fin n)) (call : ListCall (Fin n)), Decidable (Admitted heads lists call)
  | lists,.pushFront _ span => inferInstanceAs (Decidable (∀ j, span ∉ heads j :: lists j))
  | lists,.popBack i => inferInstanceAs (Decidable (lists i ≠ []))
  | lists,.erase i span => inferInstanceAs (Decidable (span ∈ lists i))

def moves : List (ListCall (Fin 2)) :=
  [.pushFront 0 7,.pushFront 0 8,.pushFront 0 9,.erase 0 8,.pushFront 1 8,.popBack 1,.pushFront 0 8,.popBack 0]

theorem spanLists_refine_lists_moves :
    ∃ s, run (step Fin.val) ([0,1].foldl construct fun _ => {}) moves = some s ∧
      Tells Fin.val s (moves.foldl follow fun _ => []) ∧
      ∀ call, Admitted Fin.val (moves.foldl follow fun _ => []) call →
        ∃ next, perform Fin.val s call = some (next,answer (moves.foldl follow fun _ => []) call) ∧
          Relinked (touched Fin.val (moves.foldl follow fun _ => []) call) s next := by
  have constructed : ∀ i : Fin 2, (([0,1].foldl construct fun _ => {}) i.val).next = some i.val ∧
      (([0,1].foldl construct fun _ => {}) i.val).prev = some i.val := fun i =>
    construct_joined [0,1] _ i.val (by revert i; decide)
  exact spanLists_refine_lists Fin.val (fun _ _ same => Fin.ext same) _ constructed moves (by decide +kernel)

theorem pushFront_follows {p q : PageCache} {n h : Nat} (pushed : p.pushFront n h = some q) :
    q.spanLists = follow p.spanLists (.pushFront n h) := by
  obtain ⟨_,made⟩ := Option.ite_none_right_eq_some.mp pushed
  cases made
  rfl

theorem popBack_follows {p q : PageCache} {n h : Nat} (popped : p.popBack n = some (q,h)) :
    q.spanLists = follow p.spanLists (.popBack n) ∧ answer p.spanLists (.popBack n) = some h := by
  obtain ⟨last,found,made⟩ := Option.map_eq_some_iff.mp popped
  cases made
  exact ⟨rfl,found⟩

theorem unlink_follows {p : PageCache} {n h : Nat} (alone : ∀ k, h ∈ p.spanLists k → k = n) :
    (p.unlink h).spanLists = follow p.spanLists (.erase n h) := by
  funext k
  by_cases same : k = n
  · rw [same,follow,Function.update_self]; rfl
  · rw [follow,Function.update_of_ne same]
    exact List.erase_of_not_mem fun found => same (alone k found)

end SpanLists
end LinuxOS.Pool
