import LinuxOS.Links
import LinuxOS.Machine
import LinuxOS.Places
import LinuxOS.Blocks.Machine

namespace LinuxOS.Blocks
open Function (update)
open Links Places

-- One thread's cache alone. `deallocateSize` is what Deallocate makes of its argument
-- before it looks for the bucket; `none` is a failed assertion.
structure CacheDesign extends Design where
  deallocateSize : Nat → Option Nat

-- `mem` holds the link words. `released` is what the last call gave to the central
-- cache: the two ends of the chain and _max_size.
structure ThreadCache where
  mem : Nat → Option Nat := fun _ => none
  freeLists : Nat → FreeList := fun _ => {}
  released : Option (Nat × Nat × Nat) := none

-- `answer` is the chain that FetchRangeObj leads to, if the call needs one; `write` is
-- any word that the user of a block, a span or another thread writes.
inductive CacheAction where
  | allocate (size : Nat) (answer : List Nat)
  | deallocate (ptr size : Nat)
  | write (a : Nat) (value : Option Nat)

namespace ThreadCache
variable (d : CacheDesign) (s : ThreadCache)

def setList (index : Nat) (list : FreeList) : ThreadCache := {s with freeLists := update s.freeLists index list}

-- `std::min(NumsFromCentralCache(size), MaxSize())`
def asked (size index : Nat) : Option Nat := (d.batch size).map fun batch => min batch (s.freeLists index).maxSize

-- The slow start: the threshold grows when it was what limited the request.
def slowStart (num maxSize : Nat) : Nat := if num = maxSize then maxSize + 1 else maxSize

def fetchFromCentralCache (size index : Nat) (answer : List Nat) : Option (ThreadCache × Nat) := do
  let list := s.freeLists index
  let num ← s.asked d size index
  let list := {list with maxSize := slowStart num list.maxSize}
  let start ← answer.head?
  let stop ← answer.getLast?
  if 1 < answer.length then
    some (({s with mem := update s.mem stop list.freeList} : ThreadCache).setList index
      {list with freeList := s.mem start, size := list.size + (answer.length - 1 : Nat)},start)
  else some (s.setList index list,start)

def allocate (size : Nat) (answer : List Nat) : Option (ThreadCache × Nat) := do
  let size := d.roundUp size
  let index ← d.bucket size
  let list := s.freeLists index
  match list.freeList with
  | some block => some (s.setList index {list with freeList := s.mem block, size := list.size - 1},block)
  | none => s.fetchFromCentralCache d size index answer

-- pop_range_obj walks _max_size - 1 links from the head.
def listTooLong (index : Nat) (list : FreeList) : Option ThreadCache := do
  let start ← list.freeList
  let stop ← stride s.mem (list.maxSize - 1) start
  some {s with
    mem := update s.mem stop none
    freeLists := update s.freeLists index {list with freeList := s.mem stop, size := list.size - list.maxSize}
    released := some (start,stop,list.maxSize)}

def deallocate (ptr size : Nat) : Option ThreadCache := do
  let size ← d.deallocateSize size
  let index ← d.bucket size
  let list := s.freeLists index
  let list' : FreeList := {list with freeList := some ptr, size := list.size + 1}
  let s := {s with mem := update s.mem ptr list.freeList}
  if d.tooLong list' then s.listTooLong index list' else some (s.setList index list')

def step : CacheAction → Option ThreadCache
  | .allocate size answer => ({s with released := none}.allocate d size answer).map Prod.fst
  | .deallocate ptr size => {s with released := none}.deallocate d ptr size
  | .write a value => some {s with released := none, mem := update s.mem a value}

def Outside (a : Nat) : Prop := ∀ i cells, Chain s.mem (s.freeLists i).freeList cells → a ∉ cells

-- Between one and the requested number of distinct blocks, none of them in the cache.
def Answered (num : Nat) (answer : List Nat) : Prop := 1 ≤ answer.length ∧ answer.length ≤ num ∧ answer.Nodup ∧
  Chain s.mem answer.head? answer ∧ ∀ a ∈ answer, s.Outside a

def Admitted (Admits : Nat → Prop) : CacheAction → Prop
  | .allocate size answer => Admits size ∧ ∀ index num, d.bucket (d.roundUp size) = some index →
      (s.freeLists index).freeList = none → s.asked d (d.roundUp size) index = some num → s.Answered num answer
  | .deallocate ptr size => Admits size ∧ s.Outside ptr
  | .write a _ => s.Outside a

end ThreadCache

-- `margin` is what the comparison in Deallocate leaves below _max_size.
structure CacheLaws (d : CacheDesign) (Admits : Nat → Prop) (margin : Nat) : Prop where
  narrow : margin ≤ 1
  bucket : ∀ {size}, Admits size → ∃ i, d.bucket (d.roundUp size) = some i
  batch : ∀ {size}, Admits size → ∃ batch, d.batch (d.roundUp size) = some batch
  deallocateSize : ∀ {size}, Admits size → d.deallocateSize size = some (d.roundUp size)
  class_one : ∀ {a b}, Admits a → Admits b → d.bucket (d.roundUp a) = d.bucket (d.roundUp b) → d.roundUp a = d.roundUp b
  tooLong : ∀ {list}, d.tooLong list = true ↔ (list.maxSize : Int) + 1 ≤ list.size + margin

namespace ThreadCache
variable {d : CacheDesign} {Admits : Nat → Prop} {margin : Nat} {s next : ThreadCache} {kept : Nat → List Nat}
variable {action : CacheAction} {actions : List CacheAction} {i a ptr size : Nat} {answer cells : List Nat} {list : FreeList}

def Limited (d : CacheDesign) (Admits : Nat → Prop) (i maxSize : Nat) : Prop := ∀ size batch, Admits size →
  d.bucket (d.roundUp size) = some i → d.batch (d.roundUp size) = some batch → maxSize ≤ batch + 1

def Given (mem : Nat → Option Nat) (released : Option (Nat × Nat × Nat)) : Prop := ∀ start stop count,
  released = some (start,stop,count) → ∃ cells, Chain mem (some start) cells ∧ cells.getLast? = some stop ∧
    cells.length = count

structure Bounded (d : CacheDesign) (Admits : Nat → Prop) (margin : Nat) (mem : Nat → Option Nat) (i : Nat)
    (list : FreeList) (cells : List Nat) : Prop where
  chain : Chain mem list.freeList cells
  size : list.size = cells.length
  floor : 1 ≤ list.maxSize
  limited : Limited d Admits i list.maxSize
  short : list.size + margin ≤ list.maxSize

structure Sound (d : CacheDesign) (Admits : Nat → Prop) (margin : Nat) (s : ThreadCache) (kept : Nat → List Nat) :
    Prop where
  apart : Apart kept
  bounded : ∀ i, Bounded d Admits margin s.mem i (s.freeLists i) (kept i)
  given : Given s.mem s.released

theorem given_nothing {mem : Nat → Option Nat} : Given mem none := fun _ _ _ released => by cases released

theorem start_sound (narrow : margin ≤ 1) : Sound d Admits margin {} fun _ => [] := by
  refine ⟨⟨fun _ => .nil,fun _ _ _ found => by cases found⟩,fun i => ⟨rfl,rfl,Nat.le_refl 1,?_,?_⟩,given_nothing⟩
  · intro size batch _ _ _
    exact Nat.le_add_left 1 batch
  · change (0 : Int) + margin ≤ (1 : Nat)
    omega

theorem Sound.outside (sound : Sound d Admits margin s kept) (out : s.Outside a) (i : Nat) : a ∉ kept i :=
  out i _ (sound.bounded i).chain

theorem Bounded.agree {mem : Nat → Option Nat} (bounded : Bounded d Admits margin s.mem i list cells)
    (same : ∀ a ∈ cells, mem a = s.mem a) : Bounded d Admits margin mem i list cells :=
  ⟨bounded.chain.agree same,bounded.size,bounded.floor,bounded.limited,bounded.short⟩

theorem Sound.rebuild (sound : Sound d Admits margin s kept) {mem : Nat → Option Nat}
    {released : Option (Nat × Nat × Nat)} (apart : Apart (update kept i cells))
    (bounded : Bounded d Admits margin mem i list cells) (same : ∀ j, j ≠ i → ∀ a ∈ kept j, mem a = s.mem a)
    (given : Given mem released) :
    Sound d Admits margin {mem, freeLists := update s.freeLists i list, released} (update kept i cells) := by
  refine ⟨apart,fun j => ?_,given⟩
  by_cases here : j = i
  · subst j; simp only [Function.update_self]; exact bounded
  · simp only [Function.update_of_ne here]
    exact (sound.bounded j).agree (same j here)

theorem Sound.pop (sound : Sound d Admits margin s kept) {block : Nat} (first : (s.freeLists i).freeList = some block) :
    Sound d Admits margin {s with released := none, freeLists := update s.freeLists i {s.freeLists i with
      freeList := s.mem block, size := (s.freeLists i).size - 1}} (update kept i (kept i).tail) := by
  obtain ⟨chain,size,floor,limited,short⟩ := sound.bounded i
  have distinct := sound.apart.nodup i
  rw [first] at chain
  obtain ⟨rest,whole⟩ := chain.nonempty
  rw [whole] at chain size distinct
  rw [List.length_cons] at size
  rw [whole,List.tail_cons]
  have inside : ∀ a ∈ rest, a ∈ kept i := fun a found => by rw [whole]; exact List.mem_cons_of_mem _ found
  refine sound.rebuild (sound.apart.trim distinct.of_cons inside) ⟨chain.2,?_,floor,limited,?_⟩ (fun _ _ _ _ => rfl)
    given_nothing
  · simp only; omega
  · simp only; omega

-- A list that was empty takes all but the first block of the answer.
theorem Sound.fetch (laws : CacheLaws d Admits margin) (sound : Sound d Admits margin s kept) (admits : Admits size)
    (bucket : d.bucket (d.roundUp size) = some i) (empty : (s.freeLists i).freeList = none)
    (answered : ∀ num, s.asked d (d.roundUp size) i = some num → s.Answered num answer) :
    ∃ next block, s.fetchFromCentralCache d (d.roundUp size) i answer = some (next,block) ∧
      ∃ kept, Sound d Admits margin {next with released := none} kept := by
  obtain ⟨batch,batched⟩ := laws.batch admits
  obtain ⟨chain,size',floor,limited,short⟩ := sound.bounded i
  have narrow := laws.narrow
  rw [empty] at chain
  have nothing : kept i = [] := by
    cases cells : kept i with
    | nil => rfl
    | cons a rest => rw [cells] at chain; cases chain.1
  rw [nothing] at size'
  have asked : s.asked d (d.roundUp size) i = some (min batch (s.freeLists i).maxSize) := by
    rw [ThreadCache.asked,batched]; rfl
  obtain ⟨some',few,distinct,linked,fresh⟩ := answered _ asked
  have limit : Limited d Admits i (slowStart (min batch (s.freeLists i).maxSize) (s.freeLists i).maxSize) := by
    intro other _ admits' bucket' batched'
    have same := laws.class_one admits' admits (bucket'.trans bucket.symm)
    rw [same,batched] at batched'
    cases batched'
    rw [slowStart]
    split
    · omega
    · exact limited other batch admits' bucket' (by rw [same]; exact batched)
  have raised : (s.freeLists i).maxSize ≤ slowStart (min batch (s.freeLists i).maxSize) (s.freeLists i).maxSize := by
    rw [slowStart]; split <;> omega
  have room : answer.length - 1 + margin ≤ slowStart (min batch (s.freeLists i).maxSize) (s.freeLists i).maxSize := by
    rw [slowStart]; split <;> omega
  cases answer with
  | nil => cases some'
  | cons start rest =>
    obtain ⟨stop,final⟩ : ∃ stop, (start :: rest).getLast? = some stop := ⟨_,List.getLast?_eq_some_getLast (by simp)⟩
    rw [List.length_cons,Nat.add_sub_cancel] at room
    have fetched : s.fetchFromCentralCache d (d.roundUp size) i (start :: rest) = some
        (if 1 < (start :: rest).length then
          (({s with mem := update s.mem stop none} : ThreadCache).setList i {s.freeLists i with
            freeList := s.mem start
            size := (s.freeLists i).size + rest.length
            maxSize := slowStart (min batch (s.freeLists i).maxSize) (s.freeLists i).maxSize},start)
        else (s.setList i {s.freeLists i with
            maxSize := slowStart (min batch (s.freeLists i).maxSize) (s.freeLists i).maxSize},start)) := by
      simp only [ThreadCache.fetchFromCentralCache,asked,final,List.head?_cons,Option.bind_eq_bind,Option.bind_some,
        empty,List.length_cons,Nat.add_sub_cancel]
      split <;> rfl
    rw [fetched]
    by_cases several : 1 < (start :: rest).length
    · rw [if_pos several]
      refine ⟨_,_,rfl,update kept i rest,?_⟩
      have last : rest.getLast? = some stop := by
        cases rest with
        | nil => exact absurd several (by simp)
        | cons b more => rwa [List.getLast?_cons_cons] at final
      have whole : Chain _ _ (rest ++ []) := (List.append_nil rest).symm ▸ linked.2
      have cut := whole.cut last (by rw [List.append_nil]; exact distinct.of_cons)
      have apart := sound.apart.put (c := i) distinct.of_cons fun a found j =>
        sound.outside (fresh a (List.mem_cons_of_mem _ found)) j
      rw [nothing,List.append_nil] at apart
      refine sound.rebuild apart ⟨cut.1,?_,Nat.le_trans floor raised,limit,?_⟩ (fun j _ a found => ?_) given_nothing
      · simp only; rw [size']; simp
      · simp only; rw [size']; simp only [List.length_nil]; omega
      · refine Function.update_of_ne ?_ _ _
        rintro rfl
        exact sound.outside (fresh a (List.mem_of_getLast? final)) j found
    · rw [if_neg several]
      refine ⟨_,_,rfl,update kept i [],?_⟩
      refine sound.rebuild (sound.apart.trim .nil fun a found => by cases found) ⟨empty,size',Nat.le_trans floor raised,
        limit,?_⟩ (fun _ _ _ _ => rfl) given_nothing
      simp only; omega

theorem Sound.push (sound : Sound d Admits margin s kept) (absent : ∀ j, ptr ∉ kept j) :
    Apart (update kept i (ptr :: kept i)) ∧
      Chain (update s.mem ptr (s.freeLists i).freeList) (some ptr) (ptr :: kept i) ∧
        ∀ j, ∀ a ∈ kept j, update s.mem ptr (s.freeLists i).freeList a = s.mem a := by
  have fresh : ∀ a ∈ [ptr], ∀ j, a ∉ kept j := fun a found j => by
    rw [List.mem_singleton.mp found]; exact absent j
  refine ⟨sound.apart.put (List.nodup_singleton ptr) fresh,(sound.bounded i).chain.push (absent i),fun j a found => ?_⟩
  exact Function.update_of_ne (ne_of_mem_of_not_mem found (absent j)) _ _

-- The length is the threshold at this moment, less the margin, plus the new block; the
-- walk ends on the last of the _max_size blocks that it takes.
theorem Sound.tooLong (sound : Sound d Admits margin s kept) (narrow : margin ≤ 1) (absent : ∀ j, ptr ∉ kept j)
    (same : list = {s.freeLists i with freeList := some ptr, size := (s.freeLists i).size + 1})
    (long : (list.maxSize : Int) + 1 ≤ list.size + margin) :
    ∃ next, ({s with mem := update s.mem ptr (s.freeLists i).freeList} : ThreadCache).listTooLong i list = some next ∧
      ∃ kept, Sound d Admits margin next kept := by
  obtain ⟨chain,size,floor,limited,short⟩ := sound.bounded i
  obtain ⟨apart,chain',others⟩ := sound.push (i := i) absent
  subst same
  simp only at long
  have enough : (s.freeLists i).maxSize - 1 < (ptr :: kept i).length := by
    rw [List.length_cons]; omega
  obtain ⟨front,rest,stop,split,reached,final,length⟩ := stride_spec chain' enough
  have whole : (ptr :: kept i).length = front.length + rest.length := by rw [split,List.length_append]
  rw [List.length_cons] at whole
  have distinct := apart.nodup i
  rw [Function.update_self,split] at distinct
  rw [split] at chain' apart
  obtain ⟨taken,left⟩ := chain'.cut final distinct
  have stopped : stop ∈ front := List.mem_of_getLast? final
  have trimmed := apart.trim (c := i) (List.Nodup.of_append_right distinct) fun a found => by
    rw [Function.update_self]; exact List.mem_append_right _ found
  rw [Function.update_idem] at trimmed
  refine ⟨_,by simp only [ThreadCache.listTooLong,Option.bind_eq_bind,Option.bind_some,reached]; rfl,update kept i rest,?_⟩
  refine sound.rebuild trimmed ⟨left,?_,floor,limited,?_⟩ (fun j other a found => ?_) ?_
  · simp only; omega
  · simp only; omega
  · rw [Function.update_of_ne,others j a found]
    rintro rfl
    refine other (apart.only j i a ?_ ?_)
    · rw [Function.update_of_ne other]; exact found
    · rw [Function.update_self]; exact List.mem_append_left _ stopped
  · intro start stop' count released
    cases released
    exact ⟨front,taken,final,by omega⟩

theorem Sound.deallocate (laws : CacheLaws d Admits margin) (sound : Sound d Admits margin s kept)
    (none' : s.released = none) (admits : Admits size) (out : s.Outside ptr) :
    ∃ next, s.deallocate d ptr size = some next ∧ ∃ kept, Sound d Admits margin next kept := by
  obtain ⟨i,bucket⟩ := laws.bucket admits
  have absent := fun j => sound.outside out j
  obtain ⟨chain,size',floor,limited,short⟩ := sound.bounded i
  simp only [ThreadCache.deallocate,laws.deallocateSize admits,bucket,Option.bind_eq_bind,Option.bind_some]
  split
  case isTrue long => exact sound.tooLong laws.narrow absent rfl (laws.tooLong.mp long)
  case isFalse long =>
    obtain ⟨apart,chain',others⟩ := sound.push (i := i) absent
    rw [laws.tooLong] at long
    simp only at long
    refine ⟨_,rfl,_,sound.rebuild apart ⟨chain',?_,floor,limited,?_⟩ (fun j _ => others j) ?_⟩
    · simp only [List.length_cons]; omega
    · simp only; omega
    · rw [none']; exact given_nothing

theorem Sound.allocate (laws : CacheLaws d Admits margin) (sound : Sound d Admits margin s kept)
    (admitted : Admitted d s Admits (.allocate size answer)) : ∃ next block, s.allocate d size answer = some (next,block) ∧
      ∃ kept, Sound d Admits margin {next with released := none} kept := by
  obtain ⟨admits,answered⟩ := admitted
  obtain ⟨i,bucket⟩ := laws.bucket admits
  simp only [ThreadCache.allocate,bucket,Option.bind_eq_bind,Option.bind_some]
  cases first : (s.freeLists i).freeList with
  | some block => exact ⟨_,_,rfl,_,sound.pop first⟩
  | none => exact sound.fetch laws admits bucket first fun num => answered i num bucket first

theorem Sound.clear (sound : Sound d Admits margin s kept) : Sound d Admits margin {s with released := none} kept :=
  ⟨sound.apart,sound.bounded,given_nothing⟩

theorem Sound.write (sound : Sound d Admits margin s kept) (out : s.Outside a) (value : Option Nat) :
    Sound d Admits margin {s with released := none, mem := update s.mem a value} kept := by
  refine ⟨sound.apart,fun i => (sound.bounded i).agree fun b found => ?_,given_nothing⟩
  exact Function.update_of_ne (ne_of_mem_of_not_mem found (sound.outside out i)) _ _

theorem allocate_released {block : Nat} (stepped : s.allocate d size answer = some (next,block)) :
    next.released = s.released := by
  obtain ⟨i,_,stepped⟩ := Option.bind_eq_some_iff.mp stepped
  dsimp only at stepped
  split at stepped
  · cases stepped; rfl
  · obtain ⟨num,_,stepped⟩ := Option.bind_eq_some_iff.mp stepped
    obtain ⟨start,_,stepped⟩ := Option.bind_eq_some_iff.mp stepped
    obtain ⟨stop,_,stepped⟩ := Option.bind_eq_some_iff.mp stepped
    split at stepped <;> · cases stepped; rfl

theorem Sound.step (laws : CacheLaws d Admits margin) (sound : Sound d Admits margin s kept)
    (admitted : Admitted d s Admits action) :
    ∃ next, s.step d action = some next ∧ ∃ kept, Sound d Admits margin next kept := by
  cases action with
  | allocate size answer =>
    obtain ⟨next,block,taken,after⟩ := sound.clear.allocate laws admitted
    refine ⟨next,by rw [ThreadCache.step,taken]; rfl,?_⟩
    have released := allocate_released taken
    obtain ⟨mem,freeLists,rest⟩ := next
    cases released
    exact after
  | deallocate ptr size => exact sound.clear.deallocate laws rfl admitted.1 admitted.2
  | write a value => exact ⟨_,rfl,kept,sound.write admitted value⟩

theorem run_sound (laws : CacheLaws d Admits margin)
    (admitted : Machine.Throughout (ThreadCache.step d) (Admitted d · Admits) {} actions) :
    ∃ s, Machine.run (ThreadCache.step d) {} actions = some s ∧ ∃ kept, Sound d Admits margin s kept := by
  refine Machine.run_succeeds (motive := fun s => ∃ kept, Sound d Admits margin s kept) ?_
    ⟨_,start_sound laws.narrow⟩ admitted
  rintro s action ⟨kept,sound⟩ admitted
  exact sound.step laws admitted

end ThreadCache
end LinuxOS.Blocks
