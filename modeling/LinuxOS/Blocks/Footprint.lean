import LinuxOS.Blocks.Residents
import LinuxOS.Blocks.Bounds
import LinuxOS.Blocks.Sections

namespace LinuxOS.Blocks
open Function (update)
open Links Pages Places
variable {d : Design} {Good : PageCache → Set Nat → Prop} {Ready : PageCache → Set Nat → Nat → Prop}
variable {Quiet : Span → Prop} {Admits : Nat → Prop}
variable {s next : Heap} {v : View} {a b h k t size index num ptr : Nat} {c : Place} {span : Span} {action : Action}

def wordBytes : Nat := 8

def Design.width (d : Design) (span : Span) : Nat :=
  if d.large span.objSize then span.nPages * pageBytes else span.objSize

structure Cut (d : Design) (span : Span) : Prop where
  pages : 1 ≤ span.nPages
  word : d.large span.objSize = false → wordBytes ≤ span.objSize
  fills : d.large span.objSize = false → span.objSize ∣ span.nPages * pageBytes

theorem Cut.width (cut : Cut d span) : wordBytes ≤ d.width span := by
  unfold Design.width
  split
  · have enough : 1 * pageBytes ≤ span.nPages * pageBytes := Nat.mul_le_mul_right _ cut.pages
    exact Nat.le_trans (by decide) enough
  · rename_i small
    exact cut.word (Bool.eq_false_of_not_eq_true small)

theorem Cut.block (cut : Cut d span) (small : d.large span.objSize = false) (block : a ∈ d.blocks span) :
    ∃ i, a = span.id * pageBytes + i * span.objSize ∧ i * span.objSize + span.objSize ≤ span.nPages * pageBytes := by
  have word := cut.word small
  obtain ⟨i,same,below⟩ := (blocks_small small (Nat.le_trans (by decide) word) cut.pages).mp block
  obtain ⟨q,fills⟩ := cut.fills small
  refine ⟨i,same,?_⟩
  rw [same,fills] at below
  have before : i < q := by
    rw [Nat.mul_comm span.objSize] at below
    exact Nat.lt_of_mul_lt_mul_right (Nat.lt_of_add_lt_add_left below)
  have step := Nat.mul_le_mul_right span.objSize before
  rw [Nat.succ_mul] at step
  rw [fills,Nat.mul_comm span.objSize]
  exact step

theorem Cut.inside (cut : Cut d span) (block : a ∈ d.blocks span) :
    span.id * pageBytes ≤ a ∧ a + d.width span ≤ span.id * pageBytes + span.nPages * pageBytes := by
  cases large : d.large span.objSize with
  | true =>
    rw [blocks_large large,List.mem_singleton] at block
    rw [block,Design.width,if_pos large]
    exact ⟨Nat.le_refl _,Nat.le_refl _⟩
  | false =>
    obtain ⟨i,same,fits⟩ := cut.block large block
    rw [same,Design.width,large,if_neg Bool.false_ne_true]
    omega

theorem Cut.apart (cut : Cut d span) (block : a ∈ d.blocks span) (block' : b ∈ d.blocks span) (different : a ≠ b) :
    a + d.width span ≤ b ∨ b + d.width span ≤ a := by
  cases large : d.large span.objSize with
  | true =>
    rw [blocks_large large,List.mem_singleton] at block block'
    exact absurd (block.trans block'.symm) different
  | false =>
    obtain ⟨i,same,_⟩ := cut.block large block
    obtain ⟨j,same',_⟩ := cut.block large block'
    rw [Design.width,large,if_neg Bool.false_ne_true]
    rcases Nat.lt_trichotomy i j with before | rfl | after
    · have step := Nat.mul_le_mul_right span.objSize before
      rw [Nat.succ_mul] at step
      omega
    · exact absurd (same.trans same'.symm) different
    · have step := Nat.mul_le_mul_right span.objSize after
      rw [Nat.succ_mul] at step
      omega

def Place.Opens (t : Nat) : Place → Prop
  | .live => False
  | .cached u _ => u = t
  | .moving u => u = t
  | .own _ => True

namespace Heap

theorem spans_apart (laws : Laws d Good Ready Quiet Admits) (good : Good s.cache {h | h ∈ s.handed}) (handed : h ∈ s.handed)
    (handed' : k ∈ s.handed) (pages : 1 ≤ (s.spanAt h).nPages) (pages' : 1 ≤ (s.spanAt k).nPages) (different : h ≠ k) :
    (s.spanAt h).id + (s.spanAt h).nPages ≤ (s.spanAt k).id ∨ (s.spanAt k).id + (s.spanAt k).nPages ≤ (s.spanAt h).id := by
  by_contra shared
  rw [not_or,Nat.not_le,Nat.not_le] at shared
  have common : ∀ {i}, i ∈ (s.spanAt h).extent ∩ (s.spanAt k).extent → h = k := fun both =>
    laws.alone good handed handed' both.1 both.2
  rcases Nat.le_total (s.spanAt h).id (s.spanAt k).id with before | after
  · exact different (common ⟨⟨before,shared.1⟩,⟨Nat.le_refl _,by omega⟩⟩)
  · exact different (common ⟨⟨Nat.le_refl _,by omega⟩,⟨after,shared.2⟩⟩)

theorem blocks_apart (laws : Laws d Good Ready Quiet Admits) (good : Good s.cache {h | h ∈ s.handed}) (handed : h ∈ s.handed)
    (handed' : k ∈ s.handed) (cut : Cut d (s.spanAt h)) (cut' : Cut d (s.spanAt k)) (block : a ∈ d.blocks (s.spanAt h))
    (block' : b ∈ d.blocks (s.spanAt k)) (different : a ≠ b) :
    a + d.width (s.spanAt h) ≤ b ∨ b + d.width (s.spanAt k) ≤ a := by
  by_cases same : h = k
  · subst same
    exact cut.apart block block' different
  · have inside := cut.inside block
    have inside' := cut'.inside block'
    simp only [← Nat.add_mul] at inside inside'
    rcases spans_apart laws good handed handed' cut.pages cut'.pages same with before | after
    · have ends := Nat.mul_le_mul_right pageBytes before
      omega
    · have ends := Nat.mul_le_mul_right pageBytes after
      omega

-- Where a step of thread `t` can write a link: in a block that no user and no other
-- thread has, or in one that it is cutting out of its span.
def Writable (d : Design) (s : Heap) (v : View) (t y : Nat) : Prop :=
  (∃ c : Place, c.Opens t ∧ y ∈ v.kept c) ∨ ∃ size num h, s.pcs t = .settled size num h ∧ y ∈ d.blocks (s.spanAt h)

theorem writes_update (link : Option Nat) (writable : Writable d s v t a) (y : Nat)
    (written : update s.mem a link y ≠ s.mem y) : Writable d s v t y := by
  by_cases same : y = a
  · rw [same]; exact writable
  · exact absurd (Function.update_of_ne same _ _) written

theorem takeRange_writes (sound : Sound d Good Quiet s v) (handed : h ∈ s.handed) (out : (v.stage h).Circulates)
    (ran : s.takeRange t size num h = some next) (y : Nat) (written : next.mem y ≠ s.mem y) : Writable d s v t y := by
  obtain ⟨start,first,ran⟩ := Option.bind_eq_some_iff.mp ran
  have chain := sound.linked (.own h) handed out
  rw [first] at chain
  obtain ⟨front,rest,split,final,_⟩ := walk_spec (n := num-1) (k := 1) chain
  cases ran
  have member : (walk s.mem (num-1) start 1).1 ∈ v.kept (.own h) := by
    rw [split]
    exact List.mem_append_left _ (List.mem_of_getLast? final)
  exact writes_update _ (.inl ⟨.own h,trivial,member⟩) y written

theorem deallocate_writes (laws : Laws d Good Ready Quiet Admits) (sound : Sound d Good Quiet s v)
    (freeing : s.pcs t = .freeing ptr h) (ran : s.deallocate d t h ptr = some next) (y : Nat)
    (written : next.mem y ≠ s.mem y) : Writable d s v t y := by
  have moving := sound.linked (.moving t)
  rw [Linked,freeing] at moving
  have moving : v.kept (.moving t) = [ptr] := moving
  have mine : Writable d s v t ptr := .inl ⟨.moving t,rfl,by rw [moving]; exact .head _⟩
  unfold deallocate at ran
  dsimp only at ran
  split at ran
  · cases ran
    exact absurd rfl written
  · obtain ⟨_,ran⟩ := Option.ite_none_right_eq_some.mp ran
    obtain ⟨size,_,ran⟩ := Option.bind_eq_some_iff.mp ran
    obtain ⟨i,_,ran⟩ := Option.bind_eq_some_iff.mp ran
    split at ran
    · rename_i long
      obtain ⟨stop,reached,ran⟩ := Option.bind_eq_some_iff.mp ran
      cases ran
      -- the end of the range is on the list that begins with the freed block
      obtain ⟨chain,length,_⟩ := sound.linked (.cached t i)
      have absent : ptr ∉ v.kept (.cached t i) := fun found => by
        cases sound.apart.only (.cached t i) (.moving t) ptr found (by rw [moving]; exact .head _)
      have pushed := chain.push absent
      have enough := laws.tooLong long
      have room : (s.lists t i).maxSize - 1 < (ptr :: v.kept (.cached t i)).length := by
        rw [List.length_cons]
        dsimp only at enough
        omega
      obtain ⟨front,rest,last,split,reached',final,_⟩ := stride_spec pushed room
      cases reached.symm.trans reached'
      have member : stop ∈ ptr :: v.kept (.cached t i) := by
        rw [split]
        exact List.mem_append_left _ (List.mem_of_getLast? final)
      have other : Writable d s v t stop := by
        rcases List.mem_cons.mp member with rfl | cached
        · exact mine
        · exact .inl ⟨.cached t i,rfl,cached⟩
      by_cases same : y = stop
      · rw [same]; exact other
      · refine writes_update (s.lists t i).freeList mine y fun kept => written ?_
        exact (Function.update_of_ne same _ _).trans kept
    · cases ran
      exact writes_update _ mine y written

theorem advance_writes (laws : Laws d Good Ready Quiet Admits) (sound : Sound d Good Quiet s v)
    (ran : s.advance d t page (s.pcs t) = some next) (y : Nat) (written : next.mem y ≠ s.mem y) : Writable d s v t y := by
  have moving := sound.linked (.moving t)
  have known := sound.knows t
  unfold Knows at known
  rw [Linked] at moving
  cases at' : s.pcs t with
  | idle => rw [at'] at ran; cases ran
  | fetching size num =>
    rw [at'] at ran
    obtain ⟨i,_,ran⟩ := Option.bind_eq_some_iff.mp ran
    obtain ⟨_,ran⟩ := Option.ite_none_right_eq_some.mp ran
    split at ran
    · rename_i span found
      obtain ⟨handed,stage⟩ := (sound.listed i span).mp (List.mem_of_find?_eq_some found)
      exact takeRange_writes sound handed (by rw [stage]; trivial) ran y written
    · cases ran
      exact absurd rfl written
  | lacking size num =>
    rw [at'] at ran
    obtain ⟨_,_,ran⟩ := Option.bind_eq_some_iff.mp ran
    obtain ⟨_,ran⟩ := Option.ite_none_right_eq_some.mp ran
    obtain ⟨_,_,equal⟩ := Option.bind_eq_some_iff.mp ran
    cases equal
    exact absurd rfl written
  | fresh size num h =>
    rw [at'] at ran
    obtain ⟨_,_,equal⟩ := Option.bind_eq_some_iff.mp ran
    cases equal
    exact absurd rfl written
  | settled size num h =>
    rw [at'] at ran
    simp only [at'] at known
    cases ran
    refine .inr ⟨size,num,h,at',?_⟩
    by_contra absent
    obtain ⟨⟨i,sort⟩,_,_,objSize,_⟩ := known
    have small : d.large (s.spanAt h).objSize = false := by rw [objSize]; exact sort.small
    rw [blocks_cells small,objSize] at absent
    exact written (carve_other absent)
  | carved size num h =>
    rw [at'] at ran
    simp only [at'] at known
    obtain ⟨handed,stage,_⟩ := known
    obtain ⟨i,_,ran⟩ := Option.bind_eq_some_iff.mp ran
    obtain ⟨_,ran⟩ := Option.ite_none_right_eq_some.mp ran
    obtain ⟨start,first,ran⟩ := Option.bind_eq_some_iff.mp ran
    cases ran
    have again : s.takeRange t size num h = some _ := Option.bind_eq_some_iff.mpr ⟨start,first,rfl⟩
    exact takeRange_writes sound handed (by rw [stage]; trivial) again y written
  | received size start stop count =>
    rw [at'] at ran moving
    obtain ⟨_,final,_⟩ := moving
    have mine : Writable d s v t stop := .inl ⟨.moving t,rfl,List.mem_of_getLast? final⟩
    obtain ⟨i,_,ran⟩ := Option.bind_eq_some_iff.mp ran
    dsimp only at ran
    split at ran
    · cases ran
      exact writes_update _ mine y written
    · cases ran
      exact absurd rfl written
  | freeing ptr h =>
    rw [at'] at ran
    exact deallocate_writes laws sound at' ran y written
  | returning i cur =>
    rw [at'] at ran
    simp only [advance] at ran
    obtain ⟨_,equal⟩ := Option.ite_none_right_eq_some.mp ran
    cases equal
    exact absurd rfl written
  | putting i cur =>
    rw [at'] at ran moving
    cases cur with
    | none =>
      cases ran
      exact absurd rfl written
    | some cur =>
      obtain ⟨rest,kept⟩ := Chain.nonempty moving
      have mine : Writable d s v t cur := .inl ⟨.moving t,rfl,by rw [kept]; exact .head _⟩
      obtain ⟨h,_,ran⟩ := Option.bind_eq_some_iff.mp ran
      dsimp only at ran
      split at ran
      · cases ran
        exact writes_update _ mine y written
      · cases ran
        exact writes_update _ mine y written
  | releasing i h after =>
    rw [at'] at ran
    obtain ⟨_,_,equal⟩ := Option.bind_eq_some_iff.mp ran
    cases equal
    exact absurd rfl written
  | dropping h =>
    rw [at'] at ran
    obtain ⟨_,_,equal⟩ := Option.bind_eq_some_iff.mp ran
    cases equal
    exact absurd rfl written

theorem step_writes (laws : Laws d Good Ready Quiet Admits) (sound : Sound d Good Quiet s v)
    (stepped : s.step d action = some next) (y : Nat) (written : next.mem y ≠ s.mem y) :
    Writable d s v action.thread y := by
  cases action with
  | alloc t size page =>
    simp only [Heap.step] at stepped
    split at stepped
    · split at stepped
      · obtain ⟨_,stepped⟩ := Option.ite_none_right_eq_some.mp stepped
        obtain ⟨_,_,equal⟩ := Option.bind_eq_some_iff.mp stepped
        cases equal
        exact absurd rfl written
      · obtain ⟨i,_,stepped⟩ := Option.bind_eq_some_iff.mp stepped
        dsimp only at stepped
        split at stepped
        · cases stepped
          exact absurd rfl written
        · obtain ⟨_,_,equal⟩ := Option.bind_eq_some_iff.mp stepped
          cases equal
          exact absurd rfl written
    · cases stepped
  | free t ptr =>
    simp only [Heap.step] at stepped
    split at stepped
    · obtain ⟨_,stepped⟩ := Option.ite_none_right_eq_some.mp stepped
      obtain ⟨_,_,equal⟩ := Option.map_eq_some_iff.mp stepped
      cases equal
      exact absurd rfl written
    · cases stepped
  | next t page => exact advance_writes laws sound stepped y written

end Heap
end LinuxOS.Blocks
