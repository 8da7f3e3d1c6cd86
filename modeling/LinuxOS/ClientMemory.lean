import LinuxOS.Blocks.Clients
import LinuxOS.Concurrent.Allocator
import LinuxOS.Pool.Allocator

namespace LinuxOS
open Machine Pages Blocks

theorem Blocks.Laws.mono {d : Design} {Good : PageCache → Set Nat → Prop} {Ready : PageCache → Set Nat → Nat → Prop}
    {Quiet : Span → Prop} {Admits Fewer : Nat → Prop} (laws : Laws d Good Ready Quiet Admits)
    (implies : ∀ size, Fewer size → Admits size) : Laws d Good Ready Quiet Fewer :=
  {laws with
    small := fun request => laws.small (implies _ request)
    large := fun request => laws.large (implies _ request)}

namespace Pool
variable {size other index : Nat}

def Filling (size : Nat) : Prop := Requested size ∧ allocator.Tiling (SizeClass.roundUp size)

instance : DecidablePred Filling := fun size =>
  inferInstanceAs (Decidable (Requested size ∧ allocator.Tiling (SizeClass.roundUp size)))

-- Two pages of blocks of 24 bytes end in the next span.
example : ¬Filling 24 ∧ Filling 16 ∧ Filling 204800 := by decide

theorem rounded_of_class (sort : allocator.Class size index) : size ≤ maxBytes ∧ SizeClass.roundUp size = size := by
  have again : SizeClass.roundUp (SizeClass.roundUp size) = size := Option.some.inj sort.again
  have top : size ≤ maxBytes := by
    by_contra large
    have zero : SizeClass.roundUp size = 0 := by
      rw [maxBytes] at large
      rw [SizeClass.roundUp,if_neg (by omega),if_neg (by omega),if_neg (by omega),if_neg (by omega),if_neg (by omega)]
    rw [zero,show SizeClass.roundUp 0 = 0 by decide] at again
    omega
  rw [SizeClass.roundUp_roundUp top] at again
  exact ⟨top,again⟩

theorem index_of_class (sort : allocator.Class size index) : SizeClass.index size = index := by
  have place : (if 0 ≤ SizeClass.index size ∧ SizeClass.index size < nFreeList then some (SizeClass.index size).toNat
    else none) = some index := sort.bucket
  obtain ⟨⟨low,_⟩,equal⟩ := Option.ite_none_right_eq_some.mp place
  cases equal
  exact (Int.toNat_of_nonneg low).symm

theorem allocator_room : Room allocator Filling where
  word := fun sort => by
    obtain ⟨top,rounded⟩ := rounded_of_class sort
    obtain ⟨q,parts⟩ := SizeClass.shape top
    have positive := sort.positive
    rw [wordBytes]
    omega
  single := fun sort sort' => by
    obtain ⟨top,rounded⟩ := rounded_of_class sort
    obtain ⟨top',rounded'⟩ := rounded_of_class sort'
    have same := (SizeClass.index_eq_iff top top').mp ((index_of_class sort).trans (index_of_class sort').symm)
    exact rounded.symm.trans (same.trans rounded')
  above := fun request _ => SizeClass.le_roundUp (Nat.le_trans request.1.2 (by decide))
  wide := fun _ large => absurd large Bool.false_ne_true
  tiles := fun request _ => request.2

def Asks : Use → Prop
  | .call (.alloc _ size _) _ _ => Filling size
  | _ => True

instance : DecidablePred Asks
  | .call (.alloc _ size _) _ _ => inferInstanceAs (Decidable (Filling size))
  | .call (.free _ _) _ _ => .isTrue trivial
  | .call (.next _ _) _ _ => .isTrue trivial
  | .store _ _ _ _ => .isTrue trivial

theorem guard_of_asks {m : Shared} {use : Use} (asks : Asks use) : m.Guard (fun _ _ _ => True) Filling use := by
  cases use with
  | store block offset byte words => trivial
  | call action bytes words =>
    cases action with
    | alloc t size page => exact asks
    | free t ptr => trivial
    | next t page => exact fun _ _ => trivial

-- Two threads store in blocks of two spans; the first frees its own and gets it again.
def storesInTwo : List Use :=
  let call := fun action => Use.call action (fun _ => 170) some
  [call (.alloc 0 204800 16),call (.next 0 16),call (.next 0 16),call (.next 0 16),call (.next 0 16),call (.next 0 16),
    call (.next 0 16),.store 131072 3 7 some,call (.alloc 1 131072 0),call (.next 1 0),call (.next 1 400),call (.next 1 0),
    call (.next 1 0),call (.next 1 0),call (.next 1 0),.store 540672 131071 8 some,call (.free 0 131072),call (.next 0 0),
    call (.alloc 0 200000 0)]

end Pool

namespace Concurrent
variable {size other index : Nat}

def Filling (size : Nat) : Prop := Requested size ∧ (size ≤ maxBytes → allocator.Tiling (SizeClass.roundUp size))

instance : DecidablePred Filling := fun size =>
  inferInstanceAs (Decidable (Requested size ∧ (size ≤ maxBytes → allocator.Tiling (SizeClass.roundUp size))))

theorem rounded_of_class (sort : allocator.Class size index) : 1 ≤ size ∧ size ≤ 262144 ∧
    SizeClass.roundUp size = size ∧ SizeClass.index size = some index := by
  obtain ⟨positive,top⟩ := bucket_some sort.bucket
  obtain ⟨_,again⟩ := Option.ite_none_right_eq_some.mp
    (show (if size < maxBytes then some (SizeClass.roundUp size) else none) = some size from sort.again)
  obtain ⟨i,found,inside⟩ := Option.bind_eq_some_iff.mp sort.bucket
  obtain ⟨_,equal⟩ := Option.ite_none_right_eq_some.mp inside
  rw [equal] at found
  exact ⟨positive,top,Option.some.inj again,found⟩

theorem allocator_room : Room allocator Filling where
  word := fun sort => by
    obtain ⟨positive,top,rounded,_⟩ := rounded_of_class sort
    obtain ⟨q,parts⟩ := SizeClass.roundUp_shape top
    rw [wordBytes]
    omega
  single := fun sort sort' => by
    obtain ⟨positive,top,rounded,found⟩ := rounded_of_class sort
    obtain ⟨positive',top',rounded',found'⟩ := rounded_of_class sort'
    have places := index_eq_iff positive top positive' (Nat.le_trans top' (by decide))
    rw [rounded,rounded',found,found'] at places
    exact places.mp rfl
  above := fun {size} request small => by
    have bounded : ¬maxBytes < size := of_decide_eq_false small
    by_cases top : size ≤ 262144
    · exact (roundUp_small top).1
    · obtain ⟨_,_,above⟩ := roundUp_large request.1 (by omega)
      exact above
  wide := fun {size} request large => by
    have bounded : maxBytes < size := of_decide_eq_true large
    rw [maxBytes] at bounded
    obtain ⟨q,rounded,above⟩ := roundUp_large request.1 (by omega)
    have pages : allocator.largePages size = q := by
      show SizeClass.roundUp size >>> pageShift = q
      rw [rounded,Nat.shiftRight_eq_div_pow,pageShift,Nat.mul_div_cancel _ (Nat.two_pow_pos 13)]
    rw [pages,show pageBytes = 2^13 by decide,← rounded]
    exact above
  tiles := fun {size} request small => request.2 (Nat.le_of_not_lt (of_decide_eq_false small))

-- A stronger guard that can be computed, as `Marked` is.
def Steady (m : Shared) : Use → Prop
  | .call (.alloc _ size _) _ _ => Filling size
  | .call action _ _ => Marked m.heap action
  | .store _ _ _ _ => True

instance : ∀ (m : Shared) (use : Use), Decidable (Steady m use)
  | _,.call (.alloc _ size _) _ _ => inferInstanceAs (Decidable (Filling size))
  | m,.call (.free t ptr) _ _ => inferInstanceAs (Decidable (Marked m.heap (.free t ptr)))
  | m,.call (.next t page) _ _ => inferInstanceAs (Decidable (Marked m.heap (.next t page)))
  | _,.store _ _ _ _ => .isTrue trivial

theorem guard_of_steady (m : Shared) (use : Use) (steady : Steady m use) : m.Guard Ready Filling use := by
  cases use with
  | store block offset byte words => trivial
  | call action bytes words =>
    cases action with
    | alloc t size page => exact steady
    | free t ptr => trivial
    | next t page => exact calm_of_marked m.heap (.next t page) steady

def storesBesideLarge : List Use :=
  let call := fun action => Use.call action (fun _ => 170) some
  [call (.alloc 0 524289 16),.store 131072 524288 7 some,call (.alloc 1 73728 0),call (.next 1 0),call (.next 1 400),
    call (.next 1 0),call (.next 1 0),call (.next 1 0),call (.next 1 0),.store 663552 0 8 some,call (.free 0 131072),
    call (.next 0 0),call (.next 0 0)]

end Concurrent
end LinuxOS
