import LinuxOS.Blocks.ThreadCache
import LinuxOS.Concurrent.Allocator
import LinuxOS.Pool.Allocator

namespace LinuxOS.Pool
open Blocks
variable {size : Nat}

-- Deallocate rounds the size that it is given.
def threadCache : CacheDesign := {allocator with deallocateSize := fun size => some (SizeClass.roundUp size)}

theorem threadCache_laws : CacheLaws threadCache Requested 0 where
  narrow := Nat.zero_le 1
  bucket := fun request => ⟨_,bucket_of_request request⟩
  batch := fun request => by
    obtain ⟨positive,top⟩ := roundUp_request request
    obtain ⟨nums,given,_⟩ := SizeClass.numsFromCentralCache_spec positive (by rw [maxBytes]; omega)
    exact ⟨nums,given⟩
  deallocateSize := fun _ => rfl
  class_one := fun {a b} request request' same => by
    have top : a ≤ maxBytes := by rw [maxBytes]; exact Nat.le_trans request.2 (by decide)
    have top' : b ≤ maxBytes := by rw [maxBytes]; exact Nat.le_trans request'.2 (by decide)
    obtain ⟨positive,small⟩ := roundUp_request request
    obtain ⟨positive',small'⟩ := roundUp_request request'
    have low := SizeClass.index_nonneg positive (show _ ≤ maxBytes by rw [maxBytes]; omega)
    have low' := SizeClass.index_nonneg positive' (show _ ≤ maxBytes by rw [maxBytes]; omega)
    have equal : (SizeClass.index (SizeClass.roundUp a)).toNat = (SizeClass.index (SizeClass.roundUp b)).toNat :=
      Option.some.inj ((bucket_of_request request).symm.trans (Eq.trans same (bucket_of_request request')))
    have indices : SizeClass.index (SizeClass.roundUp a) = SizeClass.index (SizeClass.roundUp b) := by omega
    rw [SizeClass.index_eq_iff (SizeClass.roundUp_le top) (SizeClass.roundUp_le top'),SizeClass.roundUp_roundUp top,
      SizeClass.roundUp_roundUp top'] at indices
    exact indices
  tooLong := fun {list} => by
    change decide ((list.maxSize : Int) < list.size) = true ↔ _
    rw [decide_eq_true_eq]
    exact ⟨fun long => by omega,fun long => by omega⟩

end LinuxOS.Pool

namespace LinuxOS.Concurrent
open Blocks
variable {size : Nat}

def threadCache : CacheDesign := {allocator with deallocateSize := allocator.freeSize}

theorem threadCache_laws : CacheLaws threadCache Pool.Requested 1 where
  narrow := Nat.le_refl 1
  bucket := fun {size} request => by
    obtain ⟨i,found,inside⟩ := SizeClass.index_inside request.1 (Nat.le_trans request.2 (by decide))
    refine ⟨i,?_⟩
    change (SizeClass.index (SizeClass.roundUp size)).bind _ = _
    rw [found]
    exact if_pos inside
  batch := fun {size} request => by
    have above : size ≤ SizeClass.roundUp size := (roundUp_small (Nat.le_trans request.2 (by decide))).1
    obtain ⟨nums,given,_⟩ := SizeClass.numMoveSize_spec (Nat.le_trans request.1 above)
    exact ⟨nums,given⟩
  deallocateSize := fun {size} request => by
    have below : size < maxBytes := by
      have top := request.2
      rw [maxBytes]; omega
    exact if_pos below
  class_one := fun {a b} request request' same => by
    have top : a ≤ 262144 := Nat.le_trans request.2 (by decide)
    have top' : b ≤ 262144 := Nat.le_trans request'.2 (by decide)
    obtain ⟨i,found,inside⟩ := SizeClass.index_inside request.1 top
    obtain ⟨j,found',inside'⟩ := SizeClass.index_inside request'.1 top'
    have place : bucket (SizeClass.roundUp a) = some i := by
      rw [bucket,found]; exact if_pos inside
    have place' : bucket (SizeClass.roundUp b) = some j := by
      rw [bucket,found']; exact if_pos inside'
    have equal : i = j := Option.some.inj (place.symm.trans (Eq.trans same place'))
    rw [equal] at found
    exact (index_eq_iff request.1 top request'.1 (Nat.le_trans top' (by decide))).mp (found.trans found'.symm)
  tooLong := fun {list} => by
    change decide ((list.maxSize : Int) ≤ list.size) = true ↔ _
    rw [decide_eq_true_eq]
    exact ⟨fun long => by omega,fun long => by omega⟩

end LinuxOS.Concurrent

namespace LinuxOS.ThreadCaches
open Machine
open Blocks Blocks.ThreadCache

def Sizes (d : CacheDesign) (margin : Nat) (s : ThreadCache) : Prop :=
  (∀ i, ∃ cells, Bounded d Pool.Requested margin s.mem i (s.freeLists i) cells) ∧ Given s.mem s.released

theorem sizes_of_run {d : CacheDesign} {margin : Nat} (laws : CacheLaws d Pool.Requested margin)
    {actions : List CacheAction} (admitted : Throughout (step d) (Admitted d · Pool.Requested) {} actions) :
    ∃ s, run (step d) {} actions = some s ∧ Sizes d margin s := by
  obtain ⟨s,ran,kept,sound⟩ := run_sound laws admitted
  exact ⟨s,ran,fun i => ⟨kept i,sound.bounded i⟩,sound.given⟩

theorem thread_cache_bounds (actions : List CacheAction) :
    (Throughout (step Pool.threadCache) (Admitted Pool.threadCache · Pool.Requested) {} actions →
      ∃ s, run (step Pool.threadCache) {} actions = some s ∧ Sizes Pool.threadCache 0 s) ∧
    (Throughout (step Concurrent.threadCache) (Admitted Concurrent.threadCache · Pool.Requested) {} actions →
      ∃ s, run (step Concurrent.threadCache) {} actions = some s ∧ Sizes Concurrent.threadCache 1 s) :=
  ⟨sizes_of_run Pool.threadCache_laws,sizes_of_run Concurrent.threadCache_laws⟩

def visit : List CacheAction := [.allocate 8 [16],.deallocate 16 8,.deallocate 24 8]

def fetchedOne : ThreadCache := {freeLists := Function.update (fun _ => {}) 0 {maxSize := 2}}

def cachedOne : ThreadCache where
  mem := Function.update (fun _ => none) 16 none
  freeLists := Function.update fetchedOne.freeLists 0 {freeList := some 16, maxSize := 2, size := 1}

theorem visit_admitted {d : CacheDesign} (rounded : d.roundUp 8 = 8) (batch : d.batch 8 = some 512)
    (first : step d {} (.allocate 8 [16]) = some fetchedOne)
    (second : step d fetchedOne (.deallocate 16 8) = some cachedOne) :
    Throughout (step d) (Admitted d · Pool.Requested) {} visit := by
  have admits : Pool.Requested 8 := by decide
  refine ⟨⟨admits,fun i num _ _ asked => ?_⟩,?_⟩
  · rw [rounded,ThreadCache.asked,batch] at asked
    obtain rfl : min 512 1 = num := Option.some.inj asked
    refine ⟨Nat.le_refl 1,by decide,List.nodup_singleton 16,⟨rfl,rfl⟩,fun a _ i cells chain => ?_⟩
    cases (chain.unique rfl : cells = [])
    exact List.not_mem_nil
  · rw [first]
    refine ⟨⟨admits,fun i cells chain => ?_⟩,?_⟩
    · have empty : (fetchedOne.freeLists i).freeList = none := by
        by_cases same : i = 0
        · subst i; rfl
        · simp [fetchedOne,Function.update_of_ne same]
      rw [empty] at chain
      cases (chain.unique rfl : cells = [])
      exact List.not_mem_nil
    · rw [second]
      refine ⟨⟨admits,fun i cells chain => ?_⟩,?_⟩
      · by_cases same : i = 0
        · subst i
          cases (chain.unique ⟨rfl,rfl⟩ : cells = [16])
          decide
        · have empty : (cachedOne.freeLists i).freeList = none := by
            simp [cachedOne,fetchedOne,Function.update_of_ne same]
          rw [empty] at chain
          cases (chain.unique rfl : cells = [])
          exact List.not_mem_nil
      · cases step d cachedOne (.deallocate 24 8) <;> trivial

theorem thread_cache_bounds_visit :
    (∃ s, run (step Pool.threadCache) {} visit = some s ∧ Sizes Pool.threadCache 0 s) ∧
      ∃ s, run (step Concurrent.threadCache) {} visit = some s ∧ Sizes Concurrent.threadCache 1 s :=
  ⟨(thread_cache_bounds visit).1 (visit_admitted (by decide) (by decide) rfl rfl),
    (thread_cache_bounds visit).2 (visit_admitted (by decide) (by decide) rfl rfl)⟩

end LinuxOS.ThreadCaches
