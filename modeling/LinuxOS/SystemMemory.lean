import LinuxOS.Pages.Mapping
import LinuxOS.Concurrent.PageHistory
import LinuxOS.Pool.PageHistory

namespace LinuxOS.Pool
open Pages Pages.PageCache

-- Every region that GetNewSpan gets is 128 pages, and none is ever given back.
def spanMemory : SpanDesign where
  admits := fun pageNum => 1 ≤ pageNum ∧ pageNum < nPageList
  request := getNewSpan
  release := releaseSpanToPageCache
  asks := asks
  bought := fun _ => nPageList - 1
  alone := fun _ => false

theorem spanMemory_laws : SpanLaws spanMemory fun cache handed => Ledger.Tidy {cache, handed} where
  start := Ledger.tidy_start
  buys := fun _ => show 1 ≤ nPageList - 1 by decide
  alone := fun own => Bool.noConfusion own
  request := fun {p handed n page} tidy admits backed => by
    obtain ⟨positive,small⟩ := of_decide_eq_true admits
    obtain ⟨q,h,served,tidy,given⟩ := tidy.request positive small fun asked => (backed asked).2
    exact ⟨q,h,served,tidy,given.absent,given.size,fun own => Bool.noConfusion own,given.frame,getNewSpan_system served⟩
  release := fun tidy user => tidy.release user
  inside := fun tidy user under => tidy.kept.tiles.inside (.inl user) under
  whole := fun _ _ own => Bool.noConfusion own
  distinct := fun tidy => tidy.distinct

end LinuxOS.Pool

namespace LinuxOS.Concurrent
open Pages Pages.PageCache

-- More than 128 pages are a region of their own.
def spanMemory : SpanDesign where
  admits := fun npage => 1 ≤ npage
  request := fun p npage answers => (newSpan p npage answers).map fun result =>
    (result.1.write result.2 fun sp => {sp with isUsed := true},result.2)
  release := releaseSpanToPageCache
  asks := asks
  bought := region
  alone := fun npage => nPageList - 1 < npage

theorem spanMemory_laws : SpanLaws spanMemory fun cache handed => Ledger.Tidy {cache, handed} where
  start := Ledger.tidy_start
  buys := fun {n} admits => by
    have positive : 1 ≤ n := of_decide_eq_true admits
    change 1 ≤ region n
    rw [region]
    split
    · exact positive
    · decide
  alone := fun own => ⟨asks_large (of_decide_eq_true own),if_pos (of_decide_eq_true own)⟩
  request := fun {p handed n page} tidy admits backed => by
    obtain ⟨q,h,served,tidy,given⟩ := tidy.request (of_decide_eq_true admits) backed
    have system := newSpan_system served
    refine ⟨q.write h fun sp => {sp with isUsed := true},h,congrArg (Option.map _) served,tidy,given.absent,
      by rw [write_same]; exact given.size,fun own => ?_,fun k user => ?_,system⟩
    · rw [newSpan_large [] (of_decide_eq_true own)] at served
      rw [write_same,newLarge_span served]
    · rw [write_other _ (ne_of_mem_of_not_mem user given.absent),given.frame k user]
  release := fun {p handed h} tidy user => by
    obtain ⟨q,released,tidy,frame,system⟩ := tidy.release user
    refine ⟨q,released,tidy,frame,system.trans ?_⟩
    simp only [spanMemory,decide_eq_true_eq]
    rfl
  inside := fun {p handed h page} tidy user under => by
    obtain ⟨area,kept⟩ := tidy.kept
    exact kept.mapped page (kept.tiles.inside (.inl user) under)
  whole := fun {p handed h} tidy user own => by
    obtain ⟨area,kept⟩ := tidy.kept
    obtain ⟨real,given⟩ := kept.whole h user (of_decide_eq_true own)
    exact ⟨real,kept.sized h (.inl user),given⟩
  distinct := fun tidy => tidy.distinct

end LinuxOS.Concurrent

namespace LinuxOS.SystemMemory
open Machine
open Pages Pages.Memory

def Guarded (d : SpanDesign) (s : Memory) (action : MemoryAction) : Prop := Admitted d s action ∧ Aligned d s action

instance (d : SpanDesign) (s : Memory) (action : MemoryAction) : Decidable (Guarded d s action) :=
  inferInstanceAs (Decidable (_ ∧ _))

theorem spans_covered (actions : List MemoryAction) :
    (Throughout (step Pool.spanMemory) (Guarded Pool.spanMemory) {} actions →
      ∃ s, run (step Pool.spanMemory) {} actions = some s ∧ Covered s) ∧
    (Throughout (step Concurrent.spanMemory) (Guarded Concurrent.spanMemory) {} actions →
      ∃ s, run (step Concurrent.spanMemory) {} actions = some s ∧ Covered s) :=
  ⟨run_covered Pool.spanMemory_laws,run_covered Concurrent.spanMemory_laws⟩

-- A mapping that is cut in two and merged again. The second request needs none, so
-- it does not matter where mmap would place it.
def divided : List MemoryAction := [.request 126 16384,.request 2 4096,.release 1,.release 0]

theorem spans_covered_divided :
    (∃ s, run (step Pool.spanMemory) {} divided = some s ∧ Covered s) ∧
      ∃ s, run (step Concurrent.spanMemory) {} divided = some s ∧ Covered s :=
  ⟨(spans_covered divided).1 (by decide +kernel),(spans_covered divided).2 (by decide +kernel)⟩

-- mmap answers with the second half of a page of the allocator: the span begins in the
-- first half, and SystemFree is called for what was not mapped.
theorem half_page_lost :
    (∃ s, Throughout (step Pool.spanMemory) (Admitted Pool.spanMemory) {} [.request 1 12288] ∧
      run (step Pool.spanMemory) {} [.request 1 12288] = some s ∧
      (∃ h ∈ s.handed, ∃ a, (s.cache.bytes h).Has a ∧ ¬Ranges.Holds s.held a) ∧ ¬Covered s) ∧
    (∃ s, Throughout (step Concurrent.spanMemory) (Admitted Concurrent.spanMemory) {} [.request 200 12288,.release 0] ∧
      run (step Concurrent.spanMemory) {} [.request 200 12288,.release 0] = some s ∧
      s.freed = [(some ⟨12288,12288 + 200 * 8192⟩,⟨8192,8192 + 200 * 8192⟩)] ∧ ¬Covered s) := by
  refine ⟨⟨_,by decide +kernel,rfl,?_,?_⟩,⟨_,by decide +kernel,rfl,rfl,?_⟩⟩
  · exact ⟨1,.head _,8192,by decide +kernel,by decide +kernel⟩
  · intro covered
    exact absurd (covered.spans 1 (.head _) 8192 (by decide +kernel)) (by decide +kernel)
  · intro covered
    exact absurd (covered.frees _ (.head _)) (by decide +kernel)

end LinuxOS.SystemMemory
