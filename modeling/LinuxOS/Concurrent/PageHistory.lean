import LinuxOS.Machine
import LinuxOS.Concurrent.Release

namespace LinuxOS.Concurrent
open Machine
open Pages Pages.PageCache

-- The page cache with the spans that it has handed out and not got back.
structure Ledger where
  cache : PageCache := {}
  handed : List Nat := []

inductive Operation where
  | newSpan (npage page : Nat)
  | releaseSpanToPageCache (span : Nat)

namespace Ledger
variable {s next : Ledger} {operation : Operation} {h : Nat}

-- Every caller of NewSpan sets `_is_used`.
def step (s : Ledger) : Operation → Option Ledger
  | .newSpan npage page => (newSpan s.cache npage [page]).map fun result =>
      {cache := result.1.write result.2 fun sp => {sp with isUsed := true}, handed := result.2 :: s.handed}
  | .releaseSpanToPageCache span => (releaseSpanToPageCache s.cache span).map fun cache =>
      {cache, handed := s.handed.erase span}

def Admitted (s : Ledger) : Operation → Prop
  | .newSpan npage page => 1 ≤ npage ∧ 0 < page ∧ s.cache.Fresh page (region npage)
  | .releaseSpanToPageCache span => span ∈ s.handed

instance : ∀ (s : Ledger) (operation : Operation), Decidable (Admitted s operation)
  | s,.newSpan npage page => inferInstanceAs (Decidable (1 ≤ npage ∧ 0 < page ∧ s.cache.Fresh page (region npage)))
  | s,.releaseSpanToPageCache span => inferInstanceAs (Decidable (span ∈ s.handed))

def Used (s : Ledger) (h : Nat) : Prop := h ∈ s.handed
def Free (s : Ledger) (h : Nat) : Prop := s.cache.Filed h

structure Sound (s : Ledger) : Prop where
  disjoint : ∀ h k page, s.Used h ∨ s.Free h → s.Used k ∨ s.Free k → page ∈ s.cache.extent h →
    page ∈ s.cache.extent k → h = k
  free : ∀ h, s.Free h → (s.cache.spans h).isUsed = false ∧ 1 ≤ (s.cache.spans h).nPages ∧
    (s.cache.spans h).nPages ≤ 128 ∧ ∀ n, h ∈ s.cache.spanLists n ↔ n = (s.cache.spans h).nPages
  once : ∀ n, (s.cache.spanLists n).Nodup
  used : ∀ h, s.Used h → (s.cache.spans h).isUsed = true ∧ ∀ n, h ∉ s.cache.spanLists n
  distinct : s.handed.Nodup
  usedEntry : ∀ h page, s.Used h → page ∈ s.cache.extent h → s.cache.get page = some h
  freeEntry : ∀ h page, s.Free h → s.cache.AtEnd h page → s.cache.get page = some h
  nullEntry : ∀ page, (∀ h, s.Used h → page ∉ s.cache.extent h) →
    (∀ h, s.Free h → ¬s.cache.AtEnd h page) → s.cache.get page = none

-- What releasing a span of more than 128 pages does: its entries are gone, and
-- SystemFree gets the region that its pages are.
structure Returned (s : Ledger) (h : Nat) (next : Ledger) : Prop where
  unmapped : ∀ page ∈ s.cache.extent h, next.cache.get page = none
  given : ((s.cache.spans h).id,(s.cache.spans h).nPages) ∈ s.cache.system
  freed : next.cache.system = s.cache.system.erase ((s.cache.spans h).id,(s.cache.spans h).nPages)

structure Tidy (s : Ledger) : Prop where
  kept : ∃ area, Kept s.cache {h | h ∈ s.handed} ∅ area
  marked : ∀ h ∈ s.handed, (s.cache.spans h).isUsed = true
  distinct : s.handed.Nodup

theorem tidy_start : Tidy {} := by
  have nobody : ({h | h ∈ ([] : List Nat)} : Set Nat) = ∅ := by
    ext h; simp
  refine ⟨⟨∅,?_⟩,by simp,.nil⟩
  rw [nobody]; exact kept_start

theorem Tidy.sound (tidy : Tidy s) : Sound s := by
  obtain ⟨area,kept⟩ := tidy.kept
  have owns : ∀ h, s.Used h ∨ s.Free h → h ∈ s.cache.owned {h | h ∈ s.handed} ∅ := fun h role =>
    role.imp_right .inl
  refine ⟨?_,?_,kept.nodup,?_,tidy.distinct,fun h page => kept.toLayout.entry_held,
    fun h page => kept.toLayout.entry_filed,fun page => kept.toLayout.entry_none⟩
  · intro h k page role role' under under'
    exact kept.alone page (owns h role) (owns k role') under under'
  · rintro h ⟨n,found⟩
    exact kept.toLayout.free found
  · intro h user
    exact ⟨tidy.marked h user,fun n found => (kept.parted h ⟨n,found⟩).1 user⟩

theorem Tidy.request {npage page : Nat} (tidy : Tidy s) (positive : 1 ≤ npage)
    (backed : asks s.cache npage = true → 0 < page ∧ s.cache.Fresh page (region npage)) :
    ∃ q h, newSpan s.cache npage [page] = some (q,h) ∧
      Tidy {cache := q.write h fun sp => {sp with isUsed := true}, handed := h :: s.handed} ∧
      Given s.cache q {h | h ∈ s.handed} npage h := by
  obtain ⟨area,kept⟩ := tidy.kept
  obtain ⟨q,h,served,given⟩ := newSpan_given kept positive backed
  obtain ⟨area',kept'⟩ := given.kept
  refine ⟨q,h,served,⟨⟨area',?_⟩,?_,List.nodup_cons.mpr ⟨given.absent,tidy.distinct⟩⟩,given⟩
  · rw [List.setOfPred_mem_cons]
    exact kept'.edit (.inl rfl) (fun sp => {sp with isUsed := true}) rfl rfl
  · intro k found
    by_cases same : k = h
    · subst k; rw [write_same]
    · have old : k ∈ s.handed := (List.mem_cons.mp found).resolve_left same
      rw [write_other _ same,given.frame k old]; exact tidy.marked k old

theorem tidy_without {q : PageCache} (tidy : Tidy s) (kept : ∃ area, Kept q ({k | k ∈ s.handed} \ {h}) ∅ area)
    (same : ∀ k ∈ s.handed, k ≠ h → q.spans k = s.cache.spans k) : Tidy {cache := q, handed := s.handed.erase h} := by
  obtain ⟨area,kept⟩ := kept
  refine ⟨⟨area,by rw [setOf_erase tidy.distinct]; exact kept⟩,?_,tidy.distinct.erase h⟩
  intro k found
  obtain ⟨other,old⟩ := tidy.distinct.mem_erase_iff.mp found
  rw [same k old other]; exact tidy.marked k old

theorem Tidy.release (tidy : Tidy s) (user : h ∈ s.handed) :
    ∃ q, releaseSpanToPageCache s.cache h = some q ∧ Tidy {cache := q, handed := s.handed.erase h} ∧
      (∀ k ∈ s.handed, k ≠ h → q.spans k = s.cache.spans k) ∧
      q.system = if 128 < (s.cache.spans h).nPages then
        s.cache.system.erase ((s.cache.spans h).id,(s.cache.spans h).nPages) else s.cache.system := by
  obtain ⟨area,kept⟩ := tidy.kept
  by_cases large : 128 < (s.cache.spans h).nPages
  · obtain ⟨q,released,kept',same,_,_,system⟩ := release_large kept user large
    have frame : ∀ k ∈ s.handed, k ≠ h → q.spans k = s.cache.spans k := fun k _ _ => by rw [same]
    exact ⟨q,released,tidy_without tidy kept' frame,frame,by rw [if_pos large,system]⟩
  · obtain ⟨q,released,kept',frame,system⟩ := release_small kept user large
      (ready_marked fun k user' _ => tidy.marked k user')
    exact ⟨q,released,tidy_without tidy ⟨area,kept'⟩ frame,frame,by rw [if_neg large,system]⟩

theorem step_tidy (tidy : Tidy s) (admitted : Admitted s operation) :
    ∃ next, step s operation = some next ∧ Tidy next := by
  cases operation with
  | newSpan npage page =>
    obtain ⟨positive,real,fresh⟩ := admitted
    obtain ⟨q,h,served,tidy,_⟩ := tidy.request positive fun _ => ⟨real,fresh⟩
    exact ⟨_,by rw [step,served]; rfl,tidy⟩
  | releaseSpanToPageCache span =>
    obtain ⟨q,released,tidy,_⟩ := tidy.release admitted
    exact ⟨_,by rw [step,released]; rfl,tidy⟩

theorem Tidy.returned (tidy : Tidy s) (user : h ∈ s.handed) (large : 128 < (s.cache.spans h).nPages) :
    ∃ next, step s (.releaseSpanToPageCache h) = some next ∧ Returned s h next := by
  obtain ⟨area,kept⟩ := tidy.kept
  obtain ⟨q,released,_,_,blank,given,freed⟩ := release_large kept user large
  refine ⟨_,by rw [step,released]; rfl,fun page under => ?_,given,freed⟩
  rw [get_of_lt (kept.inside page (.inl user) under)]
  exact blank page under

theorem page_map_exact (operations : List Operation) (admitted : Throughout step Admitted {} operations) :
    ∃ s, run step {} operations = some s ∧ Sound s ∧ ∀ h ∈ s.handed, 128 < (s.cache.spans h).nPages →
      ∃ next, step s (.releaseSpanToPageCache h) = some next ∧ Returned s h next := by
  obtain ⟨s,ran,tidy⟩ := run_succeeds (fun s operation => step_tidy) tidy_start admitted
  exact ⟨s,ran,tidy.sound,fun h => tidy.returned⟩

-- A split, the reuse of the rest, a region of its own, and two releases that
-- merge the first two spans into 128 pages again.
theorem page_map_exact_merge : ∃ s, run step {} [.newSpan 126 16,.newSpan 2 200,.newSpan 200 400,
    .releaseSpanToPageCache 1,.releaseSpanToPageCache 0] = some s ∧ Sound s ∧ ∀ h ∈ s.handed,
      128 < (s.cache.spans h).nPages → ∃ next, step s (.releaseSpanToPageCache h) = some next ∧ Returned s h next :=
  page_map_exact [.newSpan 126 16,.newSpan 2 200,.newSpan 200 400,.releaseSpanToPageCache 1,
    .releaseSpanToPageCache 0] (by decide +kernel)

end Ledger
end LinuxOS.Concurrent
