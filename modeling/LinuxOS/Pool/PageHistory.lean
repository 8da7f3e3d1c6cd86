import LinuxOS.Machine
import LinuxOS.Pool.PageCache

namespace LinuxOS.Pool
open Machine
open Pages Pages.PageCache

-- The page cache with the spans that it has handed out and not got back.
structure Ledger where
  cache : PageCache := {}
  handed : List Nat := []

inductive Operation where
  | getNewSpan (pageNum page : Nat)
  | releaseSpanToPageCache (span : Nat)

namespace Ledger
variable {s next : Ledger} {operation : Operation} {h : Nat}

def step (s : Ledger) : Operation → Option Ledger
  | .getNewSpan pageNum page => (getNewSpan s.cache pageNum [page]).map fun result =>
      {cache := result.1, handed := result.2 :: s.handed}
  | .releaseSpanToPageCache span => (releaseSpanToPageCache s.cache span).map fun cache =>
      {cache, handed := s.handed.erase span}

def Admitted (s : Ledger) : Operation → Prop
  | .getNewSpan pageNum page => 1 ≤ pageNum ∧ pageNum ≤ 128 ∧ s.cache.Fresh page 128
  | .releaseSpanToPageCache span => span ∈ s.handed

instance : ∀ (s : Ledger) (operation : Operation), Decidable (Admitted s operation)
  | s,.getNewSpan pageNum page => inferInstanceAs (Decidable (1 ≤ pageNum ∧ pageNum ≤ 128 ∧ s.cache.Fresh page 128))
  | s,.releaseSpanToPageCache span => inferInstanceAs (Decidable (span ∈ s.handed))

def Used (s : Ledger) (h : Nat) : Prop := h ∈ s.handed
def Free (s : Ledger) (h : Nat) : Prop := s.cache.Filed h

structure Sound (s : Ledger) : Prop where
  disjoint : ∀ h k page, s.Used h ∨ s.Free h → s.Used k ∨ s.Free k → page ∈ s.cache.extent h →
    page ∈ s.cache.extent k → h = k
  covered : ∀ page, s.cache.Mapped page ↔ ∃ h, (s.Used h ∨ s.Free h) ∧ page ∈ s.cache.extent h
  free : ∀ h, s.Free h → (s.cache.spans h).isUsed = false ∧ 1 ≤ (s.cache.spans h).nPages ∧
    (s.cache.spans h).nPages ≤ 128 ∧ ∀ n, h ∈ s.cache.spanLists n ↔ n = (s.cache.spans h).nPages
  once : ∀ n, (s.cache.spanLists n).Nodup
  used : ∀ h, s.Used h → (s.cache.spans h).isUsed = true ∧ ∀ n, h ∉ s.cache.spanLists n
  distinct : s.handed.Nodup
  usedEntry : ∀ h page, s.Used h → page ∈ s.cache.extent h → s.cache.get page = some h
  freeEntry : ∀ h page, s.Free h → s.cache.AtEnd h page → s.cache.get page = some h
  nullEntry : ∀ page, (∀ h, s.Used h → page ∉ s.cache.extent h) →
    (∀ h, s.Free h → ¬s.cache.AtEnd h page) → s.cache.get page = none

structure Tidy (s : Ledger) : Prop where
  kept : Kept s.cache {h | h ∈ s.handed} ∅ {page | s.cache.Mapped page}
  small : ∀ h ∈ s.handed, (s.cache.spans h).nPages < nPageList
  idle : ∀ h ∈ s.handed, (s.cache.spans h).useCount = 0
  distinct : s.handed.Nodup

theorem tidy_start : Tidy {} := by
  have nobody : ({h | h ∈ ([] : List Nat)} : Set Nat) = ∅ := by
    ext h; simp
  refine ⟨?_,by simp,by simp,.nil⟩
  rw [nobody,floor_start]; exact kept_start

theorem Tidy.sound (tidy : Tidy s) : Sound s := by
  have kept := tidy.kept
  have owns : ∀ h, s.Used h ∨ s.Free h → h ∈ s.cache.owned {h | h ∈ s.handed} ∅ := fun h role =>
    role.imp_right .inl
  refine ⟨?_,?_,?_,kept.nodup,?_,tidy.distinct,fun h page => kept.toLayout.entry_held,
    fun h page => kept.toLayout.entry_filed,fun page => kept.toLayout.entry_none⟩
  · intro h k page role role' under under'
    exact kept.alone page (owns h role) (owns k role') under under'
  · intro page
    refine (kept.tiles.cover page).trans (exists_congr fun h => and_congr_left fun _ => ?_)
    constructor
    · rintro (user | found | none')
      · exact .inl user
      · exact .inr found
      · cases none'
    · exact owns h
  · rintro h ⟨n,found⟩
    exact kept.toLayout.free found
  · intro h user
    exact ⟨kept.used h user,fun n found => (kept.parted h ⟨n,found⟩).1 user⟩

theorem Tidy.request {pageNum page : Nat} (tidy : Tidy s) (positive : 1 ≤ pageNum) (small : pageNum < nPageList)
    (backed : asks s.cache pageNum = true → s.cache.Fresh page (nPageList - 1)) :
    ∃ q h, getNewSpan s.cache pageNum [page] = some (q,h) ∧ Tidy {cache := q, handed := h :: s.handed} ∧
      Given s.cache q {h | h ∈ s.handed} {low | q.Mapped low} pageNum h := by
  obtain ⟨q,h,served,given⟩ := getNewSpan_given tidy.kept positive small backed
  refine ⟨q,h,served,⟨?_,?_,?_,?_⟩,given⟩
  · rw [List.setOfPred_mem_cons]; exact given.kept
  · intro k found
    rcases List.mem_cons.mp found with rfl | old
    · rw [given.size]; exact small
    · rw [given.frame k old]; exact tidy.small k old
  · intro k found
    rcases List.mem_cons.mp found with rfl | old
    · exact given.idle
    · rw [given.frame k old]; exact tidy.idle k old
  · exact List.nodup_cons.mpr ⟨given.absent,tidy.distinct⟩

theorem Tidy.release (tidy : Tidy s) (user : h ∈ s.handed) :
    ∃ q, releaseSpanToPageCache s.cache h = some q ∧ Tidy {cache := q, handed := s.handed.erase h} ∧
      (∀ k ∈ s.handed, k ≠ h → q.spans k = s.cache.spans k) ∧ q.system = s.cache.system := by
  obtain ⟨q,released,kept,same,system⟩ := release_kept tidy.kept user (tidy.small h user) (tidy.idle h user)
  refine ⟨q,released,⟨?_,?_,?_,tidy.distinct.erase h⟩,same,system⟩
  · rw [setOf_erase tidy.distinct,floor_same system]; exact kept
  · intro k found
    obtain ⟨other,old⟩ := tidy.distinct.mem_erase_iff.mp found
    rw [same k old other]; exact tidy.small k old
  · intro k found
    obtain ⟨other,old⟩ := tidy.distinct.mem_erase_iff.mp found
    rw [same k old other]; exact tidy.idle k old

theorem step_tidy (tidy : Tidy s) (admitted : Admitted s operation) :
    ∃ next, step s operation = some next ∧ Tidy next := by
  cases operation with
  | getNewSpan pageNum page =>
    obtain ⟨positive,small,fresh⟩ := admitted
    obtain ⟨q,h,served,tidy,_⟩ := tidy.request positive (Nat.lt_succ_of_le small) fun _ => fresh
    exact ⟨_,by rw [step,served]; rfl,tidy⟩
  | releaseSpanToPageCache span =>
    obtain ⟨q,released,tidy,_⟩ := tidy.release admitted
    exact ⟨_,by rw [step,released]; rfl,tidy⟩

theorem page_cache_sound (operations : List Operation) (admitted : Throughout step Admitted {} operations) :
    ∃ s, run step {} operations = some s ∧ Sound s := by
  obtain ⟨s,ran,tidy⟩ := run_succeeds (fun s operation => step_tidy) tidy_start admitted
  exact ⟨s,ran,tidy.sound⟩

theorem page_cache_sound_merge : ∃ s, run step {} [.getNewSpan 126 16,.getNewSpan 2 200,.releaseSpanToPageCache 1,
    .releaseSpanToPageCache 0] = some s ∧ Sound s :=
  page_cache_sound [.getNewSpan 126 16,.getNewSpan 2 200,.releaseSpanToPageCache 1,.releaseSpanToPageCache 0]
    (by decide +kernel)

end Ledger
end LinuxOS.Pool
