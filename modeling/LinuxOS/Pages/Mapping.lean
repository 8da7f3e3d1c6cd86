import LinuxOS.Machine
import LinuxOS.Tiles
import LinuxOS.Pages.Layout

namespace LinuxOS.Pages
open Function (update)
open Machine Ranges
open PageCache

-- A page cache over byte addresses. `request` gets the page numbers that the answers of
-- mmap shift to; `asks` is whether it needs one, for `bought` pages. A span of so many
-- pages that it is `alone` has a region of its own, which `release` gives to SystemFree.
structure SpanDesign where
  admits : Nat → Bool
  request : PageCache → Nat → List Nat → Option (PageCache × Nat)
  release : PageCache → Nat → Option PageCache
  asks : PageCache → Nat → Bool
  bought : Nat → Nat
  alone : Nat → Bool

def mapping (addr pages : Nat) : Range := ⟨addr,addr + pages <<< 13⟩

def PageCache.bytes (p : PageCache) (h : Nat) : Range :=
  ⟨(p.spans h).id <<< 13,((p.spans h).id + (p.spans h).nPages) <<< 13⟩

-- `held` is what mmap returned and munmap did not take back, `mapped` the mapping that
-- was made for a span alone. For every call of SystemFree `freed` has what was mapped
-- for its span and what is freed.
structure Memory where
  cache : PageCache := {}
  handed : List Nat := []
  held : List Range := []
  mapped : Nat → Option Range := fun _ => none
  freed : List (Option Range × Range) := []

-- `addr` is what mmap returns if the request needs it.
inductive MemoryAction where
  | request (pages addr : Nat)
  | release (span : Nat)

namespace Memory
variable (d : SpanDesign) (s : Memory)

-- `if (ptr == nullptr || kpage == 0) return;` and munmap.
def systemFree (span : Nat) : Memory := {s with
  held := if (s.cache.bytes span).first = 0 ∨ (s.cache.spans span).nPages = 0 then s.held
    else cut s.held (s.cache.bytes span)
  freed := (s.mapped span,s.cache.bytes span) :: s.freed}

def step : MemoryAction → Option Memory
  | .request pages addr => (d.request s.cache pages [addr >>> 13]).map fun result => {s with
      cache := result.1
      handed := result.2 :: s.handed
      held := if d.asks s.cache pages then mapping addr (d.bought pages) :: s.held else s.held
      mapped := update s.mapped result.2 (if d.alone pages then some (mapping addr pages) else none)}
  | .release span => (d.release s.cache span).map fun cache =>
      {if d.alone (s.cache.spans span).nPages then s.systemFree span else s with
        cache, handed := s.handed.erase span}

-- All that is known of mmap: a page of 4096 bytes begins at the address, which is not
-- null, and the bytes from there are in the address space and in no mapping.
def Answers (addr pages : Nat) : Prop := addr % 4096 = 0 ∧ 0 < addr ∧ addr + pages <<< 13 ≤ 2^64 ∧
  Apart s.held (mapping addr pages)

def Admitted : MemoryAction → Prop
  | .request pages addr => d.admits pages = true ∧ (d.asks s.cache pages = true → s.Answers addr (d.bought pages))
  | .release span => span ∈ s.handed

def Aligned : MemoryAction → Prop
  | .request pages addr => d.asks s.cache pages = true → addr % 8192 = 0
  | .release _ => True

instance (addr pages : Nat) : Decidable (s.Answers addr pages) := inferInstanceAs (Decidable (_ ∧ _ ∧ _ ∧ _))

instance : DecidablePred (s.Admitted d)
  | .request pages _ => inferInstanceAs (Decidable (_ ∧ (d.asks s.cache pages = true → _)))
  | .release span => inferInstanceAs (Decidable (span ∈ s.handed))

instance : DecidablePred (s.Aligned d)
  | .request pages _ => inferInstanceAs (Decidable (d.asks s.cache pages = true → _))
  | .release _ => .isTrue trivial

structure Covered : Prop where
  spans : ∀ h ∈ s.handed, ∀ a, (s.cache.bytes h).Has a → Holds s.held a
  frees : ∀ call ∈ s.freed, call.1 = some call.2

end Memory

structure SpanLaws (d : SpanDesign) (Good : PageCache → List Nat → Prop) : Prop where
  start : Good {} []
  buys : ∀ {n}, d.admits n = true → 1 ≤ d.bought n
  alone : ∀ {p n}, d.alone n = true → d.asks p n = true ∧ d.bought n = n
  request : ∀ {p handed n page}, Good p handed → d.admits n = true →
    (d.asks p n = true → 0 < page ∧ p.Fresh page (d.bought n)) →
    ∃ q h, d.request p n [page] = some (q,h) ∧ Good q (h :: handed) ∧ h ∉ handed ∧ (q.spans h).nPages = n ∧
      (d.alone n = true → (q.spans h).id = page) ∧ (∀ k ∈ handed, q.spans k = p.spans k) ∧
      q.system = if d.asks p n then (page,d.bought n) :: p.system else p.system
  release : ∀ {p handed h}, Good p handed → h ∈ handed →
    ∃ q, d.release p h = some q ∧ Good q (handed.erase h) ∧ (∀ k ∈ handed, k ≠ h → q.spans k = p.spans k) ∧
      q.system = if d.alone (p.spans h).nPages then p.system.erase ((p.spans h).id,(p.spans h).nPages) else p.system
  inside : ∀ {p handed h page}, Good p handed → h ∈ handed → page ∈ p.extent h → p.Mapped page
  whole : ∀ {p handed h}, Good p handed → h ∈ handed → d.alone (p.spans h).nPages = true →
    0 < (p.spans h).id ∧ 1 ≤ (p.spans h).nPages ∧ ((p.spans h).id,(p.spans h).nPages) ∈ p.system
  distinct : ∀ {p handed}, Good p handed → handed.Nodup

namespace Memory
variable {d : SpanDesign} {Good : PageCache → List Nat → Prop} {s next : Memory} {action : MemoryAction}
variable {actions : List MemoryAction} {h a addr pages : Nat} {region other : Nat × Nat}

def Disjoint (region other : Nat × Nat) : Prop := region.1 + region.2 ≤ other.1 ∨ other.1 + other.2 ≤ region.1

theorem disjoint_symm (apart : Disjoint region other) : Disjoint other region := apart.symm

structure Backed (d : SpanDesign) (Good : PageCache → List Nat → Prop) (s : Memory) : Prop where
  good : Good s.cache s.handed
  sized : ∀ region ∈ s.cache.system, 1 ≤ region.2
  apart : s.cache.system.Pairwise Disjoint
  bytes : ∀ region ∈ s.cache.system, ∀ a, region.1 <<< 13 ≤ a → a < (region.1 + region.2) <<< 13 → Holds s.held a
  mapped : ∀ h ∈ s.handed, d.alone (s.cache.spans h).nPages = true → s.mapped h = some (s.cache.bytes h)
  frees : ∀ call ∈ s.freed, call.1 = some call.2

theorem backed_start (laws : SpanLaws d Good) : Backed d Good {} :=
  ⟨laws.start,by simp,.nil,by simp,by simp,by simp⟩

theorem Backed.covered (laws : SpanLaws d Good) (backed : Backed d Good s) : Covered s := by
  refine ⟨fun h user a inside => ?_,backed.frees⟩
  obtain ⟨low,high⟩ := inside
  simp only [PageCache.bytes] at low high
  have page : a >>> 13 ∈ s.cache.extent h := by rw [in_extent]; omega
  obtain ⟨region,given,below,above⟩ := laws.inside backed.good user page
  exact backed.bytes region given a (by omega) (by omega)

theorem Backed.fresh (backed : Backed d Good s) (answers : s.Answers addr pages) (some' : 1 ≤ pages) :
    s.cache.Fresh (addr >>> 13) pages := by
  obtain ⟨_,_,room,apart⟩ := answers
  refine ⟨by rw [pageLimit]; omega,fun region given => ?_⟩
  by_contra meets
  have sized := backed.sized region given
  have held := backed.bytes region given (max addr (region.1 <<< 13)) (by omega) (by omega)
  refine apart.clear held ?_
  simp only [Range.Has,mapping]
  omega

theorem request_backed (laws : SpanLaws d Good) (backed : Backed d Good s) (admitted : Admitted d s (.request pages addr))
    (aligned : Aligned d s (.request pages addr)) :
    ∃ next, step d s (.request pages addr) = some next ∧ Backed d Good next := by
  obtain ⟨admits,answers⟩ := admitted
  have buys := laws.buys admits
  have granted : d.asks s.cache pages = true → 0 < addr >>> 13 ∧ s.cache.Fresh (addr >>> 13) (d.bought pages) := by
    intro asked
    have real := (answers asked).2.1
    have whole := aligned asked
    exact ⟨by omega,backed.fresh (answers asked) buys⟩
  obtain ⟨q,h,served,good,absent,size,place,frame,system⟩ := laws.request backed.good admits granted
  have mapped : ∀ k ∈ h :: s.handed, d.alone (q.spans k).nPages = true →
      update s.mapped h (if d.alone pages then some (mapping addr pages) else none) k = some (q.bytes k) := by
    intro k found own
    rcases List.mem_cons.mp found with rfl | old
    · have own : d.alone pages = true := by rw [← size]; exact own
      have begins := aligned (laws.alone own).1
      have first : (addr >>> 13) <<< 13 = addr := by omega
      have last : (addr >>> 13 + pages) <<< 13 = addr + pages <<< 13 := by omega
      rw [Function.update_self,if_pos own,PageCache.bytes,place own,size,mapping,first,last]
    · have other : k ≠ h := ne_of_mem_of_not_mem old absent
      have same : q.bytes k = s.cache.bytes k := by rw [PageCache.bytes,frame k old]; rfl
      rw [Function.update_of_ne other,same]
      exact backed.mapped k old (by rw [← frame k old]; exact own)
  have sized : ∀ region ∈ q.system, 1 ≤ region.2 := by
    rw [system]
    split
    · exact List.forall_mem_cons.mpr ⟨buys,backed.sized⟩
    · exact backed.sized
  have apart : q.system.Pairwise Disjoint := by
    rw [system]
    split
    · rename_i asked
      exact List.pairwise_cons.mpr ⟨(backed.fresh (answers asked) buys).2,backed.apart⟩
    · exact backed.apart
  have bytes : ∀ region ∈ q.system, ∀ a, region.1 <<< 13 ≤ a → a < (region.1 + region.2) <<< 13 →
      Holds (if d.asks s.cache pages = true then mapping addr (d.bought pages) :: s.held else s.held) a := by
    rw [system]
    split
    · rename_i asked
      have start : (addr >>> 13) <<< 13 = addr := by
        have := aligned asked
        omega
      refine List.forall_mem_cons.mpr ⟨fun a low high => holds_cons.mpr (.inl ?_),fun region given a low high =>
        holds_cons.mpr (.inr (backed.bytes region given a low high))⟩
      simp only [Range.Has,mapping]
      omega
    · exact backed.bytes
  refine ⟨_,by rw [step,served]; rfl,good,sized,apart,?_,?_,?_⟩
  · exact bytes
  · exact mapped
  · exact backed.frees

theorem release_backed (laws : SpanLaws d Good) (backed : Backed d Good s) (user : h ∈ s.handed) :
    ∃ next, step d s (.release h) = some next ∧ Backed d Good next := by
  obtain ⟨q,released,good,frame,system⟩ := laws.release backed.good user
  have members : ∀ k, k ∈ s.handed.erase h ↔ k ≠ h ∧ k ∈ s.handed := fun k => (laws.distinct backed.good).mem_erase_iff
  have others : ∀ k ∈ s.handed.erase h, d.alone (q.spans k).nPages = true → s.mapped k = some (q.bytes k) := by
    intro k found own
    obtain ⟨other,old⟩ := (members k).mp found
    have same : q.bytes k = s.cache.bytes k := by rw [PageCache.bytes,frame k old other]; rfl
    rw [same]
    exact backed.mapped k old (by rw [← frame k old other]; exact own)
  by_cases own : d.alone (s.cache.spans h).nPages = true
  · -- the region of the span is one of those of the page cache, and no other meets it
    rw [if_pos own] at system
    obtain ⟨real,sized,given⟩ := laws.whole backed.good user own
    have still : ∀ region ∈ q.system, region ∈ s.cache.system := fun region found =>
      List.mem_of_mem_erase (by rwa [system] at found)
    have clear := ((List.perm_cons_erase given).pairwise_iff disjoint_symm).mp backed.apart
    rw [← system,List.pairwise_cons] at clear
    have unmaps : ¬((s.cache.bytes h).first = 0 ∨ (s.cache.spans h).nPages = 0) := by
      simp only [PageCache.bytes]
      omega
    have kept : ∀ region ∈ q.system, ∀ a, region.1 <<< 13 ≤ a → a < (region.1 + region.2) <<< 13 →
        Holds (s.systemFree h).held a := by
      intro region found a low high
      have apart := clear.1 region found
      rw [systemFree,if_neg unmaps,holds_cut]
      refine ⟨backed.bytes region (still region found) a low high,?_⟩
      simp only [Range.Has,PageCache.bytes,Disjoint] at apart ⊢
      omega
    refine ⟨{s.systemFree h with cache := q, handed := s.handed.erase h},by rw [step,released,if_pos own]; rfl,?_⟩
    refine ⟨good,fun region found => backed.sized region (still region found),clear.2,?_,others,
      List.forall_mem_cons.mpr ⟨backed.mapped h user own,backed.frees⟩⟩
    dsimp only
    exact kept
  · rw [if_neg own] at system
    refine ⟨_,by rw [step,released,if_neg own]; rfl,⟨good,?_,?_,?_,others,?_⟩⟩
    · change ∀ region ∈ q.system, _
      rw [system]; exact backed.sized
    · change q.system.Pairwise Disjoint
      rw [system]; exact backed.apart
    · change ∀ region ∈ q.system, _
      rw [system]; exact backed.bytes
    · exact backed.frees

theorem step_backed (laws : SpanLaws d Good) (backed : Backed d Good s)
    (guarded : Admitted d s action ∧ Aligned d s action) : ∃ next, step d s action = some next ∧ Backed d Good next := by
  cases action with
  | request pages addr => exact request_backed laws backed guarded.1 guarded.2
  | release span => exact release_backed laws backed guarded.1

theorem run_covered (laws : SpanLaws d Good)
    (admitted : Throughout (step d) (fun s action => Admitted d s action ∧ Aligned d s action) {} actions) :
    ∃ s, run (step d) {} actions = some s ∧ Covered s := by
  obtain ⟨s,ran,backed⟩ := run_succeeds (fun s action => step_backed laws) (backed_start laws) admitted
  exact ⟨s,ran,backed.covered laws⟩

end Memory
end LinuxOS.Pages
