import LinuxOS.Tiles
import LinuxOS.Pages.Cache

namespace LinuxOS.Pages
open Function (update)
open Tiles (Lays)
variable {p q : PageCache} {held loose area : Set Nat} {h s n page : Nat} {tree : Nat → Option Nat}

namespace PageCache

def extent (p : PageCache) (h : Nat) : Set Nat := (p.spans h).extent

@[simp] theorem in_extent : page ∈ p.extent h ↔
    (p.spans h).id ≤ page ∧ page < (p.spans h).id + (p.spans h).nPages := Iff.rfl

def AtEnd (p : PageCache) (h page : Nat) : Prop :=
  page = (p.spans h).id ∨ page + 1 = (p.spans h).id + (p.spans h).nPages

def Allocated (p : PageCache) (h : Nat) : Prop := h < p.objects ∧ h ∉ p.freeObjects

-- A span is with its user (`held`), in a list of the page cache, or in the hands
-- of the operation that is under way (`loose`).
def owned (p : PageCache) (held loose : Set Nat) : Set Nat := {h | h ∈ held ∨ p.Filed h ∨ h ∈ loose}

end PageCache
open PageCache

-- The page cache between any two primitive writes. Loose spans have their pages
-- to themselves, and the map is free to say anything about those pages.
structure Layout (p : PageCache) (held loose area : Set Nat) : Prop where
  tiles : Lays p.extent (p.owned held loose) area
  sized : ∀ h ∈ p.owned held loose, 1 ≤ (p.spans h).nPages
  object : ∀ h ∈ p.owned held loose, p.Allocated h
  filed : ∀ n, ∀ h ∈ p.spanLists n, (p.spans h).nPages = n ∧ n < nPageList ∧ (p.spans h).isUsed = false
  nodup : ∀ n, (p.spanLists n).Nodup
  parted : ∀ h, p.Filed h → h ∉ held ∧ h ∉ loose
  aside : ∀ h ∈ held, h ∉ loose
  bound : ∀ page ∈ area, page < pageLimit
  taken : ∀ h ∈ held, ∀ page ∈ p.extent h, p.radixTree page = some h
  ends : ∀ h, p.Filed h → ∀ page ∈ p.extent h, p.AtEnd h page → p.radixTree page = some h
  hollow : ∀ h, p.Filed h → ∀ page ∈ p.extent h, ¬p.AtEnd h page → p.radixTree page = none
  outside : ∀ page ∉ area, p.radixTree page = none
  spare : ∀ h ∈ p.freeObjects, h < p.objects
  distinct : p.freeObjects.Nodup

theorem layout_start : Layout {} ∅ ∅ ∅ := by
  have nothing : owned {} ∅ ∅ = ∅ := by ext h; simp [owned,Filed]
  constructor <;> simp [nothing,Tiles.lays_nothing,Filed]

theorem Layout.alone (layout : Layout p held loose area) (page : Nat) (owns : h ∈ p.owned held loose)
    (owns' : s ∈ p.owned held loose) (under : page ∈ p.extent h) (under' : page ∈ p.extent s) : h = s :=
  layout.tiles.alone h owns s owns' page under under'

theorem Layout.inside (layout : Layout p held loose area) (page : Nat) (owns : h ∈ p.owned held loose)
    (under : page ∈ p.extent h) : page < pageLimit := layout.bound page (layout.tiles.inside owns under)

theorem Layout.fits (layout : Layout p held loose area) (owns : h ∈ p.owned held loose) :
    (p.spans h).id + (p.spans h).nPages ≤ pageLimit := by
  have size := layout.sized h owns
  have last := layout.inside ((p.spans h).id + (p.spans h).nPages - 1) owns (by
    rw [in_extent]; omega)
  omega

theorem Layout.listed (layout : Layout p held loose area) (found : h ∈ p.spanLists n) :
    ∀ m, h ∈ p.spanLists m ↔ m = n := by
  intro m
  constructor
  · intro other
    rw [← (layout.filed m h other).1,(layout.filed n h found).1]
  · rintro rfl; exact found

theorem Layout.free (layout : Layout p held loose area) (found : h ∈ p.spanLists n) :
    (p.spans h).isUsed = false ∧ 1 ≤ (p.spans h).nPages ∧ (p.spans h).nPages ≤ 128 ∧
      ∀ m, h ∈ p.spanLists m ↔ m = (p.spans h).nPages := by
  obtain ⟨size,below,unused⟩ := layout.filed n h found
  refine ⟨unused,layout.sized h (.inr (.inl ⟨n,found⟩)),?_,fun m => ?_⟩
  · rw [size]; exact Nat.le_of_lt_succ below
  · rw [size]; exact layout.listed found m

-- The map says nothing about a page of a loose span that the layout relies on.
theorem Layout.repaint (layout : Layout p held loose area)
    (agree : ∀ page, (∀ l ∈ loose, page ∉ p.extent l) → tree page = p.radixTree page) :
    Layout {p with radixTree := tree} held loose area := by
  have apart : ∀ h ∈ p.owned held loose, h ∉ loose → ∀ page ∈ p.extent h, tree page = p.radixTree page := by
    intro h owns fixed page under
    apply agree
    intro l member under'
    cases layout.alone page owns (.inr (.inr member)) under under'
    exact fixed member
  refine ⟨layout.tiles,layout.sized,layout.object,layout.filed,layout.nodup,layout.parted,
    layout.aside,layout.bound,?_,?_,?_,?_,layout.spare,layout.distinct⟩
  · intro h user page under
    exact (apart h (.inl user) (layout.aside h user) page under).trans (layout.taken h user page under)
  · intro h filed page under final
    exact (apart h (.inr (.inl filed)) (layout.parted h filed).2 page under).trans
      (layout.ends h filed page under final)
  · intro h filed page under middle
    exact (apart h (.inr (.inl filed)) (layout.parted h filed).2 page under).trans
      (layout.hollow h filed page under middle)
  · intro page beyond
    refine (agree page fun l member under => ?_).trans (layout.outside page beyond)
    exact beyond (layout.tiles.inside (.inr (.inr member)) under)

theorem Layout.paint_loose (layout : Layout p held loose area) (member : s ∈ loose) (start pages : Nat)
    (value : Option Nat) (low : (p.spans s).id ≤ start)
    (high : start + pages ≤ (p.spans s).id + (p.spans s).nPages) :
    Layout (p.paint start pages value) held loose area := by
  apply layout.repaint
  intro page clear
  apply if_neg
  intro range
  refine clear s member ?_
  rw [in_extent]
  omega

theorem Layout.write (layout : Layout p held loose area) (change : Span → Span)
    (id : (change (p.spans h)).id = (p.spans h).id)
    (nPages : (change (p.spans h)).nPages = (p.spans h).nPages)
    (unused : p.Filed h → (change (p.spans h)).isUsed = false) : Layout (p.write h change) held loose area := by
  have idSame : ∀ k, ((p.write h change).spans k).id = (p.spans k).id := by
    intro k
    by_cases same : k = h
    · subst k; rw [write_same,id]
    · rw [write_other change same]
  have pagesSame : ∀ k, ((p.write h change).spans k).nPages = (p.spans k).nPages := by
    intro k
    by_cases same : k = h
    · subst k; rw [write_same,nPages]
    · rw [write_other change same]
  have extent : (p.write h change).extent = p.extent := by
    funext k; ext page; simp only [in_extent,idSame,pagesSame]
  refine ⟨by rw [extent]; exact layout.tiles,?_,layout.object,?_,layout.nodup,layout.parted,layout.aside,
    layout.bound,by rw [extent]; exact layout.taken,?_,?_,layout.outside,layout.spare,layout.distinct⟩
  · intro k owns; rw [pagesSame]; exact layout.sized k owns
  · intro n k found
    obtain ⟨size,below,free⟩ := layout.filed n k found
    refine ⟨by rw [pagesSame]; exact size,below,?_⟩
    by_cases same : k = h
    · subst k; rw [write_same]; exact unused ⟨n,found⟩
    · rw [write_other change same]; exact free
  · intro k filed page under final
    rw [extent] at under
    exact layout.ends k filed page under (by simpa only [AtEnd,idSame,pagesSame] using final)
  · intro k filed page under middle
    rw [extent] at under
    exact layout.hollow k filed page under (by simpa only [AtEnd,idSame,pagesSame] using middle)

end LinuxOS.Pages
