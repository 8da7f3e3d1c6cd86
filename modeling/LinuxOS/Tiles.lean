import Mathlib.Data.List.Basic
import Mathlib.Data.Set.Insert
import Mathlib.Algebra.GroupWithZero.Nat

namespace LinuxOS.Tiles
variable {Tile Cell : Type*} {extent after : Tile → Set Cell} {owned : Set Tile} {floor : Set Cell}
variable {tile whole piece kept gone : Tile}

-- The owned tiles lay the floor exactly: every cell of it lies under one tile,
-- and no tile reaches outside.
structure Lays (extent : Tile → Set Cell) (owned : Set Tile) (floor : Set Cell) : Prop where
  alone : ∀ h ∈ owned, ∀ k ∈ owned, ∀ cell, cell ∈ extent h → cell ∈ extent k → h = k
  cover : ∀ cell, cell ∈ floor ↔ ∃ h ∈ owned, cell ∈ extent h

theorem lays_nothing : Lays extent ∅ ∅ := ⟨by simp,by simp⟩

theorem Lays.inside (laid : Lays extent owned floor) (member : tile ∈ owned) {cell : Cell}
    (under : cell ∈ extent tile) : cell ∈ floor := (laid.cover cell).mpr ⟨tile,member,under⟩

theorem Lays.same (laid : Lays extent owned floor) (agree : ∀ h ∈ owned, after h = extent h) :
    Lays after owned floor := by
  constructor
  · intro h owns k owns' cell under under'
    rw [agree h owns] at under
    rw [agree k owns'] at under'
    exact laid.alone h owns k owns' cell under under'
  · intro cell
    rw [laid.cover cell]
    apply exists_congr
    intro h
    constructor <;> rintro ⟨owns,under⟩
    · exact ⟨owns,by rwa [agree h owns]⟩
    · exact ⟨owns,by rwa [← agree h owns]⟩

theorem Lays.add (laid : Lays extent owned floor) (agree : ∀ h ∈ owned, after h = extent h)
    (clear : ∀ cell ∈ after tile, cell ∉ floor) :
    Lays after (insert tile owned) (floor ∪ after tile) := by
  have kept : Lays after owned floor := laid.same agree
  constructor
  · rintro h (rfl | owns) k (rfl | owns') cell under under'
    · rfl
    · exact absurd (kept.inside owns' under') (clear cell under)
    · exact absurd (kept.inside owns under) (clear cell under')
    · exact kept.alone h owns k owns' cell under under'
  · intro cell
    constructor
    · rintro (found | under)
      · obtain ⟨h,owns,under⟩ := (kept.cover cell).mp found
        exact ⟨h,.inr owns,under⟩
      · exact ⟨tile,.inl rfl,under⟩
    · rintro ⟨h,rfl | owns,under⟩
      · exact .inr under
      · exact .inl (kept.inside owns under)

theorem Lays.remove (laid : Lays extent owned floor) (member : tile ∈ owned) :
    Lays extent (owned \ {tile}) (floor \ extent tile) := by
  constructor
  · intro h owns k owns' cell under under'
    exact laid.alone h owns.1 k owns'.1 cell under under'
  · intro cell
    constructor
    · rintro ⟨found,outside⟩
      obtain ⟨h,owns,under⟩ := (laid.cover cell).mp found
      refine ⟨h,⟨owns,?_⟩,under⟩
      rintro rfl
      exact outside under
    · rintro ⟨h,⟨owns,other⟩,under⟩
      exact ⟨laid.inside owns under,fun same => other (laid.alone h owns tile member cell under same)⟩

theorem Lays.split (laid : Lays extent owned floor) (member : whole ∈ owned) (absent : piece ∉ owned)
    (agree : ∀ h ∈ owned, h ≠ whole → after h = extent h)
    (union : after whole ∪ after piece = extent whole)
    (disjoint : ∀ cell ∈ after whole, cell ∉ after piece) : Lays after (insert piece owned) floor := by
  -- every tile of the new family lies under the old tile it came from
  have origin : ∀ h ∈ insert piece owned, ∀ cell ∈ after h, ∃ k ∈ owned, cell ∈ extent k ∧
      (k = h ∨ k = whole ∧ h = piece) := by
    rintro h (rfl | owns) cell under
    · exact ⟨whole,member,by rw [← union]; exact .inr under,.inr ⟨rfl,rfl⟩⟩
    · by_cases same : h = whole
      · subst h; exact ⟨whole,member,by rw [← union]; exact .inl under,.inl rfl⟩
      · exact ⟨h,owns,by rwa [← agree h owns same],.inl rfl⟩
  constructor
  · intro h owns k owns' cell under under'
    obtain ⟨old,member,found,from'⟩ := origin h owns cell under
    obtain ⟨old',member',found',from''⟩ := origin k owns' cell under'
    obtain rfl := laid.alone old member old' member' cell found found'
    rcases from' with rfl | ⟨rfl,rfl⟩ <;> rcases from'' with same | ⟨same,from''⟩
    · exact same
    · subst k; subst same; exact absurd under' (disjoint cell under)
    · subst k; exact absurd under (disjoint cell under')
    · exact from''.symm
  · intro cell
    constructor
    · intro found
      obtain ⟨h,owns,under⟩ := (laid.cover cell).mp found
      by_cases same : h = whole
      · subst h
        rw [← union] at under
        rcases under with under | under
        · exact ⟨whole,.inr owns,under⟩
        · exact ⟨piece,.inl rfl,under⟩
      · exact ⟨h,.inr owns,by rwa [agree h owns same]⟩
    · rintro ⟨h,owns,under⟩
      obtain ⟨k,member,found,_⟩ := origin h owns cell under
      exact laid.inside member found

theorem Lays.merge (laid : Lays extent owned floor) (member : kept ∈ owned) (member' : gone ∈ owned)
    (other : kept ≠ gone) (agree : ∀ h ∈ owned, h ≠ kept → h ≠ gone → after h = extent h)
    (union : after kept = extent kept ∪ extent gone) : Lays after (owned \ {gone}) floor := by
  have origin : ∀ h ∈ owned \ {gone}, ∀ cell ∈ after h, ∃ k ∈ owned, cell ∈ extent k ∧
      (k = h ∨ k = gone ∧ h = kept) := by
    rintro h ⟨owns,alive⟩ cell under
    by_cases same : h = kept
    · subst h
      rw [union] at under
      rcases under with under | under
      · exact ⟨kept,member,under,.inl rfl⟩
      · exact ⟨gone,member',under,.inr ⟨rfl,rfl⟩⟩
    · exact ⟨h,owns,by rwa [← agree h owns same alive],.inl rfl⟩
  constructor
  · intro h owns k owns' cell under under'
    obtain ⟨old,found,at',from'⟩ := origin h owns cell under
    obtain ⟨old',found',at'',from''⟩ := origin k owns' cell under'
    obtain rfl := laid.alone old found old' found' cell at' at''
    rcases from' with rfl | ⟨rfl,rfl⟩ <;> rcases from'' with same | ⟨same,from''⟩
    · exact same
    · exact absurd same owns.2
    · subst k; exact absurd rfl owns'.2
    · exact from''.symm
  · intro cell
    constructor
    · intro found
      obtain ⟨h,owns,under⟩ := (laid.cover cell).mp found
      by_cases same : h = gone
      · subst h; exact ⟨kept,⟨member,other⟩,by rw [union]; exact .inr under⟩
      · by_cases main : h = kept
        · subst h; exact ⟨kept,⟨member,other⟩,by rw [union]; exact .inl under⟩
        · exact ⟨h,⟨owns,same⟩,by rwa [agree h owns main same]⟩
    · rintro ⟨h,owns,under⟩
      obtain ⟨k,found,at',_⟩ := origin h owns cell under
      exact laid.inside found at'

def Abut (first size : Tile → Nat) : Nat → List Tile → Nat → Prop
  | start,[],stop => start = stop
  | start,tile :: rest,stop => first tile = start ∧ Abut first size (start + size tile) rest stop

theorem abut_append {first size : Tile → Nat} {front back : List Tile} {start stop : Nat} :
    Abut first size start (front ++ back) stop ↔
      ∃ middle, Abut first size start front middle ∧ Abut first size middle back stop := by
  induction front generalizing start with
  | nil => simp [Abut]
  | cons tile rest ih => simp [Abut,ih,and_assoc]

theorem Abut.total {first size : Tile → Nat} {tiles : List Tile} {start stop : Nat}
    (abut : Abut first size start tiles stop) : start + (tiles.map size).sum = stop := by
  induction tiles generalizing start with
  | nil => simpa [Abut] using abut
  | cons tile rest ih =>
    have after := ih abut.2
    rw [List.map_cons,List.sum_cons]
    omega

end LinuxOS.Tiles

namespace LinuxOS.Ranges

structure Range where
  first : Nat
  stop : Nat
  deriving DecidableEq

variable {ranges : List Range} {range gone : Range} {a : Nat}

def Range.Has (range : Range) (a : Nat) : Prop := range.first ≤ a ∧ a < range.stop

def Holds (ranges : List Range) (a : Nat) : Prop := ∃ range ∈ ranges, range.Has a

def Apart (ranges : List Range) (range : Range) : Prop :=
  ∀ other ∈ ranges, other.stop ≤ range.first ∨ range.stop ≤ other.first

instance : Decidable (range.Has a) := inferInstanceAs (Decidable (_ ∧ _))
instance : Decidable (Holds ranges a) := inferInstanceAs (Decidable (∃ range ∈ ranges, range.Has a))
instance : Decidable (Apart ranges range) := inferInstanceAs (Decidable (∀ other ∈ ranges, _))

def Range.less (range gone : Range) : List Range :=
  [⟨range.first,min range.stop gone.first⟩,⟨max range.first gone.stop,range.stop⟩].filter fun piece =>
    piece.first < piece.stop

def cut (ranges : List Range) (gone : Range) : List Range := ranges.flatMap (·.less gone)

@[simp] theorem holds_nil : ¬Holds [] a := by simp [Holds]

@[simp] theorem holds_cons : Holds (range :: ranges) a ↔ range.Has a ∨ Holds ranges a := by simp [Holds]

theorem holds_less : Holds (range.less gone) a ↔ range.Has a ∧ ¬gone.Has a := by
  simp only [Holds,Range.less,List.mem_filter,List.mem_cons,List.not_mem_nil,or_false,decide_eq_true_eq,Range.Has]
  constructor
  · rintro ⟨piece,⟨rfl | rfl,_⟩,inside⟩ <;> simp only at inside <;> omega
  · intro inside
    by_cases before : a < gone.first
    · exact ⟨_,⟨.inl rfl,by simp only; omega⟩,by simp only; omega⟩
    · exact ⟨_,⟨.inr rfl,by simp only; omega⟩,by simp only; omega⟩

theorem holds_cut : Holds (cut ranges gone) a ↔ Holds ranges a ∧ ¬gone.Has a := by
  constructor
  · rintro ⟨piece,found,inside⟩
    obtain ⟨range,member,part⟩ := List.mem_flatMap.mp found
    obtain ⟨whole,outside⟩ := holds_less.mp ⟨piece,part,inside⟩
    exact ⟨⟨range,member,whole⟩,outside⟩
  · rintro ⟨⟨range,member,whole⟩,outside⟩
    obtain ⟨piece,part,inside⟩ := holds_less.mpr ⟨whole,outside⟩
    exact ⟨piece,List.mem_flatMap.mpr ⟨range,member,part⟩,inside⟩

theorem Apart.clear (apart : Apart ranges range) (held : Holds ranges a) : ¬range.Has a := by
  rintro ⟨low,high⟩
  obtain ⟨other,member,inside⟩ := held
  rw [Range.Has] at inside
  have := apart other member
  omega

end LinuxOS.Ranges
