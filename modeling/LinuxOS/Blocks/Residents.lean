import LinuxOS.Blocks.Ownership

namespace LinuxOS.Blocks
open Links Pages Places
variable {d : Design} {Good : PageCache → Set Nat → Prop} {Ready : PageCache → Set Nat → Nat → Prop}
variable {Quiet : Span → Prop} {Admits : Nat → Prop}
variable {s next : Heap} {v : View} {a h t : Nat} {c : Place} {cells : List Nat}
variable {action : Action} {actions : List Action}

-- A span that only this thread can see: its blocks are not linked yet, or the
-- span is on its way back to the page cache.
def Pc.aside : Pc → Option Nat
  | .fresh _ _ h => some h
  | .settled _ _ h => some h
  | .releasing _ h _ => some h
  | .dropping h => some h
  | _ => none

namespace Heap

def Central (s : Heap) (h : Nat) : Prop := h ∈ s.handed ∧ ∀ t, (s.pcs t).aside ≠ some h

def Found (s : Heap) : Place → List Nat → Prop
  | .live,cells => cells = s.live
  | .cached t index,cells => Chain s.mem (s.lists t index).freeList cells
  | .moving t,cells => (s.pcs t).Holds s.mem cells
  | .own h,cells => s.Central h ∧ Chain s.mem (s.spanAt h).freeList cells ∨ ¬s.Central h ∧ cells = []

def Keeps (s : Heap) (c : Place) (a : Nat) : Prop := ∃ cells, s.Found c cells ∧ a ∈ cells

-- Each block of a span in the central cache is in exactly one place, and once;
-- `_use_count` counts those outside of the span; what goes back to the page cache
-- has no block anywhere.
structure Resident (d : Design) (s : Heap) : Prop where
  once : ∀ c, ∃ cells, s.Found c cells ∧ cells.Nodup
  one : ∀ h, s.Central h → ∀ a ∈ d.blocks (s.spanAt h), ∃! c, s.Keeps c a
  origin : ∀ c a, s.Keeps c a → ∃ h, s.Central h ∧ a ∈ d.blocks (s.spanAt h) ∧ a / pageBytes ∈ (s.spanAt h).extent ∧
    s.cache.get (a / pageBytes) = some h ∧ ∀ k, c = .own k → k = h
  count : ∀ h, s.Central h → ∀ cells, s.Found (.own h) cells →
    (s.spanAt h).useCount = ((d.blocks (s.spanAt h)).filter (· ∉ cells)).length
  gone : ∀ t h, (s.pcs t).gives = some h → h ∈ s.handed ∧ ∀ c a, s.Keeps c a → a / pageBytes ∉ (s.spanAt h).extent

theorem gives_aside {pc : Pc} (gives : pc.gives = some h) : pc.aside = some h := by
  cases pc <;> first | exact gives | cases gives

theorem Sound.gives_handed (sound : Sound d Good Quiet s v) (gives : (s.pcs t).gives = some h) : h ∈ s.handed := by
  have known := sound.knows t
  cases at' : s.pcs t with
  | releasing | dropping =>
    rw [at'] at gives
    cases gives
    simp only [Knows,at'] at known
    exact known.1
  | _ =>
    rw [at'] at gives
    cases gives

theorem Sound.circulates (sound : Sound d Good Quiet s v) (central : s.Central h) : (v.stage h).Circulates := by
  obtain ⟨handed,seen⟩ := central
  cases stage : v.stage h with
  | making t =>
    have works := sound.owner h handed t (by rw [stage]; rfl)
    have known := sound.knows t
    cases at' : s.pcs t with
    | carved size num k =>
      rw [at'] at works
      cases works
      simp only [Knows,at'] at known
      rw [stage] at known
      cases known.2.1
    | fresh | settled | releasing | dropping =>
      rw [at'] at works
      cases works
      exact absurd (by rw [at']; rfl) (seen t)
    | _ =>
      rw [at'] at works
      cases works
  | _ => trivial

theorem Sound.central (laws : Laws d Good Ready Quiet Admits) (sound : Sound d Good Quiet s v) (found : a ∈ v.kept c)
    (out : ∀ k, c ≠ .own k) : ∃ h, s.Central h ∧ a ∈ d.blocks (s.spanAt h) ∧ s.cache.get (a / pageBytes) = some h := by
  obtain ⟨h,handed,mapped,moves,block,_⟩ := sound.mapped laws found
  refine ⟨h,⟨handed,fun t aside => ?_⟩,block,mapped⟩
  have known := sound.knows t
  cases at' : s.pcs t with
  | fresh size num k =>
    rw [at'] at aside
    cases aside
    simp only [Knows,at'] at known
    exact making_hidden known.2.2.1 moves
  | settled size num k =>
    rw [at'] at aside
    cases aside
    simp only [Knows,at'] at known
    exact making_hidden known.2.2.1 moves
  | releasing index k after =>
    rw [at'] at aside
    cases aside
    simp only [Knows,at'] at known
    rcases known.2.1 with parting | ⟨making,_⟩
    · have whole := sound.full h handed ⟨t,.inr parting⟩ a block
      exact out h (sound.apart.only c (.own h) a found whole)
    · exact making_hidden making moves
  | dropping k =>
    rw [at'] at aside
    cases aside
    simp only [Knows,at'] at known
    exact making_hidden known.2.1 moves
  | _ =>
    rw [at'] at aside
    cases aside

theorem Sound.found (sound : Sound d Good Quiet s v) :
    s.Found c cells ↔ cells = v.kept c ∧ (∀ h, c = .own h → s.Central h) ∨
      cells = [] ∧ ∃ h, c = .own h ∧ ¬s.Central h := by
  have linked := sound.linked c
  cases c with
  | live => simp [Found,linked_live.mp linked]
  | cached t index =>
    have other : ∀ h, Place.cached t index ≠ .own h := nofun
    simp only [Found,other,false_implies,implies_true,and_true,false_and,exists_false,and_false,or_false]
    exact ⟨fun chain => chain.unique linked.1,by rintro rfl; exact linked.1⟩
  | moving t =>
    have other : ∀ h, Place.moving t ≠ .own h := nofun
    simp only [Found,other,false_implies,implies_true,and_true,false_and,exists_false,and_false,or_false]
    exact ⟨fun holds => Holds.unique holds linked,by rintro rfl; exact linked⟩
  | own h =>
    constructor
    · rintro (⟨central,chain⟩ | ⟨hidden,rfl⟩)
      · refine .inl ⟨chain.unique (linked central.1 (sound.circulates central)),?_⟩
        rintro k same
        cases same; exact central
      · exact .inr ⟨rfl,h,rfl,hidden⟩
    · rintro (⟨rfl,central⟩ | ⟨rfl,k,same,hidden⟩)
      · exact .inl ⟨central h rfl,linked (central h rfl).1 (sound.circulates (central h rfl))⟩
      · cases same
        exact .inr ⟨hidden,rfl⟩

theorem Sound.keeps (sound : Sound d Good Quiet s v) :
    s.Keeps c a ↔ a ∈ v.kept c ∧ ∀ h, c = .own h → s.Central h := by
  constructor
  · rintro ⟨cells,found,member⟩
    rcases sound.found.mp found with ⟨rfl,central⟩ | ⟨rfl,_⟩
    · exact ⟨member,central⟩
    · cases member
  · rintro ⟨member,central⟩
    exact ⟨_,sound.found.mpr (.inl ⟨rfl,central⟩),member⟩

theorem Sound.keeps_of (laws : Laws d Good Ready Quiet Admits) (sound : Sound d Good Quiet s v) (keeps : s.Keeps c a) :
    ∃ h, s.Central h ∧ a ∈ d.blocks (s.spanAt h) ∧ s.cache.get (a / pageBytes) = some h ∧ ∀ k, c = .own k → k = h := by
  obtain ⟨member,central⟩ := sound.keeps.mp keeps
  by_cases own : ∃ k, c = .own k
  · obtain ⟨k,rfl⟩ := own
    obtain ⟨h,_,mapped,_,block,fits⟩ := sound.mapped laws member
    have same : k = h := fits
    subst same
    refine ⟨k,central k rfl,block,mapped,?_⟩
    rintro j same
    cases same; rfl
  · have out : ∀ k, c ≠ .own k := fun k same => own ⟨k,same⟩
    obtain ⟨h,central,block,mapped⟩ := sound.central laws member out
    exact ⟨h,central,block,mapped,fun k same => absurd same (out k)⟩

theorem Sound.resident (laws : Laws d Good Ready Quiet Admits) (sound : Sound d Good Quiet s v) : Resident d s := by
  refine ⟨fun c => ?_,?_,?_,?_,?_⟩
  · by_cases hidden : ∃ h, c = .own h ∧ ¬s.Central h
    · exact ⟨[],sound.found.mpr (.inr ⟨rfl,hidden⟩),.nil⟩
    · refine ⟨v.kept c,sound.found.mpr (.inl ⟨rfl,fun h same => ?_⟩),sound.apart.nodup c⟩
      by_contra aside
      exact hidden ⟨h,same,aside⟩
  · intro h central a block
    obtain ⟨c,member⟩ := sound.every h central.1 (sound.circulates central) a block
    have visible : ∀ k, c = .own k → s.Central k := by
      rintro k rfl
      obtain ⟨_,_,own⟩ := sound.home laws member central.1 (sound.inside central.1 (sound.circulates central) block)
      have same : k = h := own
      rw [same]; exact central
    refine ⟨c,sound.keeps.mpr ⟨member,visible⟩,fun x keeps => ?_⟩
    exact sound.apart.only x c a (sound.keeps.mp keeps).1 member
  · intro c a keeps
    obtain ⟨h,central,block,mapped,own⟩ := sound.keeps_of laws keeps
    exact ⟨h,central,block,sound.inside central.1 (sound.circulates central) block,mapped,own⟩
  · intro h central cells found
    rcases sound.found.mp found with ⟨rfl,_⟩ | ⟨_,k,same,hidden⟩
    · have moves := sound.circulates central
      have count := sound.count h central.1 moves
      have inside : ∀ a ∈ v.kept (.own h), a ∈ d.blocks (s.spanAt h) := fun a member => (sound.own_of member).2.2
      have length := length_without (blocks_nodup (sound.sized central.1 moves) (sound.positive h central.1))
        (sound.apart.nodup (.own h)) inside
      omega
    · cases same
      exact absurd central hidden
  · intro t h gives
    have handed := sound.gives_handed gives
    refine ⟨handed,fun c a keeps page => ?_⟩
    obtain ⟨k,central,block,_⟩ := sound.keeps_of laws keeps
    have same := laws.alone sound.good handed central.1 page (sound.inside central.1 (sound.circulates central) block)
    rw [← same] at central
    exact central.2 t (gives_aside gives)

theorem run_resident (laws : Laws d Good Ready Quiet Admits)
    (admitted : Machine.Throughout (Heap.step d) (Guard Ready Admits) {} actions)
    (ran : Machine.run (Heap.step d) {} actions = some s) : Resident d s ∧
      ∀ action next a, Guard Ready Admits s action → s.step d action = some next → next.live = a :: s.live →
        a ∉ s.live := by
  obtain ⟨v,sound⟩ := run_sound laws admitted ran
  refine ⟨sound.resident laws,fun action next a guarded stepped returned => ?_⟩
  obtain ⟨w,later⟩ := sound.step laws guarded stepped
  exact later.new_block returned

end Heap
end LinuxOS.Blocks
