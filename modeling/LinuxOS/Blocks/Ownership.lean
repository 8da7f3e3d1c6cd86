import LinuxOS.Blocks.Runs

namespace LinuxOS.Blocks
open Links Pages Places
variable {d : Design} {Good : PageCache → Set Nat → Prop} {Ready : PageCache → Set Nat → Nat → Prop}
variable {Quiet : Span → Prop} {Admits : Nat → Prop}
variable {s next : Heap} {v : View} {a h t : Nat} {c : Place} {cells other : List Nat}
variable {action : Action} {actions : List Action}

theorem Holds.unique {pc : Pc} {mem : Nat → Option Nat} (holds : pc.Holds mem cells) (holds' : pc.Holds mem other) :
    cells = other := by
  cases pc with
  | received => exact holds.1.unique holds'.1
  | returning => exact Chain.unique holds holds'
  | putting => exact Chain.unique holds holds'
  | releasing => exact Chain.unique holds holds'
  | _ => exact Eq.trans holds (Eq.symm holds')

theorem length_without {whole part : List Nat} (distinct : whole.Nodup) (distinct' : part.Nodup)
    (inside : ∀ a ∈ part, a ∈ whole) : (whole.filter (· ∉ part)).length + part.length = whole.length := by
  have common : (whole.filter (· ∈ part)).Perm part := by
    rw [List.perm_ext_iff_of_nodup (distinct.filter _) distinct']
    intro a
    rw [List.mem_filter,decide_eq_true_eq]
    exact ⟨And.right,fun found => ⟨inside a found,found⟩⟩
  rw [List.length_eq_length_filter_add (l := whole) (· ∈ part),common.length_eq,Nat.add_comm]
  simp only [decide_not]

-- No span loses its list of blocks, and no block has a span of its own.
structure Plain (d : Design) : Prop where
  keeps : ¬d.Clears
  small : ∀ size, d.large size = false

namespace Heap

def Carved (s : Heap) (h : Nat) : Prop := h ∈ s.handed ∧
  ∀ t size num, s.pcs t ≠ .fresh size num h ∧ s.pcs t ≠ .settled size num h

def Leads (s : Heap) : Place → List Nat → Prop
  | .live,cells => cells = s.live
  | .cached t index,cells => Chain s.mem (s.lists t index).freeList cells
  | .moving t,cells => (s.pcs t).Holds s.mem cells
  | .own h,cells => s.Carved h ∧ Chain s.mem (s.spanAt h).freeList cells ∨ ¬s.Carved h ∧ cells = []

def Has (s : Heap) (c : Place) (a : Nat) : Prop := ∃ cells, s.Leads c cells ∧ a ∈ cells

-- Every block of a carved span is in exactly one place, and once; `_use_count`
-- counts those that are outside of the span; a span goes back with all its blocks.
structure Exclusive (d : Design) (s : Heap) : Prop where
  once : ∀ c, ∃ cells, s.Leads c cells ∧ cells.Nodup
  one : ∀ h, s.Carved h → ∀ a ∈ d.blocks (s.spanAt h), ∃! c, s.Has c a
  origin : ∀ c a, s.Has c a → ∃ h, s.Carved h ∧ a ∈ d.blocks (s.spanAt h) ∧ a / pageBytes ∈ (s.spanAt h).extent ∧
    s.cache.get (a / pageBytes) = some h ∧ ∀ k, c = .own k → k = h
  count : ∀ h, s.Carved h → ∀ cells, s.Leads (.own h) cells →
    (s.spanAt h).useCount = ((d.blocks (s.spanAt h)).filter (· ∉ cells)).length
  whole : ∀ t h, (s.pcs t).gives = some h → s.Carved h ∧ ∀ a ∈ d.blocks (s.spanAt h), ∀ c, s.Has c a → c = .own h

theorem Sound.carved (plain : Plain d) (sound : Sound d Good Quiet s v) :
    s.Carved h ↔ h ∈ s.handed ∧ (v.stage h).Circulates := by
  constructor
  · rintro ⟨handed,linked⟩
    refine ⟨handed,?_⟩
    cases stage : v.stage h with
    | making t =>
      have works := sound.owner h handed t (by rw [stage]; rfl)
      have known := sound.knows t
      cases at' : s.pcs t with
      | fresh size num k =>
        rw [at'] at works
        cases works
        exact absurd at' (linked t size num).1
      | settled size num k =>
        rw [at'] at works
        cases works
        exact absurd at' (linked t size num).2
      | carved size num k =>
        rw [at'] at works
        cases works
        simp only [Knows,at'] at known
        rw [stage] at known
        cases known.2.1
      | releasing index k after =>
        rw [at'] at works
        cases works
        simp only [Knows,at'] at known
        rcases known.2.1 with parting | ⟨_,clears⟩
        · rw [stage] at parting; cases parting
        · exact absurd clears plain.keeps
      | dropping k =>
        simp only [Knows,at',plain.small] at known
        cases known.2.2.1
      | _ =>
        rw [at'] at works
        cases works
    | _ => trivial
  · rintro ⟨handed,out⟩
    refine ⟨handed,fun t size num => ⟨fun at' => ?_,fun at' => ?_⟩⟩
    · have known := sound.knows t
      simp only [Knows,at'] at known
      exact making_hidden known.2.2.1 out
    · have known := sound.knows t
      simp only [Knows,at'] at known
      exact making_hidden known.2.2.1 out

theorem Sound.leads (plain : Plain d) (sound : Sound d Good Quiet s v) : s.Leads c cells ↔ cells = v.kept c := by
  have linked := sound.linked c
  cases c with
  | live => rw [Leads,linked_live.mp linked]
  | cached t index =>
    refine ⟨fun chain => chain.unique linked.1,?_⟩
    rintro rfl; exact linked.1
  | moving t =>
    refine ⟨fun holds => Holds.unique holds linked,?_⟩
    rintro rfl; exact linked
  | own h =>
    have carved := sound.carved plain (h := h)
    constructor
    · rintro (⟨new,chain⟩ | ⟨old,rfl⟩)
      · obtain ⟨handed,out⟩ := carved.mp new
        exact chain.unique (linked handed out)
      · exact (sound.own_empty fun handed out => old (carved.mpr ⟨handed,out⟩)).symm
    · rintro rfl
      by_cases new : s.Carved h
      · obtain ⟨handed,out⟩ := carved.mp new
        exact .inl ⟨new,linked handed out⟩
      · exact .inr ⟨new,sound.own_empty fun handed out => new (carved.mpr ⟨handed,out⟩)⟩

theorem Sound.has (plain : Plain d) (sound : Sound d Good Quiet s v) : s.Has c a ↔ a ∈ v.kept c := by
  constructor
  · rintro ⟨cells,leads,found⟩
    rwa [(sound.leads plain).mp leads] at found
  · intro found
    exact ⟨_,(sound.leads plain).mpr rfl,found⟩

theorem Sound.gives (plain : Plain d) (sound : Sound d Good Quiet s v) (gives : (s.pcs t).gives = some h) :
    h ∈ s.handed ∧ v.stage h = .parting t := by
  have known := sound.knows t
  cases at' : s.pcs t with
  | releasing index k after =>
    rw [at'] at gives
    cases gives
    simp only [Knows,at'] at known
    obtain ⟨handed,stage,_⟩ := known
    exact ⟨handed,stage.resolve_right fun cleared => plain.keeps cleared.2⟩
  | dropping k =>
    simp only [Knows,at',plain.small] at known
    cases known.2.2.1
  | _ =>
    rw [at'] at gives
    cases gives

theorem Sound.exclusive (laws : Laws d Good Ready Quiet Admits) (plain : Plain d) (sound : Sound d Good Quiet s v) :
    Exclusive d s := by
  refine ⟨fun c => ⟨v.kept c,(sound.leads plain).mpr rfl,sound.apart.nodup c⟩,?_,?_,?_,?_⟩
  · intro h carved a block
    obtain ⟨handed,out⟩ := (sound.carved plain).mp carved
    obtain ⟨c,found⟩ := sound.every h handed out a block
    refine ⟨c,(sound.has plain).mpr found,fun x found' => ?_⟩
    exact sound.apart.only x c a ((sound.has plain).mp found') found
  · intro c a found
    obtain ⟨h,handed,mapped,out,block,fits⟩ := sound.mapped laws ((sound.has plain).mp found)
    refine ⟨h,(sound.carved plain).mpr ⟨handed,out⟩,block,sound.inside handed out block,mapped,?_⟩
    rintro k rfl
    exact fits
  · intro h carved cells leads
    obtain ⟨handed,out⟩ := (sound.carved plain).mp carved
    obtain rfl := (sound.leads plain).mp leads
    have count := sound.count h handed out
    have inside : ∀ a ∈ v.kept (.own h), a ∈ d.blocks (s.spanAt h) := fun a found => (sound.own_of found).2.2
    have length := length_without (blocks_nodup (sound.sized handed out) (sound.positive h handed))
      (sound.apart.nodup (.own h)) inside
    omega
  · intro t h gives
    obtain ⟨handed,stage⟩ := sound.gives plain gives
    refine ⟨(sound.carved plain).mpr ⟨handed,by rw [stage]; trivial⟩,fun a block c found => ?_⟩
    exact sound.apart.only c (.own h) a ((sound.has plain).mp found) (sound.full h handed ⟨t,.inr stage⟩ a block)

theorem Sound.new_block (sound : Sound d Good Quiet next v) (returned : next.live = a :: s.live) : a ∉ s.live := by
  have distinct := sound.apart.nodup .live
  rw [linked_live.mp (sound.linked .live),returned,List.nodup_cons] at distinct
  exact distinct.1

theorem run_exclusive (laws : Laws d Good Ready Quiet Admits) (plain : Plain d)
    (admitted : Machine.Throughout (Heap.step d) (Guard Ready Admits) {} actions)
    (ran : Machine.run (Heap.step d) {} actions = some s) : Exclusive d s ∧
      ∀ action next a, Guard Ready Admits s action → s.step d action = some next → next.live = a :: s.live →
        a ∉ s.live := by
  obtain ⟨v,sound⟩ := run_sound laws admitted ran
  refine ⟨sound.exclusive laws plain,fun action next a guarded stepped returned => ?_⟩
  obtain ⟨w,later⟩ := sound.step laws guarded stepped
  exact later.new_block returned

end Heap
end LinuxOS.Blocks
