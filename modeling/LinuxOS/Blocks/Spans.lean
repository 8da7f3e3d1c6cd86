import LinuxOS.Blocks.Handover
import LinuxOS.Blocks.Steps

namespace LinuxOS.Blocks
open Function (update)
open Links Pages Places
variable {d : Design} {Good : PageCache → Set Nat → Prop} {Ready : PageCache → Set Nat → Nat → Prop}
variable {Quiet : Span → Prop} {Admits : Nat → Prop}
variable {s next : Heap} {v w : View} {a h k t u i j size index num page ptr span : Nat} {c : Place}

namespace Heap

theorem Sound.own_empty (sound : Sound d Good Quiet s v) (hidden : h ∈ s.handed → ¬(v.stage h).Circulates) :
    v.kept (.own h) = [] := by
  apply List.eq_nil_iff_forall_not_mem.mpr
  intro a found
  obtain ⟨handed,out,_⟩ := sound.own_of found
  exact hidden handed out

theorem making_hidden (stage : v.stage h = .making t) : ¬(v.stage h).Circulates := by
  rw [stage]; exact id

structure SameBlocks (s next : Heap) : Prop where
  mem : next.mem = s.mem := by rfl
  buckets : next.buckets = s.buckets := by rfl
  lists : next.lists = s.lists := by rfl
  live : next.live = s.live := by rfl

theorem SameBlocks.heads (same : SameBlocks s next) (pcs : ∀ u, u ≠ t → next.pcs u = s.pcs u)
    (others : ∀ k ∈ s.handed, k ≠ h → next.spanAt k = s.spanAt k) (y : Place) (own : y ≠ .own h)
    (thread : y ≠ .moving t) : SameHead s next y := by
  cases y with
  | live => exact same.live
  | cached u i => rw [SameHead,same.lists]
  | moving u => exact pcs u fun mine => thread (mine ▸ rfl)
  | own k => exact fun handed => by rw [others k handed fun span => own (span ▸ rfl)]

theorem Sound.making (laws : Laws d Good Ready Quiet Admits) (sound : Sound d Good Quiet s v)
    (hidden : h ∈ s.handed → v.stage h = .making t) (works : ∀ k, (s.pcs t).worksOn = some k → k = h)
    (worksOn : (next.pcs t).worksOn = some h) (idle : v.kept (.moving t) = [])
    (handed : ∀ k, k ∈ next.handed ↔ k = h ∨ k ∈ s.handed) (distinct : next.handed.Nodup)
    (good : Good next.cache {k | k ∈ next.handed}) (others : ∀ k ∈ s.handed, k ≠ h → next.spanAt k = s.spanAt k)
    (positive : 1 ≤ (next.spanAt h).nPages) (same : SameBlocks s next) (pcs : ∀ u, u ≠ t → next.pcs u = s.pcs u)
    (holds : (next.pcs t).Holds next.mem [])
    (knows : Knows d Quiet next (handOver v h (.making t) (.moving t) []) t) :
    Sound d Good Quiet next (handOver v h (.making t) (.moving t) []) := by
  have kept : update v.kept (.moving t) [] = v.kept := by rw [← idle,Function.update_eq_self]
  have before : ∀ a, ¬Of d s v h a := fun a first => making_hidden (hidden first.1) first.2.1
  have after : ∀ a, ¬Of d next (handOver v h (.making t) (.moving t) []) h a := by
    rintro a ⟨_,out,_⟩
    rw [handOver_stage] at out
    exact out
  refine sound.handover laws t h (.making t) (.moving t) [] {
    place := .inr (.inl rfl)
    handed := fun k other => by rw [handed]; exact or_iff_right other
    distinct := distinct
    good := good
    others := others
    mine := fun member u held => by
      rw [hidden member] at held
      exact (Option.some.inj held).symm
    works := works
    owner := fun _ u held => ⟨(Option.some.inj held).symm,worksOn⟩
    positive := fun _ => positive
    sorted := fun _ out => out.elim
    listed := ?_
    single := fun i => by rw [same.buckets]; exact sound.single i
    apart := by rw [kept]; exact sound.apart
    arrive := fun a found => by cases found
    depart := fun a found => by rw [idle] at found; cases found
    elsewhere := fun _ _ a _ first => absurd first (before a)
    every := fun a first => absurd first (after a)
    count := fun _ out => out.elim
    full := ?_
    pcs := pcs
    bucket := fun a found => by rw [idle] at found; cases found
    memory := fun _ _ a _ => by rw [same.mem]
    heads := fun y _ => same.heads pcs others y
    live := ?_
    own := ?_
    thread := ?_
    knows := knows}
  · apply sound.listed_elsewhere
    · intro member i
      rw [hidden member]; exact Stage.noConfusion
    · exact fun _ => Stage.noConfusion
    · intro k other
      rw [handed]; exact or_iff_right other
    · exact same.buckets
  · rintro _ ⟨u,stage | stage⟩ <;> cases stage
  · rw [linked_live,handOver_kept_other Place.noConfusion,same.live]
    exact sound.linked .live
  · intro _ out
    rw [handOver_stage] at out
    exact out.elim
  · rw [Linked,handOver_kept]; exact holds

theorem Sound.fetchSpan (laws : Laws d Good Ready Quiet Admits) (sound : Sound d Good Quiet s v)
    (lacking : s.pcs t = .lacking size num) (stepped : s.fetchSpan d t size num page = some next) :
    ∃ w, Sound d Good Quiet next w := by
  have known := sound.knows t
  simp only [Knows,lacking] at known
  obtain ⟨index,sort⟩ := known
  have idle := sound.linked (.moving t)
  rw [Linked,lacking] at idle
  obtain ⟨pages,counted,stepped⟩ := Option.bind_eq_some_iff.mp stepped
  obtain ⟨placed,stepped⟩ := Option.ite_none_right_eq_some.mp stepped
  obtain ⟨⟨cache,span⟩,given,stepped⟩ := Option.bind_eq_some_iff.mp stepped
  cases stepped
  have some_pages := laws.pages sort counted
  obtain ⟨new,good,count,quiet,others⟩ := laws.newSpan sound.good some_pages placed.1 placed.2 given
  refine ⟨_,sound.making laws (h := span) (fun member => absurd member new) ?works ?worksOn idle ?handed ?distinct ?good ?others ?positive {} ?pcs ?holds ?knows⟩
  case works =>
    intro k works
    rw [lacking] at works; cases works
  case worksOn => rw [setPc_same]; rfl
  case handed => intro k; exact List.mem_cons
  case distinct => exact List.nodup_cons.mpr ⟨new,sound.distinct⟩
  case good =>
    rw [← List.setOfPred_mem_cons] at good
    exact good
  case others => intro k member _; exact others k member
  case positive => exact count ▸ some_pages
  case pcs => intro u other; exact setPc_other other
  case holds => rw [setPc_same]; exact rfl
  case knows =>
    rw [Knows,setPc_same]
    exact ⟨⟨index,sort⟩,.head _,handOver_stage,quiet⟩

theorem Sound.settleSpan (laws : Laws d Good Ready Quiet Admits) (sound : Sound d Good Quiet s v)
    (fresh : s.pcs t = .fresh size num h) (stepped : s.settleSpan d t size num h = some next) :
    ∃ w, Sound d Good Quiet next w := by
  have known := sound.knows t
  simp only [Knows,fresh] at known
  obtain ⟨sort,handed,stage,quiet⟩ := known
  have idle := sound.linked (.moving t)
  rw [Linked,fresh] at idle
  obtain ⟨settled,took,stepped⟩ := Option.bind_eq_some_iff.mp stepped
  cases stepped
  obtain ⟨id,nPages,objSize,useCount,used⟩ := laws.settle quiet took
  have good : Good (s.cache.write h fun _ => settled) {k | k ∈ s.handed} := laws.edit sound.good handed id nPages used
  refine ⟨_,sound.making laws (h := h) (fun _ => stage) ?works ?worksOn idle ?handed sound.distinct good ?others ?positive {} ?pcs ?holds ?knows⟩
  case works =>
    intro k works
    rw [fresh] at works
    exact (Option.some.inj works).symm
  case worksOn => rw [setPc_same]; rfl
  case handed =>
    intro k
    refine ⟨.inr,fun member => ?_⟩
    rcases member with rfl | member
    · exact handed
    · exact member
  case others =>
    intro k _ other
    rw [setPc_spanAt]; exact edit_other _ other
  case positive => rw [setPc_spanAt,edit_same,nPages]; exact sound.positive h handed
  case pcs => intro u other; exact setPc_other other
  case holds => rw [setPc_same]; exact rfl
  case knows =>
    rw [Knows,setPc_same]
    refine ⟨sort,handed,handOver_stage,?_⟩
    rw [setPc_spanAt,edit_same]
    exact ⟨objSize,useCount⟩

theorem Sound.unplaced (laws : Laws d Good Ready Quiet Admits) (sound : Sound d Good Quiet s v) (handed : h ∈ s.handed)
    (hidden : ¬(v.stage h).Circulates) (page : a / pageBytes ∈ (s.spanAt h).extent) : a ∉ v.kept c := fun found =>
  hidden (sound.home laws found handed page).1

theorem Sound.carveSpan (laws : Laws d Good Ready Quiet Admits) (sound : Sound d Good Quiet s v)
    (settled : s.pcs t = .settled size num h) : ∃ w, Sound d Good Quiet (s.carveSpan t size num h) w := by
  have known := sound.knows t
  simp only [Knows,settled] at known
  obtain ⟨⟨index,sort⟩,handed,stage,objSize,unused⟩ := known
  have idle := sound.linked (.moving t)
  rw [Linked,settled] at idle
  have hidden := making_hidden stage
  have own := sound.own_empty fun _ => hidden
  have pages := sound.positive h handed
  have bytes : 0 < (s.spanAt h).nPages * pageBytes := Nat.mul_pos pages (by decide)
  have small : d.large (s.spanAt h).objSize = false := objSize ▸ sort.small
  have positive : 1 ≤ (s.spanAt h).objSize := objSize ▸ sort.positive
  have blocks : d.blocks (s.spanAt h) = cells size ((s.spanAt h).id * pageBytes + (s.spanAt h).nPages * pageBytes)
      ((s.spanAt h).nPages * pageBytes) ((s.spanAt h).id * pageBytes) := by rw [blocks_cells small,objSize]
  have fresh : ∀ a ∈ d.blocks (s.spanAt h), ∀ x, a ∉ v.kept x := fun a block x =>
    sound.unplaced laws handed hidden (blocks_inside (.inr ⟨small,positive⟩) pages block)
  have distinct : (d.blocks (s.spanAt h)).Nodup := blocks_nodup (.inr ⟨small,positive⟩) pages
  have others : ∀ k, k ≠ h → (s.carveSpan t size num h).spanAt k = s.spanAt k := by
    intro k other
    rw [Heap.carveSpan,setPc_spanAt,edit_other _ other]; rfl
  have carved : (s.carveSpan t size num h).spanAt h =
      {s.spanAt h with freeList := some ((s.spanAt h).id * pageBytes)} := by
    rw [Heap.carveSpan,setPc_spanAt,edit_same]; rfl
  have after : d.blocks ((s.carveSpan t size num h).spanAt h) = d.blocks (s.spanAt h) := by rw [carved]; rfl
  have good : Good (s.cache.write h fun sp => {sp with freeList := some ((s.spanAt h).id * pageBytes)})
    {k | k ∈ s.handed} := laws.edit sound.good handed rfl rfl (.inl rfl)
  refine ⟨_,sound.handover laws t h (.ready t) (.own h) (d.blocks (s.spanAt h)) {
    place := .inr (.inr rfl)
    handed := fun k _ => Iff.rfl
    distinct := sound.distinct
    good := good
    others := fun k _ => others k
    mine := fun _ u held => by
      rw [stage] at held
      exact (Option.some.inj held).symm
    works := fun k works => by
      rw [settled] at works
      exact (Option.some.inj works).symm
    owner := fun _ u held => ⟨(Option.some.inj held).symm,congrArg Pc.worksOn setPc_same⟩
    positive := fun _ => by rw [carved]; exact pages
    sorted := fun _ _ => .inr ⟨Stage.noConfusion,index,by rw [carved,objSize]; exact sort,fun _ => Stage.noConfusion⟩
    listed := ?listed
    single := sound.single
    apart := ?apart
    arrive := fun a found => .inr ⟨⟨handed,by rw [handOver_stage]; trivial,by rw [after]; exact found⟩,rfl⟩
    depart := fun a found => by rw [own] at found; cases found
    elsewhere := fun _ _ a _ first => absurd first.2.1 hidden
    every := fun a first => ⟨.own h,?every⟩
    count := fun _ _ => ?count
    full := fun _ _ a block => ?full
    pcs := fun u other => setPc_other other
    bucket := fun a found => by rw [show v.kept (.moving t) = [] from idle] at found; cases found
    memory := fun x _ a found => ?memory
    heads := ?heads
    live := sound.linked .live
    own := ?own
    thread := ?thread
    knows := ?knows}⟩
  case listed =>
    apply sound.listed_elsewhere
    · intro _ i
      rw [stage]; exact Stage.noConfusion
    · exact fun _ => Stage.noConfusion
    · exact fun _ _ => Iff.rfl
    · rfl
  case apart =>
    have put := sound.apart.put (c := .own h) distinct fresh
    rw [own,List.append_nil] at put
    exact put
  case every => rw [Function.update_self,← after]; exact first.2.2
  case count =>
    rw [after,Function.update_self,carved]
    show (s.spanAt h).useCount + _ = _
    rw [unused,Int.zero_add]
  case full => rw [Function.update_self,← after]; exact block
  case memory =>
    apply carve_other
    intro block
    rw [← blocks] at block
    exact fresh a block x found
  case heads =>
    intro y _ other thread
    cases y with
    | moving u => exact setPc_other fun same => thread (same ▸ rfl)
    | own k => exact fun _ => by rw [others k fun same => other (same ▸ rfl)]
    | _ => rfl
  case own =>
    rw [Linked,handOver_kept,carved]
    intro _ _
    rw [blocks]
    exact carve_chain (objSize ▸ positive) (by omega) (by omega)
  case thread =>
    rw [Linked,Heap.carveSpan,setPc_same]
    exact (handOver_kept_other Place.noConfusion).trans idle
  case knows =>
    have at' : (s.carveSpan t size num h).pcs t = .carved size num h := setPc_same
    rw [Knows,at']
    refine ⟨handed,handOver_stage,?_⟩
    rw [carved]; exact objSize

-- ReleaseSpanToPageCache: the span is gone, and its blocks with it.
theorem Sound.releaseSpan (laws : Laws d Good Ready Quiet Admits) (sound : Sound d Good Quiet s v) {pc : Pc}
    (handed : h ∈ s.handed) (stage : v.stage h = .parting t ∨ v.stage h = .making t)
    (works : (s.pcs t).worksOn = some h) (quiet : Quiet (s.spanAt h))
    (ready : Ready s.cache {k | k ∈ s.handed} h) (holds : pc.Holds s.mem (v.kept (.moving t)))
    (bucket : ∀ i, pc.bucket d = some i → (s.pcs t).bucket d = some i)
    (knows : ∀ next w, next.pcs t = pc → Knows d Quiet next w t)
    (stepped : s.releaseSpan d t h pc = some next) : ∃ w, Sound d Good Quiet next w := by
  obtain ⟨cache,released,stepped⟩ := Option.bind_eq_some_iff.mp stepped
  cases stepped
  obtain ⟨good,others⟩ := laws.release sound.good handed quiet ready released
  have gone : h ∉ s.handed.erase h := fun found => (sound.distinct.mem_erase_iff.mp found).1 rfl
  have all : ∀ a, Of d s v h a → a ∈ v.kept (.own h) := by
    rintro a ⟨_,out,block⟩
    rcases stage with parting | making
    · exact sound.full h handed ⟨t,.inr parting⟩ a block
    · exact absurd out (making_hidden making)
  refine ⟨_,sound.handover laws t h (.making t) (.own h) [] {
    place := .inr (.inr rfl)
    handed := fun k other => List.mem_erase_of_ne other
    distinct := sound.distinct.erase h
    good := by
      show Good cache {k | k ∈ s.handed.erase h}
      rw [PageCache.setOf_erase sound.distinct]; exact good
    others := others
    mine := fun _ u held => by
      rcases stage with same | same
      · rw [same] at held
        exact (Option.some.inj held).symm
      · rw [same] at held
        exact (Option.some.inj held).symm
    works := fun k other => Option.some.inj (other.symm.trans works)
    owner := fun member => absurd member gone
    positive := fun member => absurd member gone
    sorted := fun member => absurd member gone
    listed := ?_
    single := sound.single
    apart := sound.apart.trim .nil (fun a found => by cases found)
    arrive := fun a found => by cases found
    depart := ?_
    elsewhere := ?_
    every := fun a first => absurd first.1 gone
    count := fun member => absurd member gone
    full := fun member => absurd member gone
    pcs := fun u other => setPc_other other
    bucket := fun a _ i at' => bucket i (by rwa [setPc_same] at at')
    memory := fun _ _ _ _ => rfl
    heads := ?_
    live := sound.linked .live
    own := fun member => absurd member gone
    thread := ?_
    knows := knows _ _ setPc_same}⟩
  · apply sound.listed_elsewhere
    · intro _ i
      rcases stage with same | same
      · rw [same]; exact Stage.noConfusion
      · rw [same]; exact Stage.noConfusion
    · exact fun _ => Stage.noConfusion
    · exact fun k other => List.mem_erase_of_ne other
    · rfl
  · intro a found other
    exact absurd (sound.own_of found) other
  · intro x elsewhere a found first
    exact absurd (sound.apart.only x (.own h) a found (all a first)) elsewhere
  · intro y _ own thread
    cases y with
    | live => rfl
    | cached u i => rfl
    | moving u => exact setPc_other fun same => thread (same ▸ rfl)
    | own k =>
      intro member
      have other : k ≠ h := by
        rintro rfl
        exact own rfl
      exact congrArg Span.freeList (others k member other)
  · rw [Linked,setPc_same,handOver_kept_other Place.noConfusion]
    exact holds

-- Free of a large block: its span is about to go back whole.
theorem Sound.drop (laws : Laws d Good Ready Quiet Admits) (sound : Sound d Good Quiet s v)
    (freeing : s.pcs t = .freeing ptr h) (large : d.large (s.spanAt h).objSize = true) :
    ∃ w, Sound d Good Quiet (s.setPc t (.dropping h)) w := by
  have known := sound.knows t
  simp only [Knows,freeing] at known
  obtain ⟨handed,out,block⟩ := known
  have moving := sound.linked (.moving t)
  rw [Linked,freeing] at moving
  have moving : v.kept (.moving t) = [ptr] := moving
  have stage : v.stage h = .large := by
    rcases sound.sorted h handed out with ⟨stage,_⟩ | ⟨_,index,sort,_⟩
    · exact stage
    · rw [sort.small] at large; cases large
  have only : ∀ a, Of d s v h a → a = ptr := by
    rintro a ⟨_,_,found⟩
    rw [blocks_large large,List.mem_singleton] at found block
    rw [found,block]
  have here : ptr ∈ v.kept (.moving t) := by rw [moving]; exact .head _
  have after : ∀ a, ¬Of d (s.setPc t (.dropping h)) (handOver v h (.making t) (.moving t) []) h a := by
    rintro a ⟨_,out,_⟩
    rw [handOver_stage] at out
    exact out
  refine ⟨_,sound.handover laws t h (.making t) (.moving t) [] {
    place := .inr (.inl rfl)
    handed := fun _ _ => Iff.rfl
    distinct := sound.distinct
    good := sound.good
    others := fun _ _ _ => rfl
    mine := fun _ u held => by rw [stage] at held; cases held
    works := fun k works => by rw [freeing] at works; cases works
    owner := fun _ u held => ⟨(Option.some.inj held).symm,congrArg Pc.worksOn setPc_same⟩
    positive := fun _ => sound.positive h handed
    sorted := fun _ out => out.elim
    listed := ?listed
    single := sound.single
    apart := sound.apart.trim .nil (fun a found => by cases found)
    arrive := fun a found => by cases found
    depart := ?depart
    elsewhere := ?elsewhere
    every := fun a first => absurd first (after a)
    count := fun _ out => out.elim
    full := ?full
    pcs := fun u other => setPc_other other
    bucket := fun a _ i at' => by rw [setPc_same] at at'; cases at'
    memory := fun _ _ _ _ => rfl
    heads := ?heads
    live := sound.linked .live
    own := ?own
    thread := ?thread
    knows := ?knows}⟩
  case listed =>
    apply sound.listed_elsewhere
    · intro _ i
      rw [stage]; exact Stage.noConfusion
    · exact fun _ => Stage.noConfusion
    · exact fun _ _ => Iff.rfl
    · rfl
  case depart =>
    intro a found other
    rw [moving,List.mem_singleton] at found
    subst a
    exact absurd ⟨handed,out,block⟩ other
  case elsewhere =>
    intro x elsewhere a found first
    rw [only a first] at found
    exact absurd (sound.apart.only x (.moving t) ptr found here) elsewhere
  case full => rintro _ ⟨u,same | same⟩ <;> cases same
  case heads =>
    intro y _ _ thread
    exact SameHead.setPc (.frame (fun _ => rfl) rfl rfl rfl) thread
  case own =>
    intro _ out
    rw [handOver_stage] at out
    exact out.elim
  case thread => rw [Linked,setPc_same,handOver_kept]; exact rfl
  case knows =>
    rw [Knows,setPc_same]
    exact ⟨handed,handOver_stage,large,laws.quiet (.inr large)⟩

def largeSpan (cache : PageCache) (span size : Nat) : PageCache :=
  cache.write span fun sp => {sp with objSize := size, useCount := 1, isUsed := true, freeList := none}

theorem Sound.allocateLarge (laws : Laws d Good Ready Quiet Admits) (sound : Sound d Good Quiet s v)
    (idle : s.pcs t = .idle) (large : d.large size = true) (admitted : Admits size)
    (stepped : s.allocateLarge d size page = some next) : ∃ w, Sound d Good Quiet next w := by
  obtain ⟨placed,stepped⟩ := Option.ite_none_right_eq_some.mp stepped
  obtain ⟨⟨cache,span⟩,given,stepped⟩ := Option.bind_eq_some_iff.mp stepped
  cases stepped
  have some_pages := laws.large admitted large
  obtain ⟨new,good,count,_,others⟩ := laws.newSpan sound.good some_pages placed.1 placed.2 given
  rw [← List.setOfPred_mem_cons] at good
  have record : (largeSpan cache span size).spans span = {cache.spans span with
    objSize := size, useCount := 1, isUsed := true, freeList := none} := PageCache.write_same _
  have marked : Good (largeSpan cache span size) {k | k ∈ span :: s.handed} := laws.edit good (.head _) rfl rfl (.inr rfl)
  have same : ∀ k ∈ s.handed, (largeSpan cache span size).spans k = s.spanAt k := by
    intro k member
    have other : k ≠ span := ne_of_mem_of_not_mem member new
    exact (PageCache.write_other _ other).trans (others k member)
  have blocks : d.blocks ((largeSpan cache span size).spans span) = [((largeSpan cache span size).spans span).id * pageBytes] := by
    apply blocks_large
    rw [record]; exact large
  have unseen : ∀ a, ¬Of d s v span a := fun a first => new first.1
  have own := sound.own_empty fun member => absurd member new
  have live : v.kept .live = s.live := sound.linked .live
  have positive : 1 ≤ ((largeSpan cache span size).spans span).nPages := by
    rw [record]; exact count ▸ some_pages
  -- the new block's page is of no other span
  have fresh : ∀ a ∈ d.blocks ((largeSpan cache span size).spans span), ∀ x, a ∉ v.kept x := by
    intro a block x found
    obtain ⟨k,member,out,block',_⟩ := sound.source x a found
    have page := blocks_inside (.inl (by rw [record]; exact large)) positive block
    have page' := sound.inside member out block'
    rw [← same k member] at page'
    have twin := laws.alone marked (.head _) (.tail _ member) page page'
    exact new (twin ▸ member)
  refine ⟨_,sound.handover laws t span .large .live (((largeSpan cache span size).spans span).id * pageBytes :: s.live) {
    place := .inl rfl
    handed := fun k other => by
      rw [List.mem_cons]; exact or_iff_right other
    distinct := List.nodup_cons.mpr ⟨new,sound.distinct⟩
    good := marked
    others := fun k member _ => same k member
    mine := fun member => absurd member new
    works := fun k works => by rw [idle] at works; cases works
    owner := fun _ u held => by cases held
    positive := fun _ => positive
    sorted := fun _ _ => .inl ⟨rfl,by
      show d.large ((largeSpan cache span size).spans span).objSize = true
      rw [record]; exact large⟩
    listed := ?listed
    single := sound.single
    apart := ?apart
    arrive := ?arrive
    depart := fun a found _ => by rw [live] at found; exact .tail _ found
    elsewhere := fun _ _ a _ first => absurd first (unseen a)
    every := fun a first => ⟨.live,?every⟩
    count := fun _ _ => ?count
    full := ?full
    pcs := fun _ _ => rfl
    bucket := fun _ _ _ => id
    memory := fun _ _ _ _ => rfl
    heads := ?heads
    live := handOver_kept
    own := ?own
    thread := ?thread
    knows := by rw [Knows,idle]; trivial}⟩
  case listed =>
    apply sound.listed_elsewhere
    · exact fun member => absurd member new
    · exact fun _ => Stage.noConfusion
    · intro k other
      rw [List.mem_cons]; exact or_iff_right other
    · rfl
  case apart =>
    have put := sound.apart.put (c := .live) (List.nodup_singleton (((largeSpan cache span size).spans span).id * pageBytes)) (by
      rw [← blocks]; exact fresh)
    rw [live] at put
    exact put
  case arrive =>
    intro a found
    rcases List.mem_cons.mp found with rfl | old
    · refine .inr ⟨⟨.head _,by rw [handOver_stage]; trivial,?_⟩,trivial⟩
      show _ ∈ d.blocks ((largeSpan cache span size).spans span)
      rw [blocks]; exact .head _
    · exact .inl ⟨by rw [live]; exact old,unseen a⟩
  case every =>
    have block : a ∈ d.blocks ((largeSpan cache span size).spans span) := first.2.2
    rw [blocks,List.mem_singleton] at block
    rw [Function.update_self,block]; exact .head _
  case count =>
    show ((largeSpan cache span size).spans span).useCount + _ = (d.blocks ((largeSpan cache span size).spans span)).length
    rw [Function.update_of_ne Place.noConfusion,own,blocks,record]; rfl
  case full => rintro _ ⟨u,stage | stage⟩ <;> cases stage
  case heads =>
    intro y other _ _
    cases y with
    | live => exact absurd rfl other
    | own k => exact fun member => congrArg Span.freeList (same k member)
    | _ => rfl
  case own =>
    intro _ _
    rw [handOver_kept_other Place.noConfusion,own]
    show ((largeSpan cache span size).spans span).freeList = none
    rw [record]
  case thread => exact sound.linked (.moving t)

end Heap
end LinuxOS.Blocks
