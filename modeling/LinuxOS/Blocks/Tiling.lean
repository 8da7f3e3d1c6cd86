import LinuxOS.Blocks.Footprint

namespace LinuxOS.Blocks
open Function (update)
open Links Pages Places
variable {d : Design} {Good : PageCache → Set Nat → Prop} {Ready : PageCache → Set Nat → Nat → Prop}
variable {Quiet : Span → Prop} {Admits : Nat → Prop}
variable {s next : Heap} {v w : View} {a h k t u size index need page ptr : Nat} {action : Action}

def Pc.makes : Pc → Option Nat
  | .fetching size _ => some size
  | .lacking size _ => some size
  | .fresh size _ _ => some size
  | .settled size _ _ => some size
  | .carved size _ _ => some size
  | .received size _ _ _ => some size
  | _ => none

def Pc.unsettled : Pc → Option Nat
  | .fresh _ _ h => some h
  | _ => none

def Design.Tiling (d : Design) (size : Nat) : Prop := ∀ pages ∈ d.pages size, size ∣ pages * pageBytes

instance (d : Design) : DecidablePred d.Tiling := fun size =>
  inferInstanceAs (Decidable (∀ pages ∈ d.pages size, size ∣ pages * pageBytes))

structure Room (d : Design) (Admits : Nat → Prop) : Prop where
  word : ∀ {size index}, d.Class size index → wordBytes ≤ size
  single : ∀ {size other index}, d.Class size index → d.Class other index → size = other
  above : ∀ {size}, Admits size → d.large size = false → size ≤ d.roundUp size
  wide : ∀ {size}, Admits size → d.large size = true → size ≤ d.largePages size * pageBytes
  tiles : ∀ {size}, Admits size → d.large size = false → d.Tiling (d.roundUp size)

theorem Design.Class.width {span : Span} (sort : d.Class span.objSize index) : d.width span = span.objSize := by
  rw [Design.width,sort.small,if_neg Bool.false_ne_true]

theorem Alike.width {span other : Span} (alike : Alike span other) : d.width other = d.width span := by
  simp only [Design.width,alike.nPages,alike.objSize]

theorem alike_of_eq {span other : Span} (same : other = span) : Alike span other := by
  rw [same]; exact alike_refl

theorem Pc.unsettled_of {pc : Pc} (at' : pc.unsettled = some h) : ∃ size num, pc = .fresh size num h := by
  cases pc with
  | fresh size num k =>
    cases at'
    exact ⟨size,num,rfl⟩
  | _ => cases at'

namespace Heap

structure Tiled (d : Design) (s : Heap) : Prop where
  sizes : ∀ t size, (s.pcs t).makes = some size → d.Tiling size
  fresh : ∀ t size num h, s.pcs t = .fresh size num h → d.pages size = some (s.spanAt h).nPages
  spans : ∀ h ∈ s.handed, (∀ t, (s.pcs t).unsettled ≠ some h) → d.large (s.spanAt h).objSize = false →
    (s.spanAt h).objSize ∣ (s.spanAt h).nPages * pageBytes

-- What thread `t` does to the spans in a step, and with it to a user who waits for `need` bytes.
structure Effect (d : Design) (s next : Heap) (t need : Nat) : Prop where
  sizes : ∀ size, (next.pcs t).makes = some size → d.Tiling size ∧ need ≤ size
  fresh : ∀ size num h, next.pcs t = .fresh size num h → d.pages size = some (next.spanAt h).nPages
  kept : ∀ h ∈ next.handed, h ∈ s.handed → (s.pcs t).unsettled ≠ some h → Alike (s.spanAt h) (next.spanAt h)
  settled : ∀ size num h, s.pcs t = .fresh size num h → next.pcs t = .settled size num h ∧
    (next.spanAt h).nPages = (s.spanAt h).nPages ∧ (next.spanAt h).objSize = size
  given : ∀ h ∈ next.handed, h ∉ s.handed →
    (d.large (next.spanAt h).objSize = true ∨ (next.pcs t).unsettled = some h) ∧ ∀ k ∈ s.handed, k ∈ next.handed
  lost : ∀ h ∈ s.handed, h ∉ next.handed → next.mem = s.mem
  returns : ∀ a ∈ next.live, a ∉ s.live → ∃ h ∈ next.handed, a / pageBytes ∈ (next.spanAt h).extent ∧
    need ≤ d.width (next.spanAt h)

def Needs (d : Design) (Admits : Nat → Prop) (s : Heap) (need : Nat) : Action → Prop
  | .alloc _ size _ => Admits size ∧ size = need
  | .free _ _ => True
  | .next t _ => ∀ size, (s.pcs t).makes = some size → d.Tiling size ∧ need ≤ size

theorem Effect.still (sizes : ∀ size, (next.pcs t).makes = some size → d.Tiling size ∧ need ≤ size)
    (before : (s.pcs t).unsettled = none) (after : (next.pcs t).unsettled = none)
    (handed : ∀ h ∈ next.handed, h ∈ s.handed) (lost : ∀ h ∈ s.handed, h ∉ next.handed → next.mem = s.mem)
    (alike : ∀ h ∈ next.handed, Alike (s.spanAt h) (next.spanAt h))
    (returns : ∀ a ∈ next.live, a ∉ s.live → ∃ h ∈ next.handed, a / pageBytes ∈ (next.spanAt h).extent ∧
      need ≤ d.width (next.spanAt h)) : Effect d s next t need where
  sizes := sizes
  fresh := fun size num h at' => by rw [at'] at after; cases after
  kept := fun h handed _ _ => alike h handed
  settled := fun size num h at' => by rw [at'] at before; cases before
  given := fun h found absent => absurd (handed h found) absent
  lost := lost
  returns := returns

theorem takeRange_effect {num : Nat} (makes : (s.pcs t).makes = some size) (before : (s.pcs t).unsettled = none)
    (suits : ∀ size, (s.pcs t).makes = some size → d.Tiling size ∧ need ≤ size)
    (ran : s.takeRange t size num h = some next) : Effect d s next t need := by
  obtain ⟨start,_,ran⟩ := Option.bind_eq_some_iff.mp ran
  cases ran
  refine Effect.still ?sizes before ?after (fun k handed => handed) (fun k handed gone => absurd handed gone) ?alike
    fun a live absent => absurd live absent
  case sizes =>
    intro other makes'
    rw [setPc_same] at makes'
    exact suits other (makes.trans makes')
  case after => rw [setPc_same]; rfl
  case alike =>
    intro k _
    rw [setPc_spanAt]
    refine edit_alike _ ?_ k
    exact fun _ => ⟨rfl,rfl,rfl⟩

theorem listTooLong_alike {list : FreeList} (ran : s.listTooLong t index list = some next) :
    next.handed = s.handed ∧ next.live = s.live ∧ next.cache = s.cache ∧ ∃ start, next.pcs t = .returning index start := by
  obtain ⟨start,_,ran⟩ := Option.bind_eq_some_iff.mp ran
  obtain ⟨stop,_,ran⟩ := Option.bind_eq_some_iff.mp ran
  cases ran
  exact ⟨rfl,rfl,rfl,some start,setPc_same⟩

theorem Effect.aside (makes : (next.pcs t).makes = none)
    (before : (s.pcs t).unsettled = none) (handed : ∀ h ∈ next.handed, h ∈ s.handed)
    (lost : ∀ h ∈ s.handed, h ∉ next.handed → next.mem = s.mem)
    (alike : ∀ h ∈ next.handed, Alike (s.spanAt h) (next.spanAt h)) (live : ∀ a ∈ next.live, a ∈ s.live) :
    Effect d s next t need := by
  apply Effect.still _ before _ handed lost alike
  · exact fun a new absent => absurd (live a new) absent
  · intro size makes'
    rw [makes] at makes'; cases makes'
  · cases at' : next.pcs t with
    | fresh =>
      rw [at'] at makes
      cases makes
    | _ => rfl

theorem Effect.leaves {base : Heap} {pc : Pc} (makes : pc.makes = none) (before : (s.pcs t).unsettled = none)
    (handed : base.handed = s.handed) (live : base.live = s.live)
    (alike : ∀ h, Alike (s.spanAt h) (base.spanAt h)) : Effect d s (base.setPc t pc) t need := by
  have kept : (base.setPc t pc).handed = s.handed := handed
  exact .aside (by rw [setPc_same]; exact makes) before (fun h found => kept ▸ found)
    (fun h old gone => absurd (kept ▸ old) gone) (fun h _ => alike h) fun a found => live ▸ found

theorem deallocate_effect (freeing : s.pcs t = .freeing ptr h) (ran : s.deallocate d t h ptr = some next) :
    Effect d s next t need := by
  have before : (s.pcs t).unsettled = none := by rw [freeing]; rfl
  unfold deallocate at ran
  dsimp only at ran
  split at ran
  · cases ran
    exact .leaves rfl before rfl rfl fun _ => alike_refl
  · obtain ⟨_,ran⟩ := Option.ite_none_right_eq_some.mp ran
    obtain ⟨size,_,ran⟩ := Option.bind_eq_some_iff.mp ran
    obtain ⟨i,_,ran⟩ := Option.bind_eq_some_iff.mp ran
    split at ran
    · obtain ⟨handed,live,cache,start,at'⟩ := listTooLong_alike ran
      refine Effect.aside (s := s) (by rw [at']; rfl) before (fun k found => ?_)
        (fun k old gone => ?_) (fun k _ => ?_) fun a found => ?_
      · rwa [handed] at found
      · rw [handed] at gone
        exact absurd old gone
      · exact alike_of_eq (by rw [spanAt,cache,spanAt])
      · rwa [live] at found
    · cases ran
      exact .leaves rfl before rfl rfl fun _ => alike_refl

theorem putBack_effect {i cur : Nat} (laws : Laws d Good Ready Quiet Admits) (putting : s.pcs t = .putting i (some cur))
    (ran : s.putBack d t i cur = some next) : Effect d s next t need := by
  have before : (s.pcs t).unsettled = none := by rw [putting]; rfl
  obtain ⟨h,_,ran⟩ := Option.bind_eq_some_iff.mp ran
  have put : ∀ k, Alike (s.spanAt k) ((({s with mem := update s.mem cur (s.spanAt h).freeList} : Heap).edit h fun sp =>
      {sp with freeList := some cur, useCount := sp.useCount - 1}).spanAt k) :=
    edit_alike _ fun _ => ⟨rfl,rfl,rfl⟩
  dsimp only at ran
  split at ran
  · cases ran
    refine .leaves rfl before rfl rfl fun k => ?_
    have earlier := put k
    have retired := edit_alike (h := h) (s := ({s with mem := update s.mem cur (s.spanAt h).freeList} : Heap).edit h fun sp =>
      {sp with freeList := some cur, useCount := sp.useCount - 1}) d.retire (fun span => (laws.retired span).1) k
    exact ⟨retired.id.trans earlier.id,retired.nPages.trans earlier.nPages,retired.objSize.trans earlier.objSize⟩
  · cases ran
    exact .leaves rfl before rfl rfl put

theorem releaseSpan_effect {after : Pc} (laws : Laws d Good Ready Quiet Admits) (sound : Sound d Good Quiet s v)
    (handed : h ∈ s.handed) (quiet : Quiet (s.spanAt h)) (ready : Ready s.cache {k | k ∈ s.handed} h)
    (before : (s.pcs t).unsettled = none) (makes : after.makes = none) (ran : s.releaseSpan d t h after = some next) :
    Effect d s next t need := by
  obtain ⟨cache,released,ran⟩ := Option.bind_eq_some_iff.mp ran
  cases ran
  obtain ⟨_,same⟩ := laws.release sound.good handed quiet ready released
  refine .aside (by rw [setPc_same]; exact makes) before
    (fun k found => List.mem_of_mem_erase found) (fun _ _ _ => rfl) (fun k found => ?_) fun _ => id
  obtain ⟨other,old⟩ := (List.Nodup.mem_erase_iff sound.distinct).mp found
  exact alike_of_eq (same k old other)

theorem fetchSpan_effect {num : Nat} (laws : Laws d Good Ready Quiet Admits) (sound : Sound d Good Quiet s v)
    (lacking : s.pcs t = .lacking size num) (suits : ∀ size, (s.pcs t).makes = some size → d.Tiling size ∧ need ≤ size)
    (ran : s.fetchSpan d t size num page = some next) : Effect d s next t need := by
  have known := sound.knows t
  simp only [Knows,lacking] at known
  obtain ⟨i,sort⟩ := known
  obtain ⟨pages,counted,ran⟩ := Option.bind_eq_some_iff.mp ran
  obtain ⟨placed,ran⟩ := Option.ite_none_right_eq_some.mp ran
  obtain ⟨⟨cache,span⟩,given,ran⟩ := Option.bind_eq_some_iff.mp ran
  cases ran
  obtain ⟨new,_,count,_,same⟩ := laws.newSpan sound.good (laws.pages sort counted) placed.1 placed.2 given
  refine ⟨?_,?_,?_,?_,?_,fun _ _ _ => rfl,fun a live absent => absurd live absent⟩
  · intro other makes
    rw [setPc_same] at makes
    exact suits other (by rw [lacking]; exact makes)
  · intro other other' k at'
    rw [setPc_same] at at'
    cases at'
    exact counted.trans (congrArg some count.symm)
  · intro k _ old _
    exact alike_of_eq (same k old)
  · intro other other' k at'
    rw [lacking] at at'; cases at'
  · intro k found absent
    rcases List.mem_cons.mp found with rfl | old
    · exact ⟨.inr (by rw [setPc_same]; rfl),fun _ => List.mem_cons_of_mem _⟩
    · exact absurd old absent

theorem settleSpan_effect {num : Nat} (laws : Laws d Good Ready Quiet Admits) (sound : Sound d Good Quiet s v)
    (fresh : s.pcs t = .fresh size num h) (suits : ∀ size, (s.pcs t).makes = some size → d.Tiling size ∧ need ≤ size)
    (ran : s.settleSpan d t size num h = some next) : Effect d s next t need := by
  have known := sound.knows t
  simp only [Knows,fresh] at known
  obtain ⟨_,handed,_,quiet⟩ := known
  obtain ⟨settled,took,ran⟩ := Option.bind_eq_some_iff.mp ran
  cases ran
  obtain ⟨_,nPages,objSize,_⟩ := laws.settle quiet took
  refine ⟨?_,?_,?_,?_,fun k found absent => absurd found absent,
    fun _ => absurd,fun a live absent => absurd live absent⟩
  · intro other makes
    rw [setPc_same] at makes
    exact suits other (by rw [fresh]; exact makes)
  · intro other other' k at'
    rw [setPc_same] at at'; cases at'
  · intro k _ _ unlike
    have apart : k ≠ h := by
      rintro rfl
      exact unlike (by rw [fresh]; rfl)
    rw [setPc_spanAt,edit_other _ apart]
    exact alike_refl
  · intro other other' k at'
    rw [fresh] at at'
    cases at'
    rw [setPc_spanAt,edit_same]
    exact ⟨setPc_same,nPages,objSize⟩

theorem receive_effect {start stop count : Nat} (room : Room d Admits) (sound : Sound d Good Quiet s v)
    (received : s.pcs t = .received size start stop count)
    (suits : ∀ size, (s.pcs t).makes = some size → d.Tiling size ∧ need ≤ size)
    (ran : s.receive d t size start stop count = some next) : Effect d s next t need := by
  have before : (s.pcs t).unsettled = none := by rw [received]; rfl
  have known := sound.knows t
  have moving := sound.linked (.moving t)
  rw [Linked,received] at moving
  simp only [Knows,received] at known
  obtain ⟨i,sort⟩ := known
  obtain ⟨chain,final,_⟩ := moving
  obtain ⟨rest,kept⟩ := chain.nonempty
  obtain ⟨h,handed,out,block,fits⟩ := sound.source (.moving t) start (by rw [kept]; exact .head _)
  have class' : d.Class (s.spanAt h).objSize i := fits i (by rw [received]; exact sort.bucket)
  have wide : need ≤ d.width (s.spanAt h) := by
    rw [class'.width,room.single class' sort]
    exact (suits size (by rw [received]; rfl)).2
  have returns : ∀ a ∈ start :: s.live, a ∉ s.live → ∃ h ∈ s.handed, a / pageBytes ∈ (s.spanAt h).extent ∧
      need ≤ d.width (s.spanAt h) := by
    intro a found absent
    obtain rfl := (List.mem_cons.mp found).resolve_right absent
    exact ⟨h,handed,sound.inside handed out block,wide⟩
  obtain ⟨j,_,ran⟩ := Option.bind_eq_some_iff.mp ran
  dsimp only at ran
  split at ran
  · cases ran
    refine .still (fun other makes => ?_) before ?_ (fun _ => id)
      (fun _ => absurd) (fun _ _ => alike_refl) returns
    · rw [setPc_same] at makes; cases makes
    · rw [setPc_same]; rfl
  · cases ran
    refine .still (fun other makes => ?_) before ?_ (fun _ => id)
      (fun _ => absurd) (fun _ _ => alike_refl) returns
    · rw [setPc_same] at makes; cases makes
    · rw [setPc_same]; rfl

theorem allocateLarge_effect (laws : Laws d Good Ready Quiet Admits) (room : Room d Admits) (sound : Sound d Good Quiet s v)
    (idle : s.pcs t = .idle) (admitted : Admits size) (large : d.large size = true) (fits : need = size)
    (ran : s.allocateLarge d size page = some next) : Effect d s next t need := by
  dsimp only [allocateLarge] at ran
  obtain ⟨placed,ran⟩ := Option.ite_none_right_eq_some.mp ran
  obtain ⟨⟨cache,span⟩,given,ran⟩ := Option.bind_eq_some_iff.mp ran
  cases ran
  obtain ⟨new,_,count,_,same⟩ := laws.newSpan sound.good (laws.large admitted large) placed.1 placed.2 given
  have change : ∀ k, (cache.write span fun s => {s with objSize := size, useCount := 1, isUsed := true, freeList := none}).spans
      k = if k = span then {cache.spans span with objSize := size, useCount := 1, isUsed := true, freeList := none}
        else cache.spans k := fun k => by
    split
    · rename_i mine
      rw [mine]; exact PageCache.write_same _
    · rename_i other
      exact PageCache.write_other _ other
  refine ⟨?sizes,?fresh,?kept,?settled,?given,fun _ _ _ => rfl,?returns⟩
  case sizes =>
    intro other makes
    have nothing : (s.pcs t).makes = none := by rw [idle]; rfl
    cases nothing.symm.trans makes
  case fresh =>
    intro other other' k at'
    cases idle.symm.trans at'
  case kept =>
    intro k _ old _
    have other : k ≠ span := by
      rintro rfl
      exact new old
    exact alike_of_eq ((change k).trans ((if_neg other).trans (same k old)))
  case settled =>
    intro other other' k at'
    rw [idle] at at'; cases at'
  case given =>
    intro k found absent
    obtain rfl := (List.mem_cons.mp found).resolve_right absent
    refine ⟨.inl ?_,fun _ => List.mem_cons_of_mem _⟩
    rw [spanAt,change,if_pos rfl]; exact large
  case returns =>
    intro a found absent
    obtain rfl := (List.mem_cons.mp found).resolve_right absent
    refine ⟨span,.head _,?_,?_⟩
    · have some' : 1 ≤ (cache.spans span).nPages := count ▸ laws.large admitted large
      have first : (cache.spans span).id * pageBytes ∈ d.blocks {cache.spans span with objSize := size} := by
        rw [blocks_large large]; exact .head _
      rw [spanAt,change,if_pos rfl]
      exact blocks_inside (.inl large) some' first
    · rw [spanAt,change,if_pos rfl,Design.width,if_pos large,fits]
      dsimp only
      rw [count]
      exact room.wide admitted large

theorem allocate_effect (laws : Laws d Good Ready Quiet Admits) (room : Room d Admits) (sound : Sound d Good Quiet s v)
    (idle : s.pcs t = .idle) (admitted : Admits size) (small : d.large size = false) (fits : need = size)
    (ran : s.allocate d t size = some next) : Effect d s next t need := by
  have before : (s.pcs t).unsettled = none := by rw [idle]; rfl
  obtain ⟨i,found,ran⟩ := Option.bind_eq_some_iff.mp ran
  dsimp only at ran
  split at ran
  · rename_i block first
    cases ran
    obtain ⟨chain,_⟩ := sound.linked (.cached t i)
    rw [first] at chain
    obtain ⟨rest,kept⟩ := chain.nonempty
    obtain ⟨h,handed,out,inside,sort⟩ := sound.source (.cached t i) block (by rw [kept]; exact .head _)
    have class' : d.Class (s.spanAt h).objSize i := sort
    refine .still (fun other makes => ?_) before before (fun _ => id) (fun _ => absurd) (fun _ _ => alike_refl)
      fun a live absent => ?_
    · have nothing : (s.pcs t).makes = none := by rw [idle]; rfl
      cases nothing.symm.trans makes
    · obtain rfl := (List.mem_cons.mp live).resolve_right absent
      refine ⟨h,handed,sound.inside handed out inside,Nat.le_trans ?_ (Nat.le_of_eq class'.width.symm)⟩
      rw [room.single class' (laws.small admitted small found),fits]
      exact room.above admitted small
  · obtain ⟨_,_,ran⟩ := Option.bind_eq_some_iff.mp ran
    cases ran
    refine .still (fun other makes => ?_) before ?_ (fun _ => id)
      (fun _ => absurd) (fun _ _ => alike_refl) fun a live absent => absurd live absent
    · rw [setPc_same] at makes
      cases makes
      rw [fits]
      exact ⟨room.tiles admitted small,room.above admitted small⟩
    · rw [setPc_same]; rfl

theorem advance_effect (laws : Laws d Good Ready Quiet Admits) (room : Room d Admits) (sound : Sound d Good Quiet s v)
    (ready : ∀ h, (s.pcs t).gives = some h → Ready s.cache {k | k ∈ s.handed} h)
    (suits : ∀ size, (s.pcs t).makes = some size → d.Tiling size ∧ need ≤ size)
    (ran : s.advance d t page (s.pcs t) = some next) : Effect d s next t need := by
  have known := sound.knows t
  unfold Knows at known
  cases at' : s.pcs t with
  | idle => rw [at'] at ran; cases ran
  | fetching size num =>
    rw [at'] at ran
    obtain ⟨i,_,ran⟩ := Option.bind_eq_some_iff.mp ran
    obtain ⟨_,ran⟩ := Option.ite_none_right_eq_some.mp ran
    split at ran
    · exact takeRange_effect (by rw [at']; rfl) (by rw [at']; rfl) suits ran
    · cases ran
      refine .still (fun other makes => ?_) (by rw [at']; rfl) ?_ (fun _ => id)
        (fun _ => absurd) (fun _ _ => alike_refl) fun a live absent => absurd live absent
      · rw [setPc_same] at makes
        exact suits other (by rw [at']; exact makes)
      · rw [setPc_same]; rfl
  | lacking size num => rw [at'] at ran; exact fetchSpan_effect laws sound at' suits ran
  | fresh size num h => rw [at'] at ran; exact settleSpan_effect laws sound at' suits ran
  | settled size num h =>
    rw [at'] at ran
    cases ran
    refine .still (fun other makes => ?_) (by rw [at']; rfl) ?_ (fun _ => id)
      (fun _ => absurd) (fun k _ => ?_) fun a live absent => absurd live absent
    · unfold carveSpan at makes
      rw [setPc_same] at makes
      exact suits other (by rw [at']; exact makes)
    · rw [carveSpan,setPc_same]; rfl
    · rw [carveSpan,setPc_spanAt]
      refine edit_alike _ ?_ k
      exact fun _ => ⟨rfl,rfl,rfl⟩
  | carved size num h =>
    rw [at'] at ran
    obtain ⟨i,_,ran⟩ := Option.bind_eq_some_iff.mp ran
    obtain ⟨_,ran⟩ := Option.ite_none_right_eq_some.mp ran
    have taken := takeRange_effect (s := {s with buckets := update s.buckets i (h :: s.buckets i)})
      (show (s.pcs t).makes = some size by rw [at']; rfl) (show (s.pcs t).unsettled = none by rw [at']; rfl) suits ran
    exact ⟨taken.sizes,taken.fresh,taken.kept,taken.settled,taken.given,taken.lost,taken.returns⟩
  | received size start stop count => rw [at'] at ran; exact receive_effect room sound at' suits ran
  | freeing ptr h => rw [at'] at ran; exact deallocate_effect at' ran
  | returning i cur =>
    rw [at'] at ran
    simp only [advance] at ran
    obtain ⟨_,equal⟩ := Option.ite_none_right_eq_some.mp ran
    cases equal
    exact .leaves rfl (by rw [at']; rfl) rfl rfl fun _ => alike_refl
  | putting i cur =>
    rw [at'] at ran
    cases cur with
    | none =>
      cases ran
      exact .leaves rfl (by rw [at']; rfl) rfl rfl fun _ => alike_refl
    | some cur => exact putBack_effect laws at' ran
  | releasing i h after =>
    simp only [at'] at known
    rw [at'] at ran ready
    exact releaseSpan_effect laws sound known.1 known.2.2 (ready h rfl) (by rw [at']; rfl) rfl ran
  | dropping h =>
    simp only [at'] at known
    rw [at'] at ran ready
    exact releaseSpan_effect laws sound known.1 known.2.2.2 (ready h rfl) (by rw [at']; rfl) rfl ran

theorem step_effect (laws : Laws d Good Ready Quiet Admits) (room : Room d Admits) (sound : Sound d Good Quiet s v)
    (guarded : Guard Ready Admits s action) (needs : Needs d Admits s need action) (stepped : s.step d action = some next) :
    Effect d s next action.thread need := by
  cases action with
  | alloc t size page =>
    obtain ⟨admitted,fits⟩ := needs
    simp only [Heap.step] at stepped
    split at stepped
    · rename_i idle
      split at stepped
      · rename_i large
        exact allocateLarge_effect laws room sound idle admitted large fits.symm stepped
      · rename_i small
        have flagged := sound.flags (update s.started t true) s.locks
        have made := allocate_effect laws room flagged idle admitted (Bool.eq_false_of_not_eq_true small) fits.symm stepped
        exact ⟨made.sizes,made.fresh,made.kept,made.settled,made.given,made.lost,made.returns⟩
    · cases stepped
  | free t ptr =>
    simp only [Heap.step] at stepped
    split at stepped
    · rename_i idle
      obtain ⟨_,stepped⟩ := Option.ite_none_right_eq_some.mp stepped
      obtain ⟨_,_,equal⟩ := Option.map_eq_some_iff.mp stepped
      cases equal
      exact .aside (by rw [Action.thread,setPc_same]; rfl) (by rw [Action.thread,idle]; rfl)
        (fun _ => id) (fun _ => absurd) (fun _ _ => alike_refl) fun a live => List.mem_of_mem_erase live
    · cases stepped
  | next t page => exact advance_effect laws room sound guarded needs stepped

theorem Sound.unsettled (sound : Sound d Good Quiet s v) (at' : (s.pcs t).unsettled = some h) :
    h ∈ s.handed ∧ v.stage h = .making t := by
  have known := sound.knows t
  cases pc : s.pcs t with
  | fresh size num k =>
    rw [pc] at at'
    cases at'
    simp only [Knows,pc] at known
    exact ⟨known.2.1,known.2.2.1⟩
  | _ =>
    rw [pc] at at'
    cases at'

theorem Sound.unsettled_alone (sound : Sound d Good Quiet s v) (at' : (s.pcs t).unsettled = some h)
    (at'' : (s.pcs u).unsettled = some h) : t = u := by
  have same := (sound.unsettled at').2.symm.trans (sound.unsettled at'').2
  cases same
  rfl

theorem Tiled.step (tiled : Tiled d s) (sound : Sound d Good Quiet s v) (later : Sound d Good Quiet next w)
    (own : Section s next t) (effect : Effect d s next t need) : Tiled d next := by
  refine ⟨?_,?_,?_⟩
  · intro u size makes
    by_cases mine : u = t
    · subst u; exact (effect.sizes size makes).1
    · rw [own.pcs u mine] at makes
      exact tiled.sizes u size makes
  · intro u size num h at'
    by_cases mine : u = t
    · subst u; exact effect.fresh size num h at'
    · have still : (next.pcs u).unsettled = some h := by rw [at']; rfl
      rw [own.pcs u mine] at at'
      have before : (s.pcs u).unsettled = some h := by rw [at']; rfl
      have apart : (s.pcs t).unsettled ≠ some h := fun same => mine (sound.unsettled_alone before same)
      have alike := effect.kept h (later.unsettled still).1 (sound.unsettled before).1 apart
      rw [alike.nPages]; exact tiled.fresh u size num h at'
  · intro h handed seen small
    by_cases old : h ∈ s.handed
    · by_cases mine : (s.pcs t).unsettled = some h
      · obtain ⟨size,num,at'⟩ := Pc.unsettled_of mine
        obtain ⟨_,nPages,objSize⟩ := effect.settled size num h at'
        rw [nPages,objSize]
        exact tiled.sizes t size (by rw [at']; rfl) _ (tiled.fresh t size num h at')
      · have alike := effect.kept h handed old mine
        have settled : ∀ u, (s.pcs u).unsettled ≠ some h := by
          intro u
          by_cases same : u = t
          · rw [same]; exact mine
          · rw [← own.pcs u same]; exact seen u
        rw [alike.objSize] at small ⊢
        rw [alike.nPages]
        exact tiled.spans h old settled small
    · rcases (effect.given h handed old).1 with large | unsettled
      · rw [small] at large; cases large
      · exact absurd unsettled (seen t)

theorem tiled_start : Tiled d {} := ⟨nofun,nofun,nofun⟩

theorem Tiled.cut (tiled : Tiled d s) (room : Room d Admits) (sound : Sound d Good Quiet s v) (handed : h ∈ s.handed)
    (out : (v.stage h).Circulates) : Cut d (s.spanAt h) := by
  refine ⟨sound.positive h handed,fun small => ?_,tiled.spans h handed fun t unsettled => ?_⟩
  · rcases sound.sorted h handed out with ⟨_,large⟩ | ⟨_,i,sort,_⟩
    · rw [small] at large; cases large
    · exact room.word sort
  · exact making_hidden (sound.unsettled unsettled).2 out

theorem Tiled.cut_settled {num : Nat} (tiled : Tiled d s) (room : Room d Admits) (sound : Sound d Good Quiet s v)
    (settled : s.pcs t = .settled size num h) : h ∈ s.handed ∧ ¬(v.stage h).Circulates ∧ Cut d (s.spanAt h) := by
  have known := sound.knows t
  simp only [Knows,settled] at known
  obtain ⟨⟨i,sort⟩,handed,stage,objSize,_⟩ := known
  refine ⟨handed,making_hidden stage,sound.positive h handed,fun _ => objSize ▸ room.word sort,
    tiled.spans h handed fun u unsettled => ?_⟩
  cases stage.symm.trans (sound.unsettled unsettled).2
  rw [settled] at unsettled
  cases unsettled

end Heap
end LinuxOS.Blocks
