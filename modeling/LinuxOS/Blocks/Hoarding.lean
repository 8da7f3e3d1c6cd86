import LinuxOS.Blocks.Residents

namespace LinuxOS.Blocks
open Function (update)
open Links Pages Places
variable {d : Design} {Good : PageCache → Set Nat → Prop} {Ready : PageCache → Set Nat → Nat → Prop}
variable {Quiet : Span → Prop} {Admits : Nat → Prop}
variable {s next : Heap} {v w : View} {a h t size num span page : Nat} {c : Place} {cells : List Nat}
variable {action : Action} {actions : List Action}

namespace Heap

-- A span in a bucket, or one of a large request, has a block that is not in it.
def Useful (d : Design) (s : Heap) : Prop := ∀ h, s.Central h →
  (∃ i, h ∈ s.buckets i) ∨ d.large (s.spanAt h).objSize = true → 1 ≤ (s.spanAt h).useCount

structure Stays (s next : Heap) (h : Nat) : Prop where
  central : s.Central h
  listed : ∀ i, h ∈ next.buckets i → h ∈ s.buckets i
  sort : (next.spanAt h).objSize = (s.spanAt h).objSize
  count : (s.spanAt h).useCount ≤ (next.spanAt h).useCount

theorem Useful.step (useful : Useful d s) (each : ∀ h, next.Central h → Stays s next h ∨
    1 ≤ (next.spanAt h).useCount ∨ d.large (next.spanAt h).objSize = false ∧ ∀ i, h ∉ next.buckets i) :
    Useful d next := by
  intro h central cause
  rcases each h central with stays | counted | ⟨small,absent⟩
  · have before : (∃ i, h ∈ s.buckets i) ∨ d.large (s.spanAt h).objSize = true := by
      rcases cause with ⟨i,listed⟩ | large
      · exact .inl ⟨i,stays.listed i listed⟩
      · exact .inr (by rw [← stays.sort]; exact large)
    exact Int.le_trans (useful h stays.central before) stays.count
  · exact counted
  · rcases cause with ⟨i,listed⟩ | large
    · exact absurd listed (absent i)
    · rw [small] at large; cases large

theorem central_back (central : next.Central h) (handed : h ∈ s.handed) (others : ∀ u, u ≠ t → next.pcs u = s.pcs u)
    (open' : (s.pcs t).aside ≠ some h) : s.Central h := by
  refine ⟨handed,fun u => ?_⟩
  by_cases same : u = t
  · rw [same]; exact open'
  · rw [← others u same]; exact central.2 u

theorem stays_still (central : s.Central h) (listed : ∀ i, h ∈ next.buckets i → h ∈ s.buckets i)
    (same : next.spanAt h = s.spanAt h) : Stays s next h := ⟨central,listed,by rw [same],by rw [same]⟩

theorem stays_same (cache : next.cache = s.cache) (buckets : next.buckets = s.buckets)
    (handed : next.handed = s.handed) (others : ∀ u, u ≠ t → next.pcs u = s.pcs u) (free : (s.pcs t).aside = none)
    (central : next.Central h) : Stays s next h := by
  apply stays_still
  · exact central_back central (by rw [← handed]; exact central.1) others (by rw [free]; nofun)
  · intro i; rw [buckets]; exact id
  · rw [spanAt,cache]; rfl

theorem Useful.same (useful : Useful d s) (cache : next.cache = s.cache) (buckets : next.buckets = s.buckets)
    (handed : next.handed = s.handed) (others : ∀ u, u ≠ t → next.pcs u = s.pcs u) (free : (s.pcs t).aside = none) :
    Useful d next :=
  useful.step fun _ central => .inl (stays_same cache buckets handed others free central)

theorem Useful.allocate (useful : Useful d s) (idle : s.pcs t = .idle) (ran : s.allocate d t size = some next) :
    Useful d next := by
  obtain ⟨index,_,ran⟩ := Option.bind_eq_some_iff.mp ran
  have free : (s.pcs t).aside = none := by rw [idle]; rfl
  dsimp only at ran
  split at ran
  · cases ran
    exact useful.same rfl rfl rfl (fun _ _ => rfl) free
  · obtain ⟨batch,_,ran⟩ := Option.bind_eq_some_iff.mp ran
    cases ran
    exact useful.same rfl rfl rfl (fun _ other => setPc_other other) free

theorem Useful.allocateLarge (laws : Laws d Good Ready Quiet Admits) (sound : Sound d Good Quiet s v)
    (useful : Useful d s) (positive : 1 ≤ d.largePages size) (ran : s.allocateLarge d size page = some next) :
    Useful d next := by
  unfold Heap.allocateLarge at ran
  obtain ⟨placed,ran⟩ := Option.ite_none_right_eq_some.mp ran
  obtain ⟨⟨cache,span⟩,served,equal⟩ := Option.bind_eq_some_iff.mp ran
  cases equal
  obtain ⟨absent,_,_,_,frame⟩ := laws.newSpan sound.good positive placed.1 placed.2 served
  refine useful.step fun h central => ?_
  by_cases same : h = span
  · subst same
    right; left
    simp [spanAt,PageCache.write_same]
  · have handed : h ∈ s.handed := (List.mem_cons.mp central.1).resolve_left same
    left
    refine stays_still ⟨handed,central.2⟩ (fun _ listed => listed) ?_
    simp only [spanAt,PageCache.write_other _ same,frame h handed]

theorem walk_counts (link : Nat → Option Nat) (n a k : Nat) : k ≤ (walk link n a k).2 := by
  induction n generalizing a k with
  | zero => exact Nat.le_refl k
  | succ n ih =>
    rw [walk]
    split
    · exact Nat.le_trans (Nat.le_succ k) (ih _ _)
    · exact Nat.le_refl k

theorem takeRange_facts (ran : s.takeRange t size num span = some next) :
    next.buckets = s.buckets ∧ next.handed = s.handed ∧ (∀ u, u ≠ t → next.pcs u = s.pcs u) ∧
      (next.spanAt span).useCount ≥ (s.spanAt span).useCount + 1 ∧
      (∀ h, (next.spanAt h).objSize = (s.spanAt h).objSize ∧ (s.spanAt h).useCount ≤ (next.spanAt h).useCount) := by
  obtain ⟨start,_,ran⟩ := Option.bind_eq_some_iff.mp ran
  have counted := walk_counts s.mem (num-1) start 1
  obtain ⟨⟨stop,count⟩,walked⟩ : ∃ w, walk s.mem (num-1) start 1 = w := ⟨_,rfl⟩
  rw [walked] at ran counted
  cases ran
  refine ⟨rfl,rfl,fun _ other => setPc_other other,?_,fun h => ?_⟩
  · rw [setPc_spanAt,edit_same]
    exact Int.add_le_add_left (Int.ofNat_le.mpr counted) _
  · by_cases same : h = span
    · subst same
      rw [setPc_spanAt,edit_same]
      exact ⟨rfl,Int.le_add_of_nonneg_right (Int.natCast_nonneg _)⟩
    · rw [setPc_spanAt,edit_other _ same]
      exact ⟨rfl,Int.le_refl _⟩

theorem Useful.fetchRange (useful : Useful d s) (at' : s.pcs t = .fetching size num)
    (ran : s.fetchRange d t size num = some next) : Useful d next := by
  have free : (s.pcs t).aside = none := by rw [at']; rfl
  obtain ⟨index,_,ran⟩ := Option.bind_eq_some_iff.mp ran
  obtain ⟨_,ran⟩ := Option.ite_none_right_eq_some.mp ran
  split at ran
  · obtain ⟨buckets,handed,others,_,spans⟩ := takeRange_facts ran
    refine useful.step fun h central => .inl ⟨?_,fun i => by rw [buckets]; exact id,(spans h).1,(spans h).2⟩
    exact central_back central (by rw [← handed]; exact central.1) others (by rw [free]; nofun)
  · cases ran
    exact useful.same rfl rfl rfl (fun _ other => setPc_other other) free

theorem aside_other (central : next.Central h) (at' : (next.pcs t).aside = some span) : h ≠ span := by
  rintro rfl
  exact central.2 t at'

theorem Useful.fetchSpan (laws : Laws d Good Ready Quiet Admits) (sound : Sound d Good Quiet s v) (useful : Useful d s)
    (at' : s.pcs t = .lacking size num) (ran : s.fetchSpan d t size num page = some next) : Useful d next := by
  have known := sound.knows t
  simp only [Knows,at'] at known
  obtain ⟨index,sort⟩ := known
  obtain ⟨pages,counted,ran⟩ := Option.bind_eq_some_iff.mp ran
  obtain ⟨placed,ran⟩ := Option.ite_none_right_eq_some.mp ran
  obtain ⟨⟨cache,span⟩,served,equal⟩ := Option.bind_eq_some_iff.mp ran
  cases equal
  obtain ⟨_,_,_,_,frame⟩ := laws.newSpan sound.good (laws.pages sort counted) placed.1 placed.2 served
  refine useful.step fun h central => .inl ?_
  have other : h ≠ span := aside_other central (by rw [setPc_same]; rfl)
  have handed : h ∈ s.handed := (List.mem_cons.mp central.1).resolve_left other
  refine stays_still (central_back central handed (fun _ other => setPc_other other) ?_)
    (fun _ listed => listed) (frame h handed)
  rw [at']
  intro same
  cases same

theorem Useful.settleSpan (useful : Useful d s) (at' : s.pcs t = .fresh size num span)
    (ran : s.settleSpan d t size num span = some next) : Useful d next := by
  obtain ⟨settled,_,equal⟩ := Option.bind_eq_some_iff.mp ran
  cases equal
  refine useful.step fun h central => .inl ?_
  have other : h ≠ span := aside_other central (by rw [setPc_same]; rfl)
  refine stays_still (central_back central central.1 (fun _ other => setPc_other other) ?_) (fun _ listed => listed)
    (by rw [setPc_spanAt,edit_other _ other])
  rw [at']
  intro same
  cases same; exact other rfl

theorem Useful.carveSpan (sound : Sound d Good Quiet s v) (useful : Useful d s) (at' : s.pcs t = .settled size num span) :
    Useful d (s.carveSpan t size num span) := by
  have known := sound.knows t
  simp only [Knows,at'] at known
  obtain ⟨⟨index,sort⟩,_,making,same_size,_⟩ := known
  refine useful.step fun h central => ?_
  by_cases same : h = span
  · subst same
    right; right
    constructor
    · simp only [Heap.carveSpan,setPc_spanAt,edit_same]
      show d.large (s.spanAt h).objSize = false
      rw [same_size]; exact sort.small
    · intro i listed
      have stage := ((sound.listed i h).mp listed).2
      rw [making] at stage
      cases stage
  · left
    refine stays_still (central_back central central.1 (fun _ other => setPc_other other) ?_) (fun _ listed => listed)
      (by rw [Heap.carveSpan,setPc_spanAt,edit_other _ same]; rfl)
    rw [at']
    intro equal
    cases equal; exact same rfl

-- The span is listed and blocks are taken out of it under one lock.
theorem Useful.listSpan (sound : Sound d Good Quiet s v) (useful : Useful d s) (at' : s.pcs t = .carved size num span)
    (ran : s.listSpan d t size num span = some next) : Useful d next := by
  obtain ⟨index,_,ran⟩ := Option.bind_eq_some_iff.mp ran
  obtain ⟨_,ran⟩ := Option.ite_none_right_eq_some.mp ran
  obtain ⟨buckets,handed,others,taken,spans⟩ := takeRange_facts ran
  have own := sound.count span
  refine useful.step fun h central => ?_
  have member : h ∈ next.handed := central.1
  rw [handed] at member
  have central' : s.Central h := central_back central member others (by rw [at']; nofun)
  by_cases same : h = span
  · subst same
    right; left
    have moves := sound.circulates central'
    have count := own central'.1 moves
    have inside : ∀ a ∈ v.kept (.own h), a ∈ d.blocks (s.spanAt h) := fun a member => (sound.own_of member).2.2
    have length := length_without (blocks_nodup (sound.sized central'.1 moves) (sound.positive h central'.1))
      (sound.apart.nodup (.own h)) inside
    have start : (s.spanAt h).useCount ≤ _ := Int.le_refl _
    have taken : (next.spanAt h).useCount ≥ (s.spanAt h).useCount + 1 := taken
    omega
  · left
    refine ⟨central',fun i listed => ?_,(spans h).1,(spans h).2⟩
    rw [buckets] at listed
    by_cases here : i = index
    · subst here
      have listed : h ∈ span :: s.buckets i := by simpa using listed
      exact (List.mem_cons.mp listed).resolve_left same
    · simpa [Function.update_of_ne here] using listed

theorem Useful.receive (useful : Useful d s) (at' : s.pcs t = .received size start stop count)
    (ran : s.receive d t size start stop count = some next) : Useful d next := by
  have free : (s.pcs t).aside = none := by rw [at']; rfl
  obtain ⟨index,_,ran⟩ := Option.bind_eq_some_iff.mp ran
  by_cases more : 1 < count
  · simp only [if_pos more] at ran
    cases ran
    exact useful.same rfl rfl rfl (fun _ other => setPc_other other) free
  · simp only [if_neg more] at ran
    cases ran
    exact useful.same rfl rfl rfl (fun _ other => setPc_other other) free

theorem Useful.deallocate (useful : Useful d s) (at' : s.pcs t = .freeing ptr span)
    (ran : s.deallocate d t span ptr = some next) : Useful d next := by
  have free : (s.pcs t).aside = none := by rw [at']; rfl
  unfold Heap.deallocate at ran
  dsimp only at ran
  split at ran
  · cases ran
    exact useful.same rfl rfl rfl (fun _ other => setPc_other other) free
  · obtain ⟨_,ran⟩ := Option.ite_none_right_eq_some.mp ran
    obtain ⟨size,_,ran⟩ := Option.bind_eq_some_iff.mp ran
    obtain ⟨index,_,ran⟩ := Option.bind_eq_some_iff.mp ran
    split at ran
    · obtain ⟨stop,_,ran⟩ := Option.bind_eq_some_iff.mp ran
      cases ran
      exact useful.same rfl rfl rfl (fun _ other => setPc_other other) free
    · cases ran
      exact useful.same rfl rfl rfl (fun _ other => setPc_other other) free

-- A span whose last block comes back leaves its bucket under the same lock.
theorem Useful.putBack (useful : Useful d s) (later : Sound d Good Quiet next w)
    (at' : s.pcs t = .putting index (some cur)) (ran : s.putBack d t index cur = some next) : Useful d next := by
  obtain ⟨span,_,ran⟩ := Option.bind_eq_some_iff.mp ran
  dsimp only at ran
  split at ran
  · cases ran
    refine useful.step fun h central => .inl ?_
    have other : h ≠ span := aside_other central (by rw [setPc_same]; rfl)
    refine stays_still (central_back central central.1 (fun _ other => setPc_other other) (by rw [at']; nofun))
      (fun i listed => List.mem_of_mem_erase listed) ?_
    rw [setPc_spanAt,edit_other _ other]
    simp only [spanAt,edit,PageCache.write_other _ other]
  · rename_i left
    cases ran
    refine useful.step fun h central => ?_
    by_cases same : h = span
    · subst same
      right; left
      have moves := later.circulates central
      have count := later.count h central.1 moves
      have inside : ∀ a ∈ w.kept (.own h), a ∈ d.blocks _ := fun a member => (later.own_of member).2.2
      have length := length_without (blocks_nodup (later.sized central.1 moves) (later.positive h central.1))
        (later.apart.nodup (.own h)) inside
      rw [setPc_spanAt] at count length ⊢
      omega
    · left
      refine stays_still (central_back central central.1 (fun _ other => setPc_other other) (by rw [at']; nofun))
        (fun _ listed => listed) ?_
      rw [setPc_spanAt,edit_other _ same]
      rfl

theorem Useful.releaseSpan (laws : Laws d Good Ready Quiet Admits) (sound : Sound d Good Quiet s v) (useful : Useful d s)
    (gives : (s.pcs t).gives = some span) (quiet : Quiet (s.spanAt span))
    (ready : Ready s.cache {k | k ∈ s.handed} span) (ran : s.releaseSpan d t span after = some next) :
    Useful d next := by
  obtain ⟨cache,released,equal⟩ := Option.bind_eq_some_iff.mp ran
  cases equal
  obtain ⟨_,frame⟩ := laws.release sound.good (sound.gives_handed gives) quiet ready released
  refine useful.step fun h central => .inl ?_
  obtain ⟨other,handed⟩ := (sound.distinct.mem_erase_iff).mp central.1
  refine stays_still (central_back central handed (fun _ other => setPc_other other) ?_) (fun _ listed => listed)
    (frame h handed other)
  rw [gives_aside gives]
  intro same
  cases same; exact other rfl

theorem Useful.advance (laws : Laws d Good Ready Quiet Admits) (sound : Sound d Good Quiet s v) (useful : Useful d s)
    (later : Sound d Good Quiet next w) (ready : ∀ h, (s.pcs t).gives = some h → Ready s.cache {k | k ∈ s.handed} h)
    (ran : s.advance d t page (s.pcs t) = some next) : Useful d next := by
  have known := sound.knows t
  unfold Knows at known
  cases at' : s.pcs t with
  | idle => rw [at'] at ran; cases ran
  | fetching size num => rw [at'] at ran; exact useful.fetchRange at' ran
  | lacking size num => rw [at'] at ran; exact useful.fetchSpan laws sound at' ran
  | fresh size num span => rw [at'] at ran; exact useful.settleSpan at' ran
  | settled size num span =>
    rw [at'] at ran
    cases ran
    exact useful.carveSpan sound at'
  | carved size num span => rw [at'] at ran; exact useful.listSpan sound at' ran
  | received size start stop count => rw [at'] at ran; exact useful.receive at' ran
  | freeing ptr span => rw [at'] at ran; exact useful.deallocate at' ran
  | returning index cur =>
    rw [at'] at ran
    simp only [Heap.advance] at ran
    obtain ⟨_,equal⟩ := Option.ite_none_right_eq_some.mp ran
    cases equal
    exact useful.same rfl rfl rfl (fun _ other => setPc_other other) (by rw [at']; rfl)
  | putting index cur =>
    rw [at'] at ran
    cases cur with
    | none =>
      cases ran
      exact useful.same rfl rfl rfl (fun _ other => setPc_other other) (by rw [at']; rfl)
    | some cur => exact useful.putBack later at' ran
  | releasing index span after =>
    simp only [at'] at known
    have gives : (s.pcs t).gives = some span := by rw [at']; rfl
    rw [at'] at ran
    exact useful.releaseSpan laws sound gives known.2.2 (ready span gives) ran
  | dropping span =>
    simp only [at'] at known
    have gives : (s.pcs t).gives = some span := by rw [at']; rfl
    rw [at'] at ran
    exact useful.releaseSpan laws sound gives known.2.2.2 (ready span gives) ran

theorem Useful.stepped (laws : Laws d Good Ready Quiet Admits) (sound : Sound d Good Quiet s v) (useful : Useful d s)
    (later : Sound d Good Quiet next w) (guarded : Guard Ready Admits s action)
    (stepped : s.step d action = some next) : Useful d next := by
  cases action with
  | alloc t size page =>
    simp only [Heap.step] at stepped
    split at stepped
    · rename_i idle
      split at stepped
      · rename_i large
        exact useful.allocateLarge laws sound (laws.large guarded large) stepped
      · have flagged : Useful d {s with started := update s.started t true} := useful
        exact flagged.allocate idle stepped
    · cases stepped
  | free t ptr =>
    simp only [Heap.step] at stepped
    split at stepped
    · rename_i idle
      obtain ⟨_,stepped⟩ := Option.ite_none_right_eq_some.mp stepped
      obtain ⟨span,_,equal⟩ := Option.map_eq_some_iff.mp stepped
      cases equal
      exact useful.same rfl rfl rfl (fun _ other => setPc_other other) (by rw [idle]; rfl)
    · cases stepped
  | next t page => exact useful.advance laws sound later guarded stepped

theorem run_useful (laws : Laws d Good Ready Quiet Admits)
    (admitted : Machine.Throughout (Heap.step d) (Guard Ready Admits) {} actions)
    (ran : Machine.run (Heap.step d) {} actions = some s) : ∃ v, Sound d Good Quiet s v ∧ Useful d s := by
  have start : Useful d {} := fun h central => absurd central.1 List.not_mem_nil
  apply Machine.run_keeps _ ⟨_,sound_start laws,start⟩ admitted ran
  rintro s action next ⟨v,sound,useful⟩ guarded stepped
  obtain ⟨w,later⟩ := sound.step laws guarded stepped
  exact ⟨w,later,useful.stepped laws sound later guarded stepped⟩

def InUse (d : Design) (s : Heap) (h : Nat) : Prop :=
  ∃ a ∈ d.blocks (s.spanAt h), ∃ c, s.Keeps c a ∧ ∀ k, c ≠ .own k

-- The central cache keeps no span all of whose blocks have come back; one that is
-- about to be listed is the exception. So it has nothing left once the users and
-- the threads have nothing.
structure Frugal (d : Design) (s : Heap) : Prop where
  used : ∀ h, s.Central h → (∃ t size num, s.pcs t = .carved size num h) ∨ InUse d s h
  drained : (∀ t, s.pcs t = .idle) → s.live = [] → (∀ t index, (s.lists t index).freeList = none) →
    s.handed = [] ∧ ∀ i, s.buckets i = []

theorem Sound.in_use (laws : Laws d Good Ready Quiet Admits) (sound : Sound d Good Quiet s v) (central : s.Central h)
    (positive : 1 ≤ (s.spanAt h).useCount) : InUse d s h := by
  have moves := sound.circulates central
  have count := sound.count h central.1 moves
  have inside : ∀ a ∈ v.kept (.own h), a ∈ d.blocks (s.spanAt h) := fun a member => (sound.own_of member).2.2
  have length := length_without (blocks_nodup (sound.sized central.1 moves) (sound.positive h central.1))
    (sound.apart.nodup (.own h)) inside
  obtain ⟨a,member⟩ := List.exists_mem_of_length_pos
    (show 0 < ((d.blocks (s.spanAt h)).filter (· ∉ v.kept (.own h))).length by omega)
  obtain ⟨block,absent⟩ := List.mem_filter.mp member
  obtain ⟨c,kept⟩ := sound.every h central.1 moves a block
  have out : ∀ k, c ≠ .own k := by
    rintro k rfl
    obtain ⟨_,_,home⟩ := sound.home laws kept central.1 (sound.inside central.1 moves block)
    have same : k = h := home
    rw [same] at kept
    exact of_decide_eq_true absent kept
  exact ⟨a,block,c,sound.keeps.mpr ⟨kept,fun k same => absurd same (out k)⟩,out⟩

theorem Sound.working (sound : Sound d Good Quiet s v) (central : s.Central h) (holder : (v.stage h).holder = some t) :
    ∃ size num, s.pcs t = .carved size num h := by
  have works := sound.owner h central.1 t holder
  cases at' : s.pcs t with
  | carved size num k =>
    rw [at'] at works
    cases works
    exact ⟨size,num,rfl⟩
  | fresh | settled | releasing | dropping =>
    rw [at'] at works
    cases works
    exact absurd (by rw [at']; rfl) (central.2 t)
  | _ =>
    rw [at'] at works
    cases works

theorem Useful.used (laws : Laws d Good Ready Quiet Admits) (sound : Sound d Good Quiet s v) (useful : Useful d s)
    (central : s.Central h) : (∃ t size num, s.pcs t = .carved size num h) ∨ InUse d s h := by
  cases stage : v.stage h with
  | making t =>
    have moves := sound.circulates central
    rw [stage] at moves
    exact moves.elim
  | ready t | parting t => exact .inl ⟨t,sound.working central (by rw [stage]; rfl)⟩
  | listed i =>
    have listed : h ∈ s.buckets i := (sound.listed i h).mpr ⟨central.1,stage⟩
    exact .inr (sound.in_use laws central (useful h central (.inl ⟨i,listed⟩)))
  | large =>
    rcases sound.sorted h central.1 (sound.circulates central) with ⟨_,large⟩ | ⟨other,_⟩
    · exact .inr (sound.in_use laws central (useful h central (.inr large)))
    · exact absurd stage other

theorem run_frugal (laws : Laws d Good Ready Quiet Admits)
    (admitted : Machine.Throughout (Heap.step d) (Guard Ready Admits) {} actions)
    (ran : Machine.run (Heap.step d) {} actions = some s) : Frugal d s := by
  obtain ⟨v,sound,useful⟩ := run_useful laws admitted ran
  refine ⟨fun h central => useful.used laws sound central,fun idle users threads => ?_⟩
  have none : ∀ h, h ∉ s.handed := by
    intro h handed
    have central : s.Central h := ⟨handed,fun t => by rw [idle t]; nofun⟩
    rcases useful.used laws sound central with ⟨t,size,num,at'⟩ | ⟨a,_,c,⟨cells,found,member⟩,out⟩
    · rw [idle t] at at'; cases at'
    · cases c with
      | live =>
        have same : cells = s.live := found
        rw [same,users] at member
        cases member
      | cached t index =>
        have chain : Chain s.mem (s.lists t index).freeList cells := found
        rw [threads t index] at chain
        cases cells with
        | nil => cases member
        | cons b rest => cases chain.1
      | moving t =>
        have holds : (s.pcs t).Holds s.mem cells := found
        rw [idle t] at holds
        have same : cells = [] := holds
        rw [same] at member
        cases member
      | own k => exact out k rfl
  refine ⟨List.eq_nil_iff_forall_not_mem.mpr none,fun i => List.eq_nil_iff_forall_not_mem.mpr fun h listed => ?_⟩
  exact none h ((sound.listed i h).mp listed).1

end Heap
end LinuxOS.Blocks
