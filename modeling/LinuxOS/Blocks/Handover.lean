import LinuxOS.Blocks.Frame

namespace LinuxOS.Blocks
open Function (update)
open Links Pages Places
variable {d : Design} {Good : PageCache → Set Nat → Prop} {Ready : PageCache → Set Nat → Nat → Prop}
variable {Quiet : Span → Prop} {Admits : Nat → Prop}
variable {s next : Heap} {v w : View} {a h k t u i : Nat} {c x : Place} {cells : List Nat} {stage : Stage}

namespace Heap

def Of (d : Design) (s : Heap) (v : View) (h a : Nat) : Prop :=
  h ∈ s.handed ∧ (v.stage h).Circulates ∧ a ∈ d.blocks (s.spanAt h)

def handOver (v : View) (h : Nat) (stage : Stage) (c : Place) (cells : List Nat) : View :=
  ⟨update v.kept c cells,update v.stage h stage⟩

@[simp] theorem handOver_kept : (handOver v h stage c cells).kept c = cells := Function.update_self ..

theorem handOver_kept_other (other : x ≠ c) : (handOver v h stage c cells).kept x = v.kept x :=
  Function.update_of_ne other ..

@[simp] theorem handOver_stage : (handOver v h stage c cells).stage h = stage := Function.update_self ..

theorem handOver_stage_other (other : k ≠ h) : (handOver v h stage c cells).stage k = v.stage k :=
  Function.update_of_ne other ..

-- A step of thread `t` after which span `h` is with another holder. Only one place
-- gets other blocks, and these are blocks of that span.
structure Handover (d : Design) (Good : PageCache → Set Nat → Prop) (Quiet : Span → Prop) (s next : Heap)
    (v : View) (t h : Nat) (stage : Stage) (c : Place) (cells : List Nat) : Prop where
  place : c = .live ∨ c = .moving t ∨ c = .own h
  handed : ∀ k, k ≠ h → (k ∈ next.handed ↔ k ∈ s.handed)
  distinct : next.handed.Nodup
  good : Good next.cache {k | k ∈ next.handed}
  others : ∀ k ∈ s.handed, k ≠ h → next.spanAt k = s.spanAt k
  mine : h ∈ s.handed → ∀ u, (v.stage h).holder = some u → u = t
  works : ∀ k, (s.pcs t).worksOn = some k → k = h
  owner : h ∈ next.handed → ∀ u, stage.holder = some u → u = t ∧ (next.pcs t).worksOn = some h
  positive : h ∈ next.handed → 1 ≤ (next.spanAt h).nPages
  sorted : h ∈ next.handed → stage.Circulates → (stage = .large ∧ d.large (next.spanAt h).objSize = true) ∨
    stage ≠ .large ∧ ∃ index, d.Class (next.spanAt h).objSize index ∧ ∀ i, stage = .listed i → i = index
  listed : ∀ i k, k ∈ next.buckets i ↔ k ∈ next.handed ∧ update v.stage h stage k = .listed i
  single : ∀ i, (next.buckets i).Nodup
  apart : Apart (update v.kept c cells)
  arrive : ∀ a ∈ cells, a ∈ v.kept c ∧ ¬Of d s v h a ∨ Of d next (handOver v h stage c cells) h a ∧ Fits d next c h
  depart : ∀ a ∈ v.kept c, ¬Of d s v h a → a ∈ cells
  elsewhere : ∀ x, x ≠ c → ∀ a ∈ v.kept x, Of d s v h a →
    Of d next (handOver v h stage c cells) h a ∧ Fits d next x h
  every : ∀ a, Of d next (handOver v h stage c cells) h a → ∃ x, a ∈ update v.kept c cells x
  count : h ∈ next.handed → stage.Circulates →
    (next.spanAt h).useCount + (update v.kept c cells (.own h)).length = (d.blocks (next.spanAt h)).length
  full : h ∈ next.handed → (∃ u, stage = .ready u ∨ stage = .parting u) →
    ∀ a ∈ d.blocks (next.spanAt h), a ∈ update v.kept c cells (.own h)
  pcs : ∀ u, u ≠ t → next.pcs u = s.pcs u
  bucket : ∀ a ∈ v.kept (.moving t), ∀ i, (next.pcs t).bucket d = some i → (s.pcs t).bucket d = some i
  memory : ∀ x, x ≠ c → ∀ a ∈ v.kept x, next.mem a = s.mem a
  heads : ∀ y, y ≠ .live → y ≠ .own h → y ≠ .moving t → SameHead s next y
  live : Linked next (handOver v h stage c cells) .live
  own : Linked next (handOver v h stage c cells) (.own h)
  thread : Linked next (handOver v h stage c cells) (.moving t)
  knows : Knows d Quiet next (handOver v h stage c cells) t

theorem Sound.one_span (laws : Laws d Good Ready Quiet Admits) (sound : Sound d Good Quiet s v)
    (first : Of d s v k a) (second : Of d s v h a) : k = h :=
  laws.alone sound.good first.1 second.1 (sound.inside first.1 first.2.1 first.2.2)
    (sound.inside second.1 second.2.1 second.2.2)

theorem Sound.own_of (sound : Sound d Good Quiet s v) (found : a ∈ v.kept (.own h)) : Of d s v h a := by
  obtain ⟨k,handed,out,block,own⟩ := sound.source (.own h) a found
  obtain rfl : h = k := own
  exact ⟨handed,out,block⟩

theorem Handover.of_other (o : Handover d Good Quiet s next v t h stage c cells) (other : k ≠ h) :
    Of d s v k a ↔ Of d next (handOver v h stage c cells) k a := by
  unfold Of
  rw [handOver_stage_other other,o.handed k other]
  constructor
  · rintro ⟨handed,out,block⟩
    exact ⟨handed,out,by rw [o.others k handed other]; exact block⟩
  · rintro ⟨handed,out,block⟩
    rw [o.others k handed other] at block
    exact ⟨handed,out,block⟩

theorem Handover.not_moving (o : Handover d Good Quiet s next v t h stage c cells) (other : u ≠ t) :
    c ≠ .moving u := by
  rintro rfl
  rcases o.place with same | same | same <;> cases same
  exact other rfl

theorem Handover.not_own (o : Handover d Good Quiet s next v t h stage c cells) (other : k ≠ h) : Place.own k ≠ c := by
  rintro rfl
  rcases o.place with same | same | same <;> cases same
  exact other rfl

theorem Handover.keeps (laws : Laws d Good Ready Quiet Admits) (sound : Sound d Good Quiet s v)
    (o : Handover d Good Quiet s next v t h stage c cells) (handed : k ∈ next.handed)
    (out : ((handOver v h stage c cells).stage k).Circulates) (block : a ∈ d.blocks (next.spanAt k)) :
    ∃ x, a ∈ (handOver v h stage c cells).kept x := by
  by_cases same : k = h
  · subst k; exact o.every a ⟨handed,out,block⟩
  · have before := (o.of_other same).mpr ⟨handed,out,block⟩
    obtain ⟨x,found⟩ := sound.every k before.1 before.2.1 a before.2.2
    by_cases here : x = c
    · subst x
      have other : ¬Of d s v h a := fun first => same (sound.one_span laws before first)
      refine ⟨c,?_⟩
      rw [handOver_kept]
      exact o.depart a found other
    · refine ⟨x,?_⟩
      rwa [handOver_kept_other here]

theorem Handover.still (sound : Sound d Good Quiet s v) (o : Handover d Good Quiet s next v t h stage c cells)
    (old : a ∈ v.kept x) (other : ¬Of d s v h a) : ∃ k ∈ next.handed,
      ((handOver v h stage c cells).stage k).Circulates ∧ a ∈ d.blocks (next.spanAt k) ∧ Fits d next x k := by
  obtain ⟨k,handed,out,block,fits⟩ := sound.source x a old
  have different : k ≠ h := by
    rintro rfl
    exact other ⟨handed,out,block⟩
  obtain ⟨handed',out',block'⟩ := (o.of_other different).mp ⟨handed,out,block⟩
  refine ⟨k,handed',out',block',fits.later (by rw [o.others k handed different]) ?_⟩
  rintro u rfl i at'
  by_cases same : u = t
  · subst u; exact o.bucket a old i at'
  · rwa [o.pcs u same] at at'

theorem Handover.source (sound : Sound d Good Quiet s v) (o : Handover d Good Quiet s next v t h stage c cells)
    (found : a ∈ (handOver v h stage c cells).kept x) : ∃ k ∈ next.handed,
      ((handOver v h stage c cells).stage k).Circulates ∧ a ∈ d.blocks (next.spanAt k) ∧ Fits d next x k := by
  by_cases here : x = c
  · subst x
    rw [handOver_kept] at found
    rcases o.arrive a found with ⟨old,other⟩ | ⟨⟨handed,out,block⟩,fits⟩
    · exact o.still sound old other
    · exact ⟨h,handed,out,block,fits⟩
  · rw [handOver_kept_other here] at found
    by_cases first : Of d s v h a
    · obtain ⟨⟨handed,out,block⟩,fits⟩ := o.elsewhere x here a found first
      exact ⟨h,handed,out,block,fits⟩
    · exact o.still sound found first

theorem Handover.linked (sound : Sound d Good Quiet s v) (o : Handover d Good Quiet s next v t h stage c cells)
    (x : Place) : Linked next (handOver v h stage c cells) x := by
  by_cases live : x = .live
  · subst x; exact o.live
  by_cases own : x = .own h
  · subst x; exact o.own
  by_cases thread : x = .moving t
  · subst x; exact o.thread
  have here : x ≠ c := by
    rintro rfl
    rcases o.place with same | same | same
    · exact live same
    · exact thread same
    · exact own same
  refine (sound.linked x).frame (o.heads x live own thread) (handOver_kept_other here) (o.memory x here) ?_
  rintro k handed rfl out
  have same : k ≠ h := by
    rintro rfl
    exact own rfl
  rw [handOver_stage_other same] at out
  exact ⟨(o.handed k same).mp handed,out⟩

theorem Handover.others_know (sound : Sound d Good Quiet s v) (o : Handover d Good Quiet s next v t h stage c cells)
    (thread : u ≠ t) : Knows d Quiet next (handOver v h stage c cells) u := by
  refine (sound.knows u).frame (o.pcs u thread) (fun k handed held => ?_) fun ptr k freeing handed out block => ?_
  · have same : k ≠ h := by
      rintro rfl
      exact thread (o.mine handed u held)
    exact ⟨(o.handed k same).mpr handed,handOver_stage_other same,o.others k handed same⟩
  · by_cases same : k = h
    · subst k
      have kept := sound.linked (.moving u)
      rw [Linked,freeing] at kept
      have here : ptr ∈ v.kept (.moving u) := by
        rw [show v.kept (.moving u) = [ptr] from kept]; exact .head _
      exact (o.elsewhere (.moving u) (o.not_moving thread).symm ptr here ⟨handed,out,block⟩).1
    · exact (o.of_other same).mp ⟨handed,out,block⟩

theorem Sound.handover (laws : Laws d Good Ready Quiet Admits) (sound : Sound d Good Quiet s v) (t h : Nat)
    (stage : Stage) (c : Place) (cells : List Nat) (o : Handover d Good Quiet s next v t h stage c cells) :
    Sound d Good Quiet next (handOver v h stage c cells) := by
  refine ⟨o.good,o.distinct,?positive,?sorted,o.listed,o.single,o.apart,fun k handed out a => o.keeps laws sound handed out,
    fun x a => o.source sound,?count,?full,o.linked sound,?owner,?knows⟩
  case positive =>
    intro k handed
    by_cases same : k = h
    · subst k; exact o.positive handed
    · rw [o.handed k same] at handed
      rw [o.others k handed same]; exact sound.positive k handed
  case sorted =>
    intro k handed out
    by_cases same : k = h
    · subst k
      rw [handOver_stage] at out ⊢
      exact o.sorted handed out
    · rw [handOver_stage_other same] at out ⊢
      rw [o.handed k same] at handed
      rw [o.others k handed same]; exact sound.sorted k handed out
  case count =>
    intro k handed out
    by_cases same : k = h
    · subst k
      rw [handOver_stage] at out
      exact o.count handed out
    · rw [handOver_stage_other same] at out
      rw [o.handed k same] at handed
      rw [o.others k handed same,handOver_kept_other (o.not_own same)]
      exact sound.count k handed out
  case full =>
    intro k handed held a block
    by_cases same : k = h
    · subst k
      rw [handOver_stage] at held
      exact o.full handed held a block
    · rw [handOver_stage_other same] at held
      rw [o.handed k same] at handed
      rw [o.others k handed same] at block
      rw [handOver_kept_other (o.not_own same)]
      exact sound.full k handed held a block
  case owner =>
    intro k handed u held
    by_cases same : k = h
    · subst k
      rw [handOver_stage] at held
      obtain ⟨rfl,worksOn⟩ := o.owner handed u held
      exact worksOn
    · rw [handOver_stage_other same] at held
      have before := sound.owner k ((o.handed k same).mp handed) u held
      have thread : u ≠ t := by
        rintro rfl
        exact same (o.works k before)
      rw [o.pcs u thread]; exact before
  case knows =>
    intro u
    by_cases thread : u = t
    · subst u; exact o.knows
    · exact o.others_know sound thread

theorem Sound.listed_elsewhere (sound : Sound d Good Quiet s v) (before : h ∈ s.handed → ∀ i, v.stage h ≠ .listed i)
    (after : ∀ i, stage ≠ .listed i) (handed : ∀ k, k ≠ h → (k ∈ next.handed ↔ k ∈ s.handed))
    (buckets : next.buckets = s.buckets) (i k : Nat) :
    k ∈ next.buckets i ↔ k ∈ next.handed ∧ update v.stage h stage k = .listed i := by
  rw [buckets,sound.listed i k]
  by_cases mine : k = h
  · subst k
    rw [Function.update_self]
    exact ⟨fun found => absurd found.2 (before found.1 i),fun found => absurd found.2 (after i)⟩
  · rw [Function.update_of_ne mine,handed k mine]

end Heap
end LinuxOS.Blocks
