import LinuxOS.Blocks.Invariant

namespace LinuxOS.Blocks
open Function (update)
open Links Pages Places
variable {d : Design} {Good : PageCache → Set Nat → Prop} {Ready : PageCache → Set Nat → Nat → Prop}
variable {Quiet : Span → Prop} {Admits : Nat → Prop}
variable {s next : Heap} {v : View} {a h k t size index : Nat} {c x : Place} {rest arrived : List Nat}

theorem page_of_block (id pages offset : Nat) (below : id * pageBytes + offset < id * pageBytes + pages * pageBytes) :
    id ≤ (id * pageBytes + offset) / pageBytes ∧ (id * pageBytes + offset) / pageBytes < id + pages := by
  have positive : 0 < pageBytes := by decide
  rw [Nat.le_div_iff_mul_le positive,Nat.div_lt_iff_lt_mul positive,Nat.add_mul]
  omega

theorem blocks_cells {span : Span} (small : d.large span.objSize = false) : d.blocks span =
    cells span.objSize (span.id * pageBytes + span.nPages * pageBytes) (span.nPages * pageBytes) (span.id * pageBytes) :=
  if_neg (by rw [small]; exact Bool.false_ne_true)

theorem blocks_small {span : Span} (small : d.large span.objSize = false) (positive : 1 ≤ span.objSize)
    (pages : 1 ≤ span.nPages) : a ∈ d.blocks span ↔ ∃ k, a = span.id * pageBytes + k * span.objSize ∧
      a < span.id * pageBytes + span.nPages * pageBytes := by
  have bytes : 0 < span.nPages * pageBytes := Nat.mul_pos pages (by decide)
  rw [blocks_cells small]
  apply mem_cells positive
  · omega
  · omega

theorem blocks_large {span : Span} (large : d.large span.objSize = true) : d.blocks span = [span.id * pageBytes] :=
  if_pos large

theorem blocks_inside {span : Span} (sized : d.large span.objSize = true ∨ d.large span.objSize = false ∧ 1 ≤ span.objSize)
    (pages : 1 ≤ span.nPages) (found : a ∈ d.blocks span) : a / pageBytes ∈ span.extent := by
  have bytes : 0 < span.nPages * pageBytes := Nat.mul_pos pages (by decide)
  rcases sized with large | ⟨small,positive⟩
  · rw [blocks_large large,List.mem_singleton] at found
    have inside := page_of_block span.id span.nPages 0 (by omega)
    rw [Nat.add_zero] at inside
    rw [found]; exact inside
  · obtain ⟨k,rfl,below⟩ := (blocks_small small positive pages).mp found
    exact page_of_block _ _ _ below

theorem blocks_nodup {span : Span} (sized : d.large span.objSize = true ∨ d.large span.objSize = false ∧ 1 ≤ span.objSize)
    (pages : 1 ≤ span.nPages) : (d.blocks span).Nodup := by
  have bytes : 0 < span.nPages * pageBytes := Nat.mul_pos pages (by decide)
  rcases sized with large | ⟨small,positive⟩
  · rw [blocks_large large]; exact List.nodup_singleton _
  · rw [blocks_cells small]
    exact cells_nodup positive (by omega) (by omega)

structure Alike (span other : Span) : Prop where
  id : other.id = span.id
  nPages : other.nPages = span.nPages
  objSize : other.objSize = span.objSize

theorem alike_refl {span : Span} : Alike span span := ⟨rfl,rfl,rfl⟩

theorem Alike.blocks {span other : Span} (alike : Alike span other) : d.blocks other = d.blocks span := by
  simp only [Design.blocks,alike.id,alike.nPages,alike.objSize]

theorem Laws.retired (laws : Laws d Good Ready Quiet Admits) (span : Span) : Alike span (d.retire span) ∧
    (d.retire span).useCount = span.useCount ∧ (d.retire span).isUsed = span.isUsed := by
  rcases laws.retire with id | clears
  · rw [id]; exact ⟨⟨rfl,rfl,rfl⟩,rfl,rfl⟩
  · rw [clears]; exact ⟨⟨rfl,rfl,rfl⟩,rfl,rfl⟩

namespace Heap

theorem Sound.sized (sound : Sound d Good Quiet s v) (handed : h ∈ s.handed) (out : (v.stage h).Circulates) :
    d.large (s.spanAt h).objSize = true ∨ d.large (s.spanAt h).objSize = false ∧ 1 ≤ (s.spanAt h).objSize := by
  rcases sound.sorted h handed out with ⟨_,large⟩ | ⟨_,index,sort,_⟩
  · exact .inl large
  · exact .inr ⟨sort.small,sort.positive⟩

theorem Sound.inside (sound : Sound d Good Quiet s v) (handed : h ∈ s.handed) (out : (v.stage h).Circulates)
    (found : a ∈ d.blocks (s.spanAt h)) : a / pageBytes ∈ (s.spanAt h).extent :=
  blocks_inside (sound.sized handed out) (sound.positive h handed) found

theorem Sound.home (laws : Laws d Good Ready Quiet Admits) (sound : Sound d Good Quiet s v) (found : a ∈ v.kept c)
    (handed : h ∈ s.handed) (page : a / pageBytes ∈ (s.spanAt h).extent) :
    (v.stage h).Circulates ∧ a ∈ d.blocks (s.spanAt h) ∧ Fits d s c h := by
  obtain ⟨k,handed',out,block,fits⟩ := sound.source c a found
  obtain rfl := laws.alone sound.good handed handed' page (sound.inside handed' out block)
  exact ⟨out,block,fits⟩

theorem Sound.mapped (laws : Laws d Good Ready Quiet Admits) (sound : Sound d Good Quiet s v) (found : a ∈ v.kept c) :
    ∃ h ∈ s.handed, s.cache.get (a / pageBytes) = some h ∧ (v.stage h).Circulates ∧ a ∈ d.blocks (s.spanAt h) ∧
      Fits d s c h := by
  obtain ⟨h,handed,out,block,fits⟩ := sound.source c a found
  exact ⟨h,handed,laws.mapped sound.good handed (sound.inside handed out block),out,block,fits⟩

theorem sound_start (laws : Laws d Good Ready Quiet Admits) : Sound d Good Quiet {} ⟨fun _ => [],fun _ => .large⟩ := by
  have nobody : ({h | h ∈ ([] : List Nat)} : Set Nat) = ∅ := by ext h; simp
  refine ⟨?_,.nil,by simp,by simp,by simp,fun _ => .nil,⟨fun _ => .nil,by simp⟩,by simp,by simp,by simp,by simp,?_,
    by simp,fun t => trivial⟩
  · rw [nobody]; exact laws.start
  · intro c
    cases c with
    | live => rfl
    | cached t index => exact ⟨rfl,rfl,Nat.le_refl 1⟩
    | moving t => exact rfl
    | own h => intro handed; cases handed

theorem Holds.agree {pc : Pc} {mem other : Nat → Option Nat} {cells : List Nat} (holds : pc.Holds mem cells)
    (same : ∀ a ∈ cells, other a = mem a) : pc.Holds other cells := by
  cases pc with
  | received => exact ⟨holds.1.agree same,holds.2⟩
  | returning => exact Chain.agree holds same
  | putting => exact Chain.agree holds same
  | releasing => exact Chain.agree holds same
  | _ => exact holds

def SameHead (s next : Heap) : Place → Prop
  | .live => next.live = s.live
  | .cached t index => next.lists t index = s.lists t index
  | .moving t => next.pcs t = s.pcs t
  | .own h => h ∈ s.handed → (next.spanAt h).freeList = (s.spanAt h).freeList

theorem Linked.frame {w : View} (linked : Linked s v x) (head : SameHead s next x) (kept : w.kept x = v.kept x)
    (memory : ∀ a ∈ v.kept x, next.mem a = s.mem a) (held : ∀ h ∈ next.handed, x = .own h → (w.stage h).Circulates →
      h ∈ s.handed ∧ (v.stage h).Circulates) : Linked next w x := by
  cases x with
  | live => exact kept.trans (linked.trans head.symm)
  | cached t index =>
    obtain ⟨chain,size,room⟩ := linked
    simp only [Linked,kept,show next.lists t index = s.lists t index from head]
    exact ⟨chain.agree memory,size,room⟩
  | moving t =>
    simp only [Linked,kept,show next.pcs t = s.pcs t from head]
    exact Holds.agree linked memory
  | own h =>
    intro handed out
    obtain ⟨handed,out⟩ := held h handed rfl out
    rw [kept,head handed]
    exact (linked handed out).agree memory

-- What another thread knows stays true while the spans it may look at do not move.
theorem Knows.frame {w : View} (knows : Knows d Quiet s v t) (pc : next.pcs t = s.pcs t)
    (private' : ∀ h ∈ s.handed, (v.stage h).holder = some t →
      h ∈ next.handed ∧ w.stage h = v.stage h ∧ next.spanAt h = s.spanAt h)
    (freeing : ∀ ptr h, s.pcs t = .freeing ptr h → h ∈ s.handed → (v.stage h).Circulates →
      ptr ∈ d.blocks (s.spanAt h) → h ∈ next.handed ∧ (w.stage h).Circulates ∧ ptr ∈ d.blocks (next.spanAt h)) :
    Knows d Quiet next w t := by
  unfold Knows at knows ⊢
  rw [pc]
  cases at' : s.pcs t with
  | fresh size num h =>
    simp only [at'] at knows ⊢
    obtain ⟨sort,handed,stage,quiet⟩ := knows
    obtain ⟨handed,same,span⟩ := private' h handed (by rw [stage]; rfl)
    exact ⟨sort,handed,same.trans stage,by rwa [span]⟩
  | settled size num h =>
    simp only [at'] at knows ⊢
    obtain ⟨sort,handed,stage,size,count⟩ := knows
    obtain ⟨handed,same,span⟩ := private' h handed (by rw [stage]; rfl)
    exact ⟨sort,handed,same.trans stage,by rwa [span],by rwa [span]⟩
  | carved size num h =>
    simp only [at'] at knows ⊢
    obtain ⟨handed,stage,size⟩ := knows
    obtain ⟨handed,same,span⟩ := private' h handed (by rw [stage]; rfl)
    exact ⟨handed,same.trans stage,by rwa [span]⟩
  | freeing ptr h =>
    simp only [at'] at knows ⊢
    exact freeing ptr h at' knows.1 knows.2.1 knows.2.2
  | releasing index h after =>
    simp only [at'] at knows ⊢
    obtain ⟨handed,stage,quiet⟩ := knows
    have held : (v.stage h).holder = some t := by
      rcases stage with parting | ⟨making,_⟩
      · rw [parting]; rfl
      · rw [making]; rfl
    obtain ⟨handed,same,span⟩ := private' h handed held
    exact ⟨handed,by rwa [same],by rwa [span]⟩
  | dropping h =>
    simp only [at'] at knows ⊢
    obtain ⟨handed,stage,quiet⟩ := knows
    obtain ⟨handed,same,span⟩ := private' h handed (by rw [stage]; rfl)
    exact ⟨handed,same.trans stage,by rwa [span]⟩
  | idle => trivial
  | returning => trivial
  | putting => trivial
  | _ => simpa only [at'] using knows

-- A step of thread `t` that takes blocks from place `c` to place `x`, and leaves
-- every span with its holder.
structure Relocation (d : Design) (Good : PageCache → Set Nat → Prop) (Quiet : Span → Prop) (s next : Heap)
    (v : View) (t : Nat) (c x : Place) (rest arrived : List Nat) : Prop where
  different : c ≠ x
  perm : (rest ++ arrived).Perm (v.kept c ++ v.kept x)
  keeps : ∀ a ∈ rest, a ∈ v.kept c
  handed : next.handed = s.handed := by rfl
  buckets : next.buckets = s.buckets := by rfl
  good : Good next.cache {h | h ∈ s.handed}
  shape : ∀ h ∈ s.handed, Alike (s.spanAt h) (next.spanAt h) := by exact fun _ _ => alike_refl
  still : ∀ h ∈ s.handed, (∀ i, v.stage h ≠ .listed i) → next.spanAt h = s.spanAt h := by exact fun _ _ _ => rfl
  pcs : ∀ u, u ≠ t → next.pcs u = s.pcs u
  bucket : ∀ a ∈ v.kept (.moving t), ∀ i, (next.pcs t).bucket d = some i → (s.pcs t).bucket d = some i
  worksOn : (next.pcs t).worksOn = (s.pcs t).worksOn
  memory : ∀ a, a ∉ v.kept c → a ∉ v.kept x → next.mem a = s.mem a
  heads : ∀ y, y ≠ c → y ≠ x → SameHead s next y
  left : Linked next ⟨carry v.kept c x rest arrived,v.stage⟩ c
  right : Linked next ⟨carry v.kept c x rest arrived,v.stage⟩ x
  fits : ∀ a ∈ arrived, a ∈ v.kept c → ∀ h ∈ s.handed, (v.stage h).Circulates → a ∈ d.blocks (s.spanAt h) →
    Fits d s c h → Fits d next x h
  count : ∀ h ∈ s.handed, (v.stage h).Circulates → (next.spanAt h).useCount +
    (carry v.kept c x rest arrived (.own h)).length = (s.spanAt h).useCount + (v.kept (.own h)).length
  stay : ∀ h ∈ s.handed, (∃ u, v.stage h = .ready u ∨ v.stage h = .parting u) → c ≠ .own h ∧ x ≠ .own h
  knows : Knows d Quiet next ⟨carry v.kept c x rest arrived,v.stage⟩ t

theorem linked_live : Linked s v .live ↔ v.kept .live = s.live := Iff.rfl

theorem count_elsewhere (same : (next.spanAt h).useCount = (s.spanAt h).useCount) (left : Place.own h ≠ c)
    (right : Place.own h ≠ x) : (next.spanAt h).useCount + (carry v.kept c x rest arrived (.own h)).length =
      (s.spanAt h).useCount + (v.kept (.own h)).length := by
  rw [carry_other left right,same]

theorem Fits.later {y : Place} (fits : Fits d s y h) (same : (next.spanAt h).objSize = (s.spanAt h).objSize)
    (bucket : ∀ u, y = .moving u → ∀ i, (next.pcs u).bucket d = some i → (s.pcs u).bucket d = some i) :
    Fits d next y h := by
  cases y with
  | live => trivial
  | cached t index =>
    rw [Fits,same]; exact fits
  | moving u =>
    intro index at'
    rw [same]
    exact fits index (bucket u rfl index at')
  | own k => exact fits

theorem Sound.relocate (sound : Sound d Good Quiet s v) (t : Nat) (c x : Place) (rest arrived : List Nat)
    (r : Relocation d Good Quiet s next v t c x rest arrived) :
    Sound d Good Quiet next ⟨carry v.kept c x rest arrived,v.stage⟩ := by
  have blocks : ∀ h ∈ s.handed, d.blocks (next.spanAt h) = d.blocks (s.spanAt h) := fun h handed =>
    (r.shape h handed).blocks
  have buckets : ∀ y a, a ∈ v.kept y → ∀ u, y = .moving u → ∀ i, (next.pcs u).bucket d = some i →
      (s.pcs u).bucket d = some i := by
    rintro y a found u rfl i at'
    by_cases mine : u = t
    · subst u; exact r.bucket a found i at'
    · rwa [r.pcs u mine] at at'
  refine ⟨?good,?distinct,?positive,?sorted,?listed,?single,sound.apart.carry r.different r.perm,?every,?source,?count,?full,?linked,?owner,?knows⟩
  case good => rw [r.handed]; exact r.good
  case distinct => rw [r.handed]; exact sound.distinct
  case positive =>
    intro h handed
    rw [r.handed] at handed
    rw [(r.shape h handed).nPages]; exact sound.positive h handed
  case sorted =>
    intro h handed out
    rw [r.handed] at handed
    rw [(r.shape h handed).objSize]; exact sound.sorted h handed out
  case listed =>
    intro i h
    rw [r.buckets,r.handed]; exact sound.listed i h
  case single => intro i; rw [r.buckets]; exact sound.single i
  case every =>
    intro h handed out a block
    rw [r.handed] at handed
    rw [blocks h handed] at block
    obtain ⟨y,found⟩ := sound.every h handed out a block
    exact carried r.different r.perm found
  case source =>
    intro y a found
    change a ∈ carry v.kept c x rest arrived y at found
    -- a block is of the same span as before; only the place may ask something new
    have origin : (a ∈ v.kept y) ∨ y = x ∧ a ∈ arrived ∧ a ∈ v.kept c := by
      by_cases right : y = x
      · subst y
        rw [carry_to] at found
        have old := r.perm.mem_iff.mp (List.mem_append_right rest found)
        rcases List.mem_append.mp old with left | here
        · exact .inr ⟨rfl,found,left⟩
        · exact .inl here
      · by_cases left : y = c
        · subst y
          rw [carry_from r.different] at found
          exact .inl (r.keeps a found)
        · rw [carry_other left right] at found
          exact .inl found
    rcases origin with old | ⟨rfl,new,left⟩
    · obtain ⟨h,handed,out,block,fits⟩ := sound.source y a old
      exact ⟨h,by rw [r.handed]; exact handed,out,by rw [blocks h handed]; exact block,
        fits.later (r.shape h handed).objSize (buckets y a old)⟩
    · obtain ⟨h,handed,out,block,fits⟩ := sound.source c a left
      exact ⟨h,by rw [r.handed]; exact handed,out,by rw [blocks h handed]; exact block,
        r.fits a new left h handed out block fits⟩
  case count =>
    intro h handed out
    rw [r.handed] at handed
    rw [blocks h handed,r.count h handed out]; exact sound.count h handed out
  case full =>
    intro h handed held a block
    rw [r.handed] at handed
    rw [blocks h handed] at block
    obtain ⟨left,right⟩ := r.stay h handed held
    change a ∈ carry v.kept c x rest arrived (.own h)
    rw [carry_other left.symm right.symm]
    exact sound.full h handed held a block
  case linked =>
    intro y
    by_cases right : y = x
    · subst y; exact r.right
    · by_cases left : y = c
      · subst y; exact r.left
      · have clear : ∀ a ∈ v.kept y, a ∉ v.kept c ∧ a ∉ v.kept x := fun a found =>
          ⟨fun found' => left (sound.apart.only y c a found found'),
            fun found' => right (sound.apart.only y x a found found')⟩
        exact (sound.linked y).frame (r.heads y left right) (carry_other left right)
          (fun a found => r.memory a (clear a found).1 (clear a found).2)
          fun h handed _ out => ⟨by rwa [r.handed] at handed,out⟩
  case owner =>
    intro h handed u held
    rw [r.handed] at handed
    have before := sound.owner h handed u held
    by_cases mine : u = t
    · subst u; exact r.worksOn.trans before
    · rw [r.pcs u mine]; exact before
  case knows =>
    intro u
    by_cases mine : u = t
    · subst u; exact r.knows
    · refine (sound.knows u).frame (r.pcs u mine) (fun h handed held => ?_) fun ptr h _ handed out block => ?_
      · refine ⟨by rw [r.handed]; exact handed,rfl,r.still h handed fun i listed => ?_⟩
        rw [listed] at held
        cases held
      · exact ⟨by rw [r.handed]; exact handed,out,by rw [blocks h handed]; exact block⟩

end Heap
end LinuxOS.Blocks
