import LinuxOS.Concurrent.PageCache

namespace LinuxOS.Concurrent
open Function (update)
open Pages Pages.PageCache
variable {p q r : PageCache} {held area : Set Nat} {h s k l lo hi fuel : Nat}

def stop (p : PageCache) (h : Nat) : Nat := (p.spans h).id + (p.spans h).nPages

def Open (p : PageCache) (lo hi : Nat) : Prop := ∀ page, lo ≤ page → page < hi → ∃ k, p.Filed k ∧ page ∈ p.extent k

def Behind (p : PageCache) (s h : Nat) : Prop :=
  stop p h ≤ (p.spans s).id ∧ Open p (stop p h) (p.spans s).id ∧ stop p s < (p.spans h).id + nPageList

def Ahead (p : PageCache) (s h : Nat) : Prop :=
  stop p s ≤ (p.spans h).id ∧ Open p (stop p s) (p.spans h).id ∧ stop p h < (p.spans s).id + nPageList

-- Where the span can begin after it has been merged with free spans before it.
def Begins (p : PageCache) (s l : Nat) : Prop := l ≤ (p.spans s).id ∧
  (l = (p.spans s).id ∨ ∃ k, p.Filed k ∧ (p.spans k).id = l) ∧ Open p l (p.spans s).id ∧ stop p s < l + nPageList

-- No handed-out span whose `_is_used` is still unset is in reach of the released
-- one: not backward, and not forward from the lowest page where that ends.
structure Ready (p : PageCache) (held : Set Nat) (s : Nat) : Prop where
  behind : (p.spans s).nPages < nPageList → ∀ h ∈ held, h ≠ s → (p.spans h).isUsed = false → ¬Behind p s h
  ahead : (p.spans s).nPages < nPageList → ∀ h ∈ held, h ≠ s → (p.spans h).isUsed = false →
    ¬(stop p s ≤ (p.spans h).id ∧ Open p (stop p s) (p.spans h).id ∧
      ∀ l, Begins p s l → stop p h < l + nPageList)

theorem ready_marked (marked : ∀ h ∈ held, h ≠ s → (p.spans h).isUsed = true) : Ready p held s := by
  constructor
  · intro _ h user other free
    rw [marked h user other] at free; cases free
  · intro _ h user other free
    rw [marked h user other] at free; cases free

structure Merged (p q : PageCache) (held area : Set Nat) (s : Nat) : Prop where
  kept : Kept q held {s} area
  blank : ∀ page ∈ q.extent s, q.radixTree page = none
  size : (q.spans s).nPages < nPageList
  frame : ∀ k, k ≠ s → q.spans k = p.spans k
  system : q.system = p.system
  fewer : ∀ k, q.Filed k → p.Filed k
  left : ∀ k, p.Filed k → q.Filed k ∨ p.extent k ⊆ q.extent s
  wider : p.extent s ⊆ q.extent s
  gained : ∀ page ∈ q.extent s, page ∈ p.extent s ∨ ∃ k, p.Filed k ∧ page ∈ p.extent k

theorem Merged.trans (first : Merged p q held area s) (second : Merged q r held area s) : Merged p r held area s := by
  have loose : ∀ k, q.Filed k → k ≠ s := fun k filed same => (first.kept.parted k filed).2 same
  have extent : ∀ k, q.Filed k → q.extent k = p.extent k := fun k filed => by
    rw [extent,extent,first.frame k (loose k filed)]
  refine ⟨second.kept,second.blank,second.size,fun k other => (second.frame k other).trans (first.frame k other),
    second.system.trans first.system,fun k filed => first.fewer k (second.fewer k filed),?_,
    fun page under => second.wider (first.wider under),?_⟩
  · intro k filed
    rcases first.left k filed with still | inside
    · rcases second.left k still with still' | inside
      · exact .inl still'
      · exact .inr (by rwa [← extent k still])
    · exact .inr fun page under => second.wider (inside under)
  · intro page under
    rcases second.gained page under with before | ⟨k,filed,under⟩
    · exact first.gained page before
    · exact .inr ⟨k,first.fewer k filed,by rwa [← extent k filed]⟩

theorem merged_refl (kept : Kept p held {s} area) (blank : ∀ page ∈ p.extent s, p.radixTree page = none)
    (size : (p.spans s).nPages < nPageList) : Merged p p held area s :=
  ⟨kept,blank,size,fun _ _ => rfl,rfl,fun _ => id,fun _ => .inl,fun _ => id,fun _ => .inl⟩

-- One turn of either loop; `change` gives the released span the pages of both.
theorem absorb_merged (kept : Kept p held {s} area) (blank : ∀ page ∈ p.extent s, p.radixTree page = none)
    (filed : p.Filed h) (change : Span → Span) (different : h ≠ s)
    (union : (change (p.spans s)).extent = p.extent s ∪ p.extent h)
    (size : (change (p.spans s)).nPages = (p.spans s).nPages + (p.spans h).nPages)
    (room : (p.spans s).nPages + (p.spans h).nPages < nPageList) :
    Merged p (absorb (p.write s change) h) held area s := by
  have owns : h ∈ p.owned held {s} := .inr (.inl filed)
  have sized := kept.sized h owns
  have fits := kept.fits owns
  have computed : absorb (p.write s change) h = {p.unlink h with
      spans := update p.spans s (change (p.spans s))
      freeObjects := h :: p.freeObjects
      radixTree := update (update p.radixTree (p.spans h).id none)
        ((p.spans h).id + (p.spans h).nPages - 1) none} := by
    simp only [absorb,erase_spans,unlink_spans,write_other change different]
    rw [erase_of_lt (show (p.spans h).id < pageLimit by omega),erase_of_lt (by omega)]
    rfl
  have main : ((absorb (p.write s change) h).spans s) = change (p.spans s) := by
    rw [computed]; exact Function.update_self ..
  have others : ∀ k, k ≠ s → (absorb (p.write s change) h).spans k = p.spans k := fun k other => by
    rw [computed]; exact Function.update_of_ne other ..
  have extent : (absorb (p.write s change) h).extent s = p.extent s ∪ p.extent h := by
    rw [PageCache.extent,main,union]
  have lists : ∀ k, (absorb (p.write s change) h).Filed k ↔ k ≠ h ∧ p.Filed k := fun k => by
    rw [computed]; exact filed_unlink kept.toLayout
  have entry : ∀ page, (absorb (p.write s change) h).radixTree page =
      if page = (p.spans h).id ∨ page + 1 = (p.spans h).id + (p.spans h).nPages then none else p.radixTree page := by
    intro page
    rw [computed]
    by_cases last : page = (p.spans h).id + (p.spans h).nPages - 1
    · rw [if_pos (.inr (by omega)),last]; exact Function.update_self ..
    · by_cases first : page = (p.spans h).id
      · change update (update p.radixTree (p.spans h).id none) _ none page = _
        rw [if_pos (.inl first),Function.update_of_ne last,first,Function.update_self]
      · rw [if_neg (by omega)]
        simp only [Function.update_of_ne last,Function.update_of_ne first]
  have layout : Layout (absorb (p.write s change) h) held {s} area := by
    rw [computed]
    refine kept.toLayout.absorb filed (fun k other => Function.update_of_ne other ..) ?_ ?_ ?_
    · rw [Function.update_self,union]
    · rw [Function.update_self,size]; omega
    · intro page beyond
      rw [Function.update_self,union,Set.mem_union,not_or,in_extent,in_extent] at beyond
      rw [Function.update_of_ne (by omega),Function.update_of_ne (by omega)]
  have system : (absorb (p.write s change) h).system = p.system := by rw [computed]; rfl
  refine ⟨⟨layout,?mapped,?whole⟩,?blank,?size,others,system,fun k found => ((lists k).mp found).2,?left,?wider,?gained⟩
  case mapped =>
    intro page found
    obtain ⟨region,given,inside⟩ := kept.mapped page found
    exact ⟨region,by rw [system]; exact given,inside⟩
  case whole =>
    intro k user
    rw [others k fun same => kept.aside k user same,system]
    exact kept.whole k user
  case blank =>
    intro page under
    rw [extent] at under
    rw [entry]
    split
    · rfl
    · rename_i middle
      rcases under with own | gained
      · exact blank page own
      · exact kept.hollow h filed page gained middle
  case size => rw [main,size]; exact room
  case left =>
    intro k found
    by_cases same : k = h
    · subst k
      rw [extent]; exact .inr fun page => .inr
    · exact .inl ((lists k).mpr ⟨same,found⟩)
  case wider => rw [extent]; exact fun page => .inl
  case gained =>
    intro page under
    rw [extent] at under
    exact under.imp_right fun gained => ⟨h,filed,gained⟩

theorem absorbPrev_merged (kept : Kept p held {s} area) (blank : ∀ page ∈ p.extent s, p.radixTree page = none)
    (filed : p.Filed h) (different : h ≠ s) (meets : stop p h = (p.spans s).id)
    (room : (p.spans s).nPages + (p.spans h).nPages < nPageList) :
    Merged p (absorbPrev p s h) held area s ∧ ((absorbPrev p s h).spans s).id = (p.spans h).id ∧
      stop (absorbPrev p s h) s = stop p s := by
  have merged : Merged p (absorbPrev p s h) held area s := by
    apply absorb_merged kept blank filed _ different ?_ rfl room
    ext page
    simp only [stop,mem_extent,Set.mem_union,in_extent] at meets ⊢
    omega
  have main : (absorbPrev p s h).spans s = {p.spans s with
      id := (p.spans h).id
      nPages := (p.spans s).nPages + (p.spans h).nPages} := by
    simp only [absorbPrev,absorb,deleteObject_spans,erase_spans,unlink_spans,write_same]
  refine ⟨merged,by rw [main],?_⟩
  rw [stop,main]
  simp only [stop] at meets ⊢
  omega

theorem absorbNext_merged (kept : Kept p held {s} area) (blank : ∀ page ∈ p.extent s, p.radixTree page = none)
    (filed : p.Filed h) (different : h ≠ s) (meets : (p.spans h).id = stop p s)
    (room : (p.spans s).nPages + (p.spans h).nPages < nPageList) :
    Merged p (absorbNext p s h) held area s ∧ ((absorbNext p s h).spans s).id = (p.spans s).id ∧
      stop (absorbNext p s h) s = stop p h := by
  have merged : Merged p (absorbNext p s h) held area s := by
    apply absorb_merged kept blank filed _ different ?_ rfl room
    ext page
    simp only [stop,mem_extent,Set.mem_union,in_extent] at meets ⊢
    omega
  have main : (absorbNext p s h).spans s = {p.spans s with
      nPages := (p.spans s).nPages + (p.spans h).nPages} := by
    simp only [absorbNext,absorb,deleteObject_spans,erase_spans,unlink_spans,write_same]
  refine ⟨merged,by rw [main],?_⟩
  rw [stop,main]
  simp only [stop] at meets ⊢
  omega

theorem Merged.extent (merged : Merged p q held area s) (filed : q.Filed k) : q.extent k = p.extent k := by
  have other : k ≠ s := fun same => (merged.kept.parted k filed).2 same
  rw [PageCache.extent,PageCache.extent,merged.frame k other]

theorem Merged.open (merged : Merged p q held area s) (free : Open q lo hi) : Open p lo hi := by
  intro page low high
  obtain ⟨k,filed,under⟩ := free page low high
  exact ⟨k,merged.fewer k filed,by rwa [← merged.extent filed]⟩

theorem Merged.stop (merged : Merged p q held area s) (other : k ≠ s) : stop q k = stop p k := by
  rw [Concurrent.stop,Concurrent.stop,merged.frame k other]

theorem entry_behind (kept : Kept p held {s} area) (filed : p.Filed k) (meets : stop p k = (p.spans s).id) :
    p.get (pageBefore (p.spans s).id) = some k := by
  have owns : k ∈ p.owned held {s} := .inr (.inl filed)
  have sized := kept.sized k owns
  have fits := kept.fits owns
  rw [stop] at meets
  rw [pageBefore,if_neg (by omega),get_of_lt (by omega)]
  exact kept.ends k filed _ (by rw [in_extent]; omega) (by rw [AtEnd]; omega)

-- The backward loop takes in free spans only, and ends where no free span before
-- the released one would still fit.
structure Pushed (p q : PageCache) (held area : Set Nat) (s : Nat) : Prop where
  merged : Merged p q held area s
  low : (q.spans s).id ≤ (p.spans s).id
  same : stop q s = stop p s
  last : ∀ k, q.Filed k → stop q k = (q.spans s).id → (q.spans k).id + nPageList ≤ stop q s

theorem mergeBackward_pushed (kept : Kept p held {s} area) (blank : ∀ page ∈ p.extent s, p.radixTree page = none)
    (size : (p.spans s).nPages < nPageList) (enough : nPageList ≤ fuel + (p.spans s).nPages)
    (clear : ∀ h ∈ held, (p.spans h).isUsed = false → ¬Behind p s h) :
    ∃ q, mergeBackward fuel p s = some q ∧ Pushed p q held area s := by
  induction fuel generalizing p with
  | zero => exact absurd enough (by omega)
  | succ fuel ih =>
    have stay := merged_refl kept blank size
    unfold mergeBackward
    cases entry : p.get (pageBefore (p.spans s).id) with
    | none =>
      refine ⟨p,rfl,stay,Nat.le_refl _,rfl,fun k filed meets => ?_⟩
      rw [entry_behind kept filed meets] at entry; cases entry
    | some h =>
      obtain ⟨role,different,meets⟩ := kept.toLayout.behind entry
      -- a free span that ends here is the one that the entry names
      have only : ∀ k, p.Filed k → stop p k = (p.spans s).id → k = h := fun k filed meets =>
        Option.some.inj ((entry_behind kept filed meets).symm.trans entry)
      simp only
      split
      case isTrue used =>
        refine ⟨p,rfl,stay,Nat.le_refl _,rfl,fun k filed meets => ?_⟩
        obtain ⟨n,found⟩ := filed
        rw [← only k ⟨n,found⟩ meets,(kept.filed n k found).2.2] at used
        cases used
      case isFalse free =>
        have free : (p.spans h).isUsed = false := by simpa using free
        split
        case isTrue long =>
          refine ⟨p,rfl,stay,Nat.le_refl _,rfl,fun k filed meets' => ?_⟩
          rw [only k filed meets',stop]
          omega
        case isFalse room =>
          have filed : p.Filed h := role.resolve_left fun user => clear h user free
            ⟨Nat.le_of_eq meets,fun page low high => by rw [stop] at low; omega,by rw [stop]; omega⟩
          obtain ⟨merged,id,same⟩ := absorbPrev_merged kept blank filed different meets (by omega)
          have grown : (p.spans s).nPages < ((absorbPrev p s h).spans s).nPages := by
            have sized := kept.sized h (.inr (.inl filed))
            rw [stop,stop] at same
            omega
          obtain ⟨q,ran,pushed⟩ := ih merged.kept merged.blank merged.size (by omega) fun g user unset behind => by
            have other : g ≠ s := fun same => kept.aside g user same
            rw [merged.frame g other] at unset
            refine clear g user unset ⟨?_,?_,?_⟩
            · have below := behind.1
              rw [merged.stop other,id] at below
              omega
            · intro page low high
              by_cases before : page < (p.spans h).id
              · refine merged.open behind.2.1 page ?_ (by rw [id]; exact before)
                rw [merged.stop other]; exact low
              · exact ⟨h,filed,by rw [in_extent]; omega⟩
            · have room' := behind.2.2
              rwa [same,merged.frame g other] at room'
          refine ⟨q,ran,merged.trans pushed.merged,?_,pushed.same.trans same,pushed.last⟩
          exact Nat.le_trans pushed.low (by rw [id]; omega)

theorem mergeForward_merged (kept : Kept p held {s} area) (blank : ∀ page ∈ p.extent s, p.radixTree page = none)
    (size : (p.spans s).nPages < nPageList) (enough : nPageList ≤ fuel + (p.spans s).nPages)
    (clear : ∀ h ∈ held, (p.spans h).isUsed = false → ¬Ahead p s h) :
    ∃ q, mergeForward fuel p s = some q ∧ Merged p q held area s := by
  induction fuel generalizing p with
  | zero => exact absurd enough (by omega)
  | succ fuel ih =>
    have stay := merged_refl kept blank size
    unfold mergeForward
    cases entry : p.get ((p.spans s).id + (p.spans s).nPages) with
    | none => exact ⟨p,rfl,stay⟩
    | some h =>
      obtain ⟨role,different,meets⟩ := kept.toLayout.ahead entry
      simp only
      split
      case isTrue => exact ⟨p,rfl,stay⟩
      case isFalse free =>
        have free : (p.spans h).isUsed = false := by simpa using free
        split
        case isTrue => exact ⟨p,rfl,stay⟩
        case isFalse room =>
          have filed : p.Filed h := role.resolve_left fun user => clear h user free
            ⟨Nat.le_of_eq meets.symm,fun page low high => by rw [stop] at low; omega,by rw [stop]; omega⟩
          obtain ⟨merged,id,same⟩ := absorbNext_merged kept blank filed different meets (by omega)
          have sized := kept.sized h (.inr (.inl filed))
          have grown : (p.spans s).nPages < ((absorbNext p s h).spans s).nPages := by
            rw [stop,stop] at same
            omega
          obtain ⟨q,ran,rest⟩ := ih merged.kept merged.blank merged.size (by omega) fun g user unset ahead => by
            have other : g ≠ s := fun same => kept.aside g user same
            rw [merged.frame g other] at unset
            refine clear g user unset ⟨?_,?_,?_⟩
            · have below := ahead.1
              rw [same,merged.frame g other,stop] at below
              rw [stop]
              omega
            · intro page low high
              by_cases before : page < stop p h
              · rw [stop] at low before
                exact ⟨h,filed,by rw [in_extent]; omega⟩
              · refine merged.open ahead.2.1 page (by rw [same]; omega) ?_
                rw [merged.frame g other]; exact high
            · have room' := ahead.2.2
              rwa [merged.stop other,id] at room'
          exact ⟨q,ran,merged.trans rest⟩

-- What was ready for the release is ready for the forward loop where the backward
-- one has ended: a lower beginning would have been reached.
theorem ready_ahead (kept : Kept p held {s} area) (pushed : Pushed p q held area s) (user : h ∈ held)
    (far : ¬(stop p s ≤ (p.spans h).id ∧ Open p (stop p s) (p.spans h).id ∧
      ∀ l, Begins p s l → stop p h < l + nPageList)) : ¬Ahead q s h := by
  rintro ⟨after,free,room⟩
  have merged := pushed.merged
  have other : h ≠ s := fun same => kept.aside h user same
  rw [merged.stop other] at room
  rw [pushed.same] at after free
  rw [merged.frame h other] at after free
  refine far ⟨after,merged.open free,fun l begins => ?_⟩
  obtain ⟨low,edge,open',total⟩ := begins
  by_cases below : (q.spans s).id ≤ l
  · omega
  · rcases edge with rfl | ⟨k,filed,first⟩
    · exact absurd pushed.low below
    · -- the page just below the merged span belongs to a free span that was left
      obtain ⟨m,filed',under⟩ := open' ((q.spans s).id - 1) (by omega) (by have := pushed.low; omega)
      have sized := merged.kept.sized s (.inr (.inr rfl))
      have still : q.Filed m := by
        rcases merged.left m filed' with still | inside
        · exact still
        · have inside := inside under
          rw [in_extent] at inside
          omega
      have under' := under
      rw [← merged.extent still,in_extent] at under
      have meets : stop q m = (q.spans s).id := by
        by_contra gap
        rw [stop] at gap
        have same := merged.kept.alone (q.spans s).id (.inr (.inl still)) (.inr (.inr rfl))
          (by rw [in_extent]; omega) (by rw [in_extent]; omega)
        exact (merged.kept.parted m still).2 same
      have short := pushed.last m still meets
      have moved : m ≠ s := fun same => (merged.kept.parted m still).2 same
      rw [merged.frame m moved,pushed.same] at short
      rw [in_extent] at under'
      have size := kept.sized k (.inr (.inl filed))
      have same := kept.alone l (.inr (.inl filed)) (.inr (.inl filed')) (by rw [in_extent]; omega)
        (by rw [in_extent]; omega)
      rw [same] at first
      omega

def shelvedTree (p : PageCache) (s : Nat) : Nat → Option Nat :=
  update (update p.radixTree (p.spans s).id (some s)) ((p.spans s).id + (p.spans s).nPages - 1) (some s)

theorem shelve_kept (kept : Kept p held {s} area) (blank : ∀ page ∈ p.extent s, p.radixTree page = none)
    (size : (p.spans s).nPages < nPageList) :
    ∃ q, shelve p s = some q ∧ Kept q held ∅ area ∧ (∀ k, k ≠ s → q.spans k = p.spans k) ∧ q.system = p.system := by
  have owns : s ∈ p.owned held {s} := .inr (.inr rfl)
  have unfiled : ¬p.Filed s := fun found => (kept.parted s found).2 rfl
  have sized := kept.sized s owns
  have fits := kept.fits owns
  have computed : shelve p s = some {p with
      spans := update p.spans s {p.spans s with isUsed := false}
      spanLists := update p.spanLists (p.spans s).nPages (s :: p.spanLists (p.spans s).nPages)
      radixTree := shelvedTree p s} := by
    simp only [shelve,Option.bind_eq_bind]
    rw [pushFront_of_lt size,Option.bind_some]
    simp only [write_same]
    rw [set_of_lt (show (p.spans s).id < pageLimit by omega),Option.bind_some]
    simp only [write_same]
    rw [set_of_lt (by omega)]
    simp only [write,shelvedTree]
  have marked := kept.toLayout.write (h := s) (fun sp => {sp with isUsed := false}) rfl rfl
    fun found => absurd found unfiled
  have id : ((p.write s fun sp => {sp with isUsed := false}).spans s).id = (p.spans s).id := by rw [write_same]
  have pages : ((p.write s fun sp => {sp with isUsed := false}).spans s).nPages = (p.spans s).nPages := by
    rw [write_same]
  have filed := marked.shelve (shelvedTree p s)
    (fun page beyond => by
      rw [in_extent,id,pages] at beyond
      simp only [shelvedTree]
      rw [Function.update_of_ne (by omega),Function.update_of_ne (by omega),write_radixTree])
    (fun page under final => by
      rw [AtEnd,id,pages] at final
      simp only [shelvedTree]
      by_cases last : page = (p.spans s).id + (p.spans s).nPages - 1
      · rw [last,Function.update_self]
      · rw [Function.update_of_ne last,show page = (p.spans s).id by omega,Function.update_self])
    (fun page under middle => by
      rw [AtEnd,id,pages] at middle
      rw [in_extent,id,pages] at under
      simp only [shelvedTree]
      rw [Function.update_of_ne (by omega),Function.update_of_ne (by omega)]
      exact blank page under)
    (by rw [pages]; exact size) (by rw [write_same])
  rw [pages,write_spanLists] at filed
  have others : ∀ k, k ≠ s → update p.spans s {p.spans s with isUsed := false} k = p.spans k := fun k other =>
    Function.update_of_ne other ..
  refine ⟨_,computed,⟨filed,kept.mapped,?_⟩,others,rfl⟩
  intro k user
  change nPageList ≤ (update p.spans s _ k).nPages → 0 < (update p.spans s _ k).id ∧
    ((update p.spans s _ k).id,(update p.spans s _ k).nPages) ∈ _
  rw [others k fun same => kept.aside k user same]
  exact kept.whole k user

theorem erased_kept (kept : Kept p held ∅ area) (user : s ∈ held) :
    Kept (eraseRange p (p.spans s).id (p.spans s).nPages) (held \ {s}) {s} area ∧
      eraseRange p (p.spans s).id (p.spans s).nPages = p.paint (p.spans s).id (p.spans s).nPages none := by
  have computed := eraseRange_eq (p := p) (kept.fits (.inl user))
  have loose := kept.toLayout.lift user
  rw [insert_empty_eq] at loose
  have painted := loose.paint_loose (s := s) rfl (p.spans s).id (p.spans s).nPages none (Nat.le_refl _) (Nat.le_refl _)
  rw [computed]
  exact ⟨⟨painted,kept.mapped,fun k other => kept.whole k other.1⟩,rfl⟩

def returned (p : PageCache) (s : Nat) : PageCache :=
  {p.paint (p.spans s).id (p.spans s).nPages none with
    system := p.system.erase ((p.spans s).id,(p.spans s).nPages)}

theorem release_large (kept : Kept p held ∅ area) (user : s ∈ held) (large : nPageList - 1 < (p.spans s).nPages) :
    ∃ q, releaseSpanToPageCache p s = some q ∧ (∃ area, Kept q (held \ {s}) ∅ area) ∧ q.spans = p.spans ∧
      (∀ page ∈ p.extent s, q.radixTree page = none) ∧ ((p.spans s).id,(p.spans s).nPages) ∈ p.system ∧
      q.system = p.system.erase ((p.spans s).id,(p.spans s).nPages) := by
  obtain ⟨loose,painted⟩ := erased_kept kept user
  rw [painted] at loose
  have blank : ∀ page ∈ p.extent s, (p.paint (p.spans s).id (p.spans s).nPages none).radixTree page = none :=
    fun page under => if_pos under
  have gone := loose.toLayout.discard rfl blank
  rw [Set.sdiff_self] at gone
  obtain ⟨real,given⟩ := kept.whole s user (Nat.le_of_pred_lt large)
  have freed : systemFree (p.paint (p.spans s).id (p.spans s).nPages none) (p.spans s).id (p.spans s).nPages =
      returned p s := if_neg (by omega)
  refine ⟨(returned p s).deleteObject s,by rw [releaseSpanToPageCache,if_pos large,painted,freed],⟨_,⟨⟨gone.tiles,gone.sized,gone.object,gone.filed,gone.nodup,
    gone.parted,gone.aside,gone.bound,gone.taken,gone.ends,gone.hollow,gone.outside,gone.spare,gone.distinct⟩,?_,?_⟩⟩,
    rfl,blank,given,rfl⟩
  · rintro page ⟨found,outside⟩
    obtain ⟨region,given,inside⟩ := kept.mapped page found
    refine ⟨region,(List.mem_erase_of_ne fun same => outside ?_).mpr given,inside⟩
    rw [same] at inside
    exact inside
  · rintro k ⟨user',other⟩ big
    refine ⟨(kept.whole k user' big).1,(List.mem_erase_of_ne fun same => other ?_).mpr (kept.whole k user' big).2⟩
    have first : (p.spans k).id = (p.spans s).id := congrArg Prod.fst same
    have size := kept.sized k (.inl user')
    have size' := kept.sized s (.inl user)
    exact kept.alone (p.spans k).id (.inl user') (.inl user) (by rw [in_extent]; omega) (by rw [in_extent]; omega)

theorem release_small (kept : Kept p held ∅ area) (user : s ∈ held) (small : ¬nPageList - 1 < (p.spans s).nPages)
    (ready : Ready p held s) : ∃ q, releaseSpanToPageCache p s = some q ∧ Kept q (held \ {s}) ∅ area ∧
      (∀ k ∈ held, k ≠ s → q.spans k = p.spans k) ∧ q.system = p.system := by
  obtain ⟨loose,painted⟩ := erased_kept kept user
  have below : (p.spans s).nPages < nPageList := Nat.lt_of_le_of_lt (Nat.not_lt.mp small) (by decide)
  have blank : ∀ page ∈ p.extent s, (p.paint (p.spans s).id (p.spans s).nPages none).radixTree page = none :=
    fun page under => if_pos under
  rw [painted] at loose
  have enough : ∀ {r : PageCache}, nPageList ≤ nPageList + (r.spans s).nPages := Nat.le_add_right ..
  obtain ⟨middle,backward,pushed⟩ := mergeBackward_pushed loose blank below enough
    fun h other free => ready.behind below h other.1 other.2 free
  have merged := pushed.merged
  obtain ⟨last,forward,further⟩ := mergeForward_merged merged.kept merged.blank merged.size enough
    fun h other free => ready_ahead loose pushed other <| ready.ahead below h other.1 other.2 <| by
      rwa [merged.frame h other.2] at free
  have both := merged.trans further
  obtain ⟨q,shelved,done,same,system⟩ := shelve_kept both.kept both.blank both.size
  refine ⟨q,?_,done,fun k _ other => (same k other).trans (both.frame k other),system.trans both.system⟩
  simp only [releaseSpanToPageCache,if_neg small,painted,Option.bind_eq_bind,backward,Option.bind_some,forward,shelved]

theorem release_kept (kept : Kept p held ∅ area) (user : s ∈ held) (ready : Ready p held s) :
    ∃ q, releaseSpanToPageCache p s = some q ∧ (∃ area, Kept q (held \ {s}) ∅ area) ∧
      ∀ k ∈ held, k ≠ s → q.spans k = p.spans k := by
  by_cases large : nPageList - 1 < (p.spans s).nPages
  · obtain ⟨q,released,kept',same,_,_⟩ := release_large kept user large
    exact ⟨q,released,kept',fun k _ _ => by rw [same]⟩
  · obtain ⟨q,released,kept',same,_⟩ := release_small kept user large ready
    exact ⟨q,released,⟨area,kept'⟩,same⟩

end LinuxOS.Concurrent
