import LinuxOS.Pages.Moves

namespace LinuxOS.Pool
open Function (update)
open Pages Pages.PageCache
variable {p q : PageCache} {held loose area : Set Nat} {h s n span prev page pageNum fuel : Nat}

def mapFreeSpan (p : PageCache) (span : Nat) : Option PageCache := do
  let p ← p.mapSpanRange (p.spans span).id none (p.spans span).nPages
  let p ← p.set (p.spans span).id (some span)
  p.set ((p.spans span).id + (p.spans span).nPages - 1) (some span)

-- GetNewSpan when the bucket of the wanted size has a span: all of it is given.
def reuse (p : PageCache) (span : Nat) : Option (PageCache × Nat) := do
  let p := p.write span fun s => {s with isUsed := true}
  let p ← p.mapSpanRange (p.spans span).id (some span) (p.spans span).nPages
  some (p,span)

-- GetNewSpan when a larger bucket has one: the front is given, the rest is filed.
def split (p : PageCache) (npage pageNum : Nat) : Option (PageCache × Nat) := do
  let kpage := p.newObject.2
  let p := p.newObject.1
  let p := p.write kpage fun s => {s with nPages := pageNum, id := (p.spans npage).id, isUsed := true}
  let p := p.write npage fun s => {s with id := s.id + pageNum, nPages := s.nPages - pageNum, isUsed := false}
  let p ← p.pushFront (p.spans npage).nPages npage
  let p ← p.mapSpanRange (p.spans kpage).id (some kpage) (p.spans kpage).nPages
  let p ← mapFreeSpan p npage
  some (p,kpage)

-- GetNewSpan when there is none: 128 pages from the system (`page` is where).
def refill (p : PageCache) (page : Nat) : Option PageCache :=
  let span := p.newObject.2
  let p := p.newObject.1.write span fun s => {s with nPages := nPageList - 1, isUsed := false}
  let p := (p.systemAlloc page (nPageList - 1)).write span fun s => {s with id := page}
  p.pushFront (nPageList - 1) span

-- `for (i = page_num + 1; i < NPAGE_LIST; ++i) if (!_span_lists[i].empty()) ... pop_back()`
def popLarger (p : PageCache) (pageNum : Nat) : Option (PageCache × Nat) :=
  (List.range' (pageNum+1) (nPageList-(pageNum+1))).findSome? p.popBack

-- `answers` are the pages at which SystemAlloc places its regions; it throws when
-- they run out.
def getNewSpan (p : PageCache) (pageNum : Nat) (answers : List Nat) : Option (PageCache × Nat) :=
  if pageNum < nPageList then
    match p.popBack pageNum with
    | some (p,span) => reuse p span
    | none =>
      match popLarger p pageNum with
      | some (p,npage) => split p npage pageNum
      | none =>
        match answers with
        | [] => none
        | page :: rest => (refill p page).bind fun p => getNewSpan p pageNum rest
  else none

-- `_span_lists[n].erase(span)`; the links of a span in no list are null.
def erase (p : PageCache) (span : Nat) : Option PageCache :=
  if (List.range nPageList).any fun n => (p.spanLists n).contains span then some (p.unlink span) else none

def absorbPrev (p : PageCache) (span prev : Nat) : Option PageCache := do
  let oldId := (p.spans span).id
  let p := p.write span fun s => {s with id := (p.spans prev).id, nPages := s.nPages + (p.spans prev).nPages}
  let p ← erase p prev
  let p ← p.mapSpanRange (p.spans prev).id none (p.spans prev).nPages
  let p ← p.mapSpanRange oldId none ((p.spans span).nPages - (p.spans prev).nPages)
  some (p.deleteObject prev)

def absorbNext (p : PageCache) (span next : Nat) : Option PageCache := do
  let oldPages := (p.spans span).nPages
  let p := p.write span fun s => {s with nPages := s.nPages + (p.spans next).nPages}
  let p ← erase p next
  let p ← p.mapSpanRange (p.spans next).id none (p.spans next).nPages
  let p ← p.mapSpanRange (p.spans span).id none oldPages
  some (p.deleteObject next)

-- The two `while (true)` loops, with fuel for as many turns as there are pages.
def mergeBackward : Nat → PageCache → Nat → Option PageCache
  | 0,_,_ => none
  | fuel+1,p,span =>
    match p.get (pageBefore (p.spans span).id) with
    | none => some p
    | some prev =>
      if (p.spans prev).isUsed then some p
      else if (p.spans prev).nPages + (p.spans span).nPages > nPageList - 1 then some p
      else (absorbPrev p span prev).bind fun p => mergeBackward fuel p span

def mergeForward : Nat → PageCache → Nat → Option PageCache
  | 0,_,_ => none
  | fuel+1,p,span =>
    match p.get ((p.spans span).id + (p.spans span).nPages) with
    | none => some p
    | some next =>
      if (p.spans next).isUsed then some p
      else if (p.spans next).nPages + (p.spans span).nPages > nPageList - 1 then some p
      else (absorbNext p span next).bind fun p => mergeForward fuel p span

def shelve (p : PageCache) (span : Nat) : Option PageCache := do
  let p ← p.pushFront (p.spans span).nPages span
  let p := p.write span fun s => {s with isUsed := false}
  mapFreeSpan p span

def releaseSpanToPageCache (p : PageCache) (span : Nat) : Option PageCache := do
  let p ← mergeBackward nPageList p span
  let p ← mergeForward nPageList p span
  shelve p span

-- What Pool's operations keep: users' spans are marked, and no block of a span in
-- the page cache is out (FetchFromPageCache does not reset the count).
structure Kept (p : PageCache) (held loose area : Set Nat) : Prop extends Layout p held loose area where
  used : ∀ h ∈ held, (p.spans h).isUsed = true
  idle : ∀ h, p.Filed h ∨ h ∈ loose → (p.spans h).useCount = 0

theorem kept_start : Kept {} ∅ ∅ ∅ := ⟨layout_start,by simp,by simp [Filed]⟩

theorem Kept.unlink (kept : Kept p held ∅ area) (filed : p.Filed h) : Kept (p.unlink h) held {h} area := by
  have loose := kept.toLayout.unlink filed
  rw [insert_empty_eq] at loose
  refine ⟨loose,kept.used,?_⟩
  rintro k (found | rfl)
  · exact kept.idle k (.inl ((filed_unlink kept.toLayout).mp found).2)
  · exact kept.idle k (.inl filed)

def freeTree (p : PageCache) (span : Nat) : Nat → Option Nat := fun page =>
  if page = (p.spans span).id ∨ page + 1 = (p.spans span).id + (p.spans span).nPages then some span
  else if (p.spans span).id ≤ page ∧ page < (p.spans span).id + (p.spans span).nPages then none
  else p.radixTree page

theorem mapFreeSpan_eq (sized : 1 ≤ (p.spans span).nPages)
    (bound : (p.spans span).id + (p.spans span).nPages ≤ pageLimit) :
    mapFreeSpan p span = some {p with radixTree := freeTree p span} := by
  have low : (p.spans span).id < pageLimit := by omega
  have high : (p.spans span).id + (p.spans span).nPages - 1 < pageLimit := by omega
  simp only [mapFreeSpan,mapSpanRange_eq bound,Option.bind_eq_bind,Option.bind_some,paint_spans,
    set_of_lt low,set_of_lt high,Option.some.injEq]
  simp only [paint,PageCache.mk.injEq,true_and,and_true]
  funext page
  unfold freeTree
  by_cases last : page = (p.spans span).id + (p.spans span).nPages - 1
  · rw [last,Function.update_self,if_pos (.inr (by omega))]
  · rw [Function.update_of_ne last]
    by_cases first : page = (p.spans span).id
    · rw [first,Function.update_self,if_pos (.inl rfl)]
    · rw [Function.update_of_ne first,if_neg (show ¬(_ ∨ _) by omega)]

structure Given (p q : PageCache) (held area : Set Nat) (n h : Nat) : Prop where
  absent : h ∉ held
  kept : Kept q (insert h held) ∅ area
  size : (q.spans h).nPages = n
  idle : (q.spans h).useCount = 0
  frame : ∀ k ∈ held, q.spans k = p.spans k

theorem reuse_given (kept : Kept p held {h} area) :
    ∃ q, reuse p h = some (q,h) ∧ q.system = p.system ∧ Given p q held area (p.spans h).nPages h := by
  have owns : h ∈ p.owned held {h} := .inr (.inr rfl)
  have absent : h ∉ held := fun user => kept.aside h user rfl
  have unfiled : ¬p.Filed h := fun found => (kept.parted h found).2 rfl
  have marked : Layout (p.write h fun s => {s with isUsed := true}) held {h} area :=
    kept.toLayout.write _ rfl rfl fun found => absurd found unfiled
  have painted := marked.paint_loose (s := h) rfl (p.spans h).id (p.spans h).nPages (some h)
    (by rw [write_same]) (by rw [write_same])
  have handed := painted.hand rfl fun page under => by
    rw [in_extent,paint_spans,write_same] at under
    exact if_pos under
  rw [Set.sdiff_self] at handed
  refine ⟨_,?computed,?system,absent,⟨handed,?used,?idle⟩,?pages,?unused,?others⟩
  case computed => simp only [reuse,write_same,mapSpanRange_eq (kept.fits owns),Option.bind_eq_bind,Option.bind_some]
  case system => rfl
  case used =>
    rintro k (rfl | user)
    · rw [paint_spans,write_same]
    · rw [paint_spans,write_other _ (ne_of_mem_of_not_mem user absent)]
      exact kept.used k user
  case idle =>
    rintro k (found | none')
    · have other : k ≠ h := fun same => unfiled (same ▸ found)
      rw [paint_spans,write_other _ other]
      exact kept.idle k (.inl found)
    · cases none'
  case pages => rw [paint_spans,write_same]
  case unused => rw [paint_spans,write_same]; exact kept.idle h (.inr rfl)
  case others => intro k user; rw [paint_spans,write_other _ (ne_of_mem_of_not_mem user absent)]

def divide (p : PageCache) (npage pageNum : Nat) : PageCache :=
  divideWith p npage (fun s => {s with nPages := pageNum, id := (p.newObject.1.spans npage).id, isUsed := true})
    fun s => {s with id := s.id + pageNum, nPages := s.nPages - pageNum, isUsed := false}

@[simp] theorem divide_spanLists : (divide p s n).spanLists = p.spanLists := newObject_spanLists
@[simp] theorem divide_radixTree : (divide p s n).radixTree = p.radixTree := newObject_radixTree
@[simp] theorem divide_system : (divide p s n).system = p.system := newObject_system

theorem divide_piece (other : s ≠ p.newObject.2) : (divide p s n).spans p.newObject.2 =
    {nPages := n, id := (p.spans s).id, isUsed := true} := by
  rw [divide,divideWith_piece other,newObject_other other]

theorem divide_rest (other : s ≠ p.newObject.2) : (divide p s n).spans s =
    {p.spans s with id := (p.spans s).id + n, nPages := (p.spans s).nPages - n, isUsed := false} :=
  divideWith_rest other

theorem split_given (kept : Kept p held {s} area) (some' : 1 ≤ n) (less : n < (p.spans s).nPages)
    (below : (p.spans s).nPages < nPageList) :
    ∃ q h, split p s n = some (q,h) ∧ q.system = p.system ∧ Given p q held area n h := by
  obtain ⟨divided,other,absent⟩ :
      Layout (divide p s n) held {p.newObject.2,s} _ ∧ s ≠ p.newObject.2 ∧ p.newObject.2 ∉ p.owned held {s} :=
    kept.toLayout.divideWith (fun other => by rw [newObject_other other]) rfl rfl rfl some' less
  have piece := divide_piece (n := n) other
  have rest := divide_rest (n := n) other
  have fits := kept.fits (h := s) (.inr (.inr rfl))
  have elsewhere : ∀ k, k ∈ held ∨ p.Filed k → (divide p s n).spans k = p.spans k := by
    intro k role
    have owns : k ∈ p.owned held {s} := role.imp_right .inl
    refine divideWith_other ?_ (ne_of_mem_of_not_mem owns absent)
    rintro rfl
    exact role.elim (fun user => kept.aside k user rfl) fun found => (kept.parted k found).2 rfl
  set h := p.newObject.2 with new
  have restId : ((divide p s n).spans s).id = (p.spans s).id + n := by rw [rest]
  have restPages : ((divide p s n).spans s).nPages = (p.spans s).nPages - n := by rw [rest]
  have computed : split p s n = some ({divide p s n with
      spanLists := update p.spanLists ((p.spans s).nPages - n) (s :: p.spanLists ((p.spans s).nPages - n)),
      radixTree := freeTree ((divide p s n).paint (p.spans s).id n (some h)) s},h) := by
    unfold split
    change ((divide p s n).pushFront ((divide p s n).spans s).nPages s).bind (fun p =>
      (p.mapSpanRange (p.spans h).id (some h) (p.spans h).nPages).bind fun p =>
        (mapFreeSpan p s).bind fun p => some (p,h)) = _
    rw [restPages,pushFront_of_lt (by omega),Option.bind_some,divide_spanLists]
    simp only [piece]
    rw [mapSpanRange_eq (by omega),Option.bind_some,mapFreeSpan_eq (by rw [paint_spans,restPages]; omega)
      (by rw [paint_spans,restId,restPages]; omega),Option.bind_some]
    rfl
  have tree : ∀ page, freeTree ((divide p s n).paint (p.spans s).id n (some h)) s page =
      if page = (p.spans s).id + n ∨ page + 1 = (p.spans s).id + (p.spans s).nPages then some s
      else if (p.spans s).id + n ≤ page ∧ page < (p.spans s).id + (p.spans s).nPages then none
      else if (p.spans s).id ≤ page ∧ page < (p.spans s).id + n then some h else p.radixTree page := by
    intro page
    have total : (p.spans s).id + n + ((p.spans s).nPages - n) = (p.spans s).id + (p.spans s).nPages := by omega
    simp only [freeTree,paint_spans,restId,restPages,paint_radixTree,divide_radixTree,total]
  generalize freeTree ((divide p s n).paint (p.spans s).id n (some h)) s = final at computed tree
  have shared := divided.share final other
    (fun page beyond beyond' => by
      simp only [in_extent,piece,restId,restPages] at beyond beyond'
      rw [tree,if_neg (by omega),if_neg (by omega),if_neg (by omega),divide_radixTree])
    (fun page under => by
      simp only [in_extent,piece] at under
      rw [tree,if_neg (by omega),if_neg (by omega),if_pos under])
    (fun page under final => by
      simp only [in_extent,AtEnd,restId,restPages] at under final
      rw [tree,if_pos (by omega)])
    (fun page under middle => by
      simp only [in_extent,AtEnd,restId,restPages] at under middle
      rw [tree,if_neg (by omega),if_pos (by omega)])
    (by omega) (by rw [rest])
  rw [restPages,divide_spanLists] at shared
  refine ⟨_,h,computed,?system,fun user => absent (.inl user),⟨shared,?used,?idle⟩,?size,?unused,?others⟩
  case system => exact divide_system (s := s) (n := n)
  case used =>
    rintro k (rfl | user)
    · change ((divide p s n).spans h).isUsed = true
      rw [piece]
    · change ((divide p s n).spans k).isUsed = true
      rw [elsewhere k (.inl user)]; exact kept.used k user
  case idle =>
    rintro k (found | none')
    · change ((divide p s n).spans k).useCount = 0
      rcases (filed_push (pushFront_of_lt (show (p.spans s).nPages - n < nPageList by omega))).mp found with rfl | old
      · rw [rest]; exact kept.idle k (.inr rfl)
      · rw [elsewhere k (.inr old)]; exact kept.idle k (.inl old)
    · cases none'
  case size =>
    change ((divide p s n).spans h).nPages = n
    rw [piece]
  case unused =>
    change ((divide p s n).spans h).useCount = 0
    rw [piece]
  case others => intro k user; exact elsewhere k (.inl user)

theorem refill_eq : refill p page =
    (p.grown page (nPageList-1) (nPageList-1)).pushFront (nPageList-1) p.newObject.2 := by
  have spans : ∀ old : Nat → Span, old p.newObject.2 = {} →
      update (update old p.newObject.2 {old p.newObject.2 with nPages := nPageList-1, isUsed := false}) p.newObject.2
        {update old p.newObject.2 {old p.newObject.2 with nPages := nPageList-1, isUsed := false} p.newObject.2 with
          id := page} = update old p.newObject.2 {id := page, nPages := nPageList-1} := by
    intro old empty
    rw [Function.update_idem,Function.update_self,empty]
  unfold refill grown
  simp only [write,systemAlloc,newObject_system,spans _ newObject_same]

theorem refill_given (kept : Kept p held ∅ {page | p.Mapped page}) (fresh : p.Fresh page (nPageList-1)) :
    Kept (p.grown page (nPageList-1) (nPageList-1)) held {p.newObject.2}
      {low | (p.grown page (nPageList-1) (nPageList-1)).Mapped low} ∧ p.newObject.2 ∉ held := by
  obtain ⟨layout,absent⟩ := grown_layout (m := nPageList-1) (n := nPageList-1) kept.toLayout (by decide) fresh.1
    fun low first last => by
      rintro ⟨region,given,inside⟩
      have clear := fresh.2 region given
      omega
  have floor : {page | p.Mapped page} ∪ {low | page ≤ low ∧ low < page + (nPageList-1)} =
      {low | (p.grown page (nPageList-1) (nPageList-1)).Mapped low} := by
    ext low
    simp only [Set.mem_union,Set.mem_ofPred_eq,Mapped,grown,List.mem_cons,exists_eq_or_imp]
    exact or_comm
  rw [floor] at layout
  refine ⟨⟨layout,?_,?_⟩,fun user => absent (.inl user)⟩
  · intro k user
    rw [grown_other (ne_of_mem_of_not_mem user fun found => absent (.inl found))]
    exact kept.used k user
  · rintro k (found | rfl)
    · have found : p.Filed k := by simpa only [Filed,grown_spanLists] using found
      rw [grown_other (fun other => absent (other ▸ .inr (.inl found)))]
      exact kept.idle k (.inl found)
    · rw [grown_span]

theorem popLarger_some (popped : popLarger p n = some (q,h)) :
    ∃ i, n < i ∧ i < nPageList ∧ p.popBack i = some (q,h) := by
  obtain ⟨i,member,popped⟩ := List.exists_of_findSome?_eq_some popped
  obtain ⟨low,high⟩ := List.mem_range'_1.mp member
  exact ⟨i,by omega,by omega,popped⟩

theorem popLarger_none (popped : popLarger p n = none) (low : n < m) (high : m < nPageList) : p.spanLists m = [] := by
  have empty := List.findSome?_eq_none_iff.mp popped m (List.mem_range'_1.mpr (by omega))
  simpa [popBack] using empty

theorem popBack_none (popped : p.popBack n = none) : p.spanLists n = [] := by simpa [popBack] using popped

theorem pop_only (empty : ∀ m, n ≤ m → m < nPageList-1 → p.spanLists m = []) (less : n < nPageList-1)
    (pushed : p.pushFront (nPageList-1) s = some q) :
    q.popBack n = none ∧ popLarger q n = q.popBack (nPageList-1) := by
  obtain ⟨_,made⟩ := Option.ite_none_right_eq_some.mp pushed
  have others : ∀ m, n ≤ m → m < nPageList-1 → q.popBack m = none := by
    intro m low high
    cases made
    simp [popBack,Function.update_of_ne (show m ≠ nPageList-1 by omega),empty m low high]
  refine ⟨others n (Nat.le_refl n) less,?_⟩
  cases larger : popLarger q n with
  | none =>
    have none' := popLarger_none larger less (by decide)
    simp [popBack,none']
  | some found =>
    obtain ⟨i,low,high,popped⟩ := popLarger_some larger
    rcases Nat.eq_or_lt_of_le (show i ≤ nPageList-1 by omega) with rfl | early
    · exact popped.symm
    · rw [others i (by omega) early] at popped; cases popped

def asks (p : PageCache) (pageNum : Nat) : Bool := (p.popBack pageNum).isNone && (popLarger p pageNum).isNone

theorem asks_iff : asks p n = true ↔ p.popBack n = none ∧ popLarger p n = none := by
  rw [asks,Bool.and_eq_true,Option.isNone_iff_eq_none,Option.isNone_iff_eq_none]

theorem getNewSpan_reuse (answers : List Nat) (below : n < nPageList) (popped : p.popBack n = some (q,h)) :
    getNewSpan p n answers = reuse q h := by
  unfold getNewSpan
  rw [if_pos below,popped]

theorem getNewSpan_split (answers : List Nat) (below : n < nPageList) (popped : p.popBack n = none)
    (larger : popLarger p n = some (q,h)) : getNewSpan p n answers = split q h n := by
  unfold getNewSpan
  rw [if_pos below,popped,larger]

theorem getNewSpan_refill (page : Nat) (answers : List Nat) (below : n < nPageList) (popped : p.popBack n = none)
    (larger : popLarger p n = none) :
    getNewSpan p n (page :: answers) = (refill p page).bind fun p => getNewSpan p n answers := by
  rw [getNewSpan.eq_def,if_pos below,popped,larger]

theorem Given.from_same {before : PageCache} (given : Given p q held area n h)
    (same : ∀ k ∈ held, p.spans k = before.spans k) : Given before q held area n h :=
  ⟨given.absent,given.kept,given.size,given.idle,fun k user => (given.frame k user).trans (same k user)⟩

theorem floor_start : ({page | ({} : PageCache).Mapped page} : Set Nat) = ∅ := by
  ext page; simp [Mapped]

theorem floor_same (system : q.system = p.system) : ({page | q.Mapped page} : Set Nat) = {page | p.Mapped page} := by
  simp only [Mapped,system]

theorem getNewSpan_listed (kept : Kept p held ∅ {page | p.Mapped page}) (answers : List Nat) (below : n < nPageList)
    (popped : p.popBack n = some (q,h)) :
    ∃ r, getNewSpan p n answers = some (r,h) ∧ Given p r held {page | r.Mapped page} n h := by
  obtain ⟨found,rfl⟩ := popBack_eq kept.toLayout popped
  obtain ⟨r,served,system,given⟩ := reuse_given (kept.unlink ⟨n,found⟩)
  refine ⟨r,(getNewSpan_reuse _ below popped).trans served,?_⟩
  rw [floor_same (p := p) system,← (kept.filed n h found).1]
  exact given.from_same fun k user => rfl

theorem getNewSpan_larger (kept : Kept p held ∅ {page | p.Mapped page}) (answers : List Nat) (some' : 1 ≤ n)
    (below : n < nPageList) (popped : p.popBack n = none) (larger : popLarger p n = some (q,s)) :
    ∃ r h, getNewSpan p n answers = some (r,h) ∧ Given p r held {page | r.Mapped page} n h := by
  obtain ⟨i,low,high,popped'⟩ := popLarger_some larger
  obtain ⟨found,rfl⟩ := popBack_eq kept.toLayout popped'
  have size := (kept.filed i s found).1
  obtain ⟨r,h,served,system,given⟩ := split_given (kept.unlink ⟨i,found⟩) some'
    (by rw [unlink_spans,size]; exact low) (by rw [unlink_spans,size]; exact high)
  refine ⟨r,h,(getNewSpan_split _ below popped larger).trans served,?_⟩
  rw [floor_same (p := p) system]
  exact given.from_same fun k user => rfl

theorem getNewSpan_stocked (kept : Kept p held ∅ {page | p.Mapped page}) (fresh : p.Fresh page (nPageList-1))
    (some' : 1 ≤ n) (below : n < nPageList) (popped : p.popBack n = none) (larger : popLarger p n = none) :
    ∃ r h, getNewSpan p n [page] = some (r,h) ∧ Given p r held {page | r.Mapped page} n h := by
  have empty : ∀ m, n ≤ m → m < nPageList → p.spanLists m = [] := by
    intro m low high
    rcases Nat.eq_or_lt_of_le low with rfl | low
    · exact popBack_none popped
    · exact popLarger_none larger low high
  obtain ⟨kept',absent⟩ := refill_given kept fresh
  have same : ∀ k ∈ held, (p.grown page (nPageList-1) (nPageList-1)).spans k = p.spans k := fun k user =>
    grown_other (ne_of_mem_of_not_mem user absent)
  have size : ((p.grown page (nPageList-1) (nPageList-1)).spans p.newObject.2).nPages = nPageList-1 := by
    rw [grown_span]
  have step := getNewSpan_refill page [] below popped larger
  have empty' : (p.grown page (nPageList-1) (nPageList-1)).spanLists (nPageList-1) = [] := by
    rw [grown_spanLists]; exact empty _ (by omega) (by decide)
  have elsewhere : ∀ m, n ≤ m → m < nPageList-1 →
      (p.grown page (nPageList-1) (nPageList-1)).spanLists m = [] := fun m low high => by
    rw [grown_spanLists]; exact empty m low (by omega)
  rw [refill_eq] at step
  generalize p.grown page (nPageList-1) (nPageList-1) = stocked at *
  generalize p.newObject.2 = s at *
  obtain ⟨r,pushed⟩ : ∃ r, stocked.pushFront (nPageList-1) s = some r := ⟨_,pushFront_of_lt (by decide)⟩
  have taken := (pop_pushed empty' pushed).1
  rw [pushed,Option.bind_some] at step
  rcases Nat.eq_or_lt_of_le (show n ≤ nPageList-1 by omega) with rfl | less
  · obtain ⟨q,served,system,given⟩ := reuse_given kept'
    refine ⟨q,s,step.trans ((getNewSpan_reuse _ below taken).trans served),?_⟩
    rw [floor_same system,← size]
    exact given.from_same same
  · obtain ⟨popped,larger⟩ := pop_only elsewhere less pushed
    obtain ⟨q,h,served,system,given⟩ := split_given kept' some' (by rw [size]; exact less)
      (by rw [size]; decide)
    refine ⟨q,h,step.trans ((getNewSpan_split _ below popped (larger.trans taken)).trans served),?_⟩
    rw [floor_same system]
    exact given.from_same same

theorem getNewSpan_given (kept : Kept p held ∅ {page | p.Mapped page}) (some' : 1 ≤ n) (below : n < nPageList)
    (backed : asks p n = true → p.Fresh page (nPageList-1)) :
    ∃ q h, getNewSpan p n [page] = some (q,h) ∧ Given p q held {low | q.Mapped low} n h := by
  cases popped : p.popBack n with
  | some found =>
    obtain ⟨q,served,given⟩ := getNewSpan_listed kept [page] below popped
    exact ⟨q,found.2,served,given⟩
  | none =>
    cases larger : popLarger p n with
    | some found => exact getNewSpan_larger kept [page] some' below popped larger
    | none => exact getNewSpan_stocked kept (backed (asks_iff.mpr ⟨popped,larger⟩)) some' below popped larger

theorem reuse_system (reused : reuse p s = some (q,h)) : q.system = p.system := by
  obtain ⟨r,mapped,made⟩ := Option.bind_eq_some_iff.mp reused
  cases made
  rw [mapSpanRange_system mapped,write_system]

theorem mapFreeSpan_system (mapped : mapFreeSpan p s = some q) : q.system = p.system := by
  obtain ⟨r,cleared,rest⟩ := Option.bind_eq_some_iff.mp mapped
  obtain ⟨first,written,written'⟩ := Option.bind_eq_some_iff.mp rest
  rw [set_system written',set_system written,mapSpanRange_system cleared]

theorem split_system (divided : split p s n = some (q,h)) : q.system = p.system := by
  obtain ⟨filed,pushed,made⟩ := Option.bind_eq_some_iff.mp divided
  obtain ⟨mapped,ranged,made⟩ := Option.bind_eq_some_iff.mp made
  obtain ⟨last,freed,made⟩ := Option.bind_eq_some_iff.mp made
  cases made
  rw [mapFreeSpan_system freed,mapSpanRange_system ranged,pushFront_system pushed,write_system,write_system,
    newObject_system]

theorem refill_system (refilled : refill p page = some q) : q.system = (page,nPageList-1) :: p.system := by
  rw [pushFront_system refilled,write_system,systemAlloc,write_system,newObject_system]

theorem popLarger_system (popped : popLarger p n = some (q,h)) : q.system = p.system := by
  obtain ⟨i,_,_,popped'⟩ := popLarger_some popped
  exact popBack_system popped'

theorem getNewSpan_stock (answers : List Nat) (stock : asks p n = false) (served : getNewSpan p n answers = some (q,h)) :
    q.system = p.system := by
  have below : n < nPageList := by
    rw [getNewSpan.eq_def] at served
    exact (Option.ite_none_right_eq_some.mp served).1
  cases popped : p.popBack n with
  | some found =>
    rw [getNewSpan_reuse answers below popped] at served
    exact (reuse_system served).trans (popBack_system popped)
  | none =>
    cases larger : popLarger p n with
    | some found =>
      rw [getNewSpan_split answers below popped larger] at served
      exact (split_system served).trans (popLarger_system larger)
    | none => rw [asks_iff.mpr ⟨popped,larger⟩] at stock; cases stock

theorem getNewSpan_none (served : getNewSpan p n [] = some (q,h)) : asks p n = false := by
  rw [getNewSpan.eq_def] at served
  obtain ⟨_,served⟩ := Option.ite_none_right_eq_some.mp served
  rw [Bool.eq_false_iff,Ne,asks_iff]
  rintro ⟨popped,larger⟩
  rw [popped,larger] at served
  cases served

theorem getNewSpan_system (served : getNewSpan p n [page] = some (q,h)) :
    q.system = if asks p n then (page,nPageList-1) :: p.system else p.system := by
  cases stock : asks p n with
  | false => exact getNewSpan_stock [page] stock served
  | true =>
    obtain ⟨popped,larger⟩ := asks_iff.mp stock
    have below : n < nPageList := by
      rw [getNewSpan.eq_def] at served
      exact (Option.ite_none_right_eq_some.mp served).1
    rw [getNewSpan_refill page [] below popped larger] at served
    obtain ⟨r,refilled,rest⟩ := Option.bind_eq_some_iff.mp served
    rw [getNewSpan_stock [] (getNewSpan_none rest) rest,refill_system refilled]
    rfl

theorem erase_listed (found : h ∈ p.spanLists n) (below : n < nPageList) : erase p h = some (p.unlink h) := by
  apply if_pos
  rw [List.any_eq_true]
  exact ⟨n,List.mem_range.mpr below,by simpa using found⟩

structure Merged (p q : PageCache) (held area : Set Nat) (s : Nat) : Prop where
  kept : Kept q held {s} area
  size : (q.spans s).nPages < nPageList
  frame : ∀ k, k ≠ s → q.spans k = p.spans k
  system : q.system = p.system

theorem Merged.trans {r : PageCache} (first : Merged p q held area s) (second : Merged q r held area s) :
    Merged p r held area s :=
  ⟨second.kept,second.size,fun k other => (second.frame k other).trans (first.frame k other),
    second.system.trans first.system⟩

theorem Kept.absorb (kept : Kept p held {s} area) (filed : p.Filed h)
    (made : q = {p.unlink h with spans := q.spans, freeObjects := h :: p.freeObjects, radixTree := q.radixTree})
    (agree : ∀ k, k ≠ s → q.spans k = p.spans k) (union : (q.spans s).extent = p.extent s ∪ p.extent h)
    (size : (q.spans s).nPages = (p.spans h).nPages + (p.spans s).nPages)
    (count : (q.spans s).useCount = (p.spans s).useCount)
    (room : (p.spans h).nPages + (p.spans s).nPages < nPageList)
    (same : ∀ page ∉ (q.spans s).extent, q.radixTree page = p.radixTree page) : Merged p q held area s := by
  have positive := kept.sized s (.inr (.inr rfl))
  have layout := kept.toLayout.absorb filed agree union (by omega) same
  rw [← made] at layout
  refine ⟨⟨layout,?_,?_⟩,by omega,agree,by rw [made]; rfl⟩
  · intro k user
    rw [agree k fun other => kept.aside k user other]
    exact kept.used k user
  · intro k role
    by_cases main : k = s
    · subst k; rw [count]; exact kept.idle s (.inr rfl)
    · rw [agree k main]
      rcases role with found | found
      · rw [made] at found
        exact kept.idle k (.inl ((filed_unlink kept.toLayout).mp found).2)
      · exact absurd found main

def fused (p : PageCache) (s h : Nat) (change : Span → Span) : PageCache :=
  ((((p.write s change).unlink h).paint (p.spans h).id (p.spans h).nPages none).paint (p.spans s).id
    (p.spans s).nPages none).deleteObject h

theorem Kept.fused {change : Span → Span} (kept : Kept p held {s} area) (filed : p.Filed h)
    (count : (change (p.spans s)).useCount = (p.spans s).useCount)
    (union : (change (p.spans s)).extent = p.extent s ∪ p.extent h)
    (size : (change (p.spans s)).nPages = (p.spans h).nPages + (p.spans s).nPages)
    (room : (p.spans h).nPages + (p.spans s).nPages < nPageList) : Merged p (fused p s h change) held area s := by
  refine kept.absorb filed rfl (fun k other => ?_) ?_ ?_ ?_ room ?_
  all_goals simp only [Pool.fused,deleteObject_spans,paint_spans,unlink_spans,write_same]
  · exact write_other _ other
  · exact union
  · exact size
  · exact count
  · intro page beyond
    rw [union,Set.mem_union,not_or,in_extent,in_extent] at beyond
    change (if _ then none else if _ then none else p.radixTree page) = _
    rw [if_neg (by omega),if_neg (by omega)]

theorem absorbPrev_eq (kept : Kept p held {s} area) (filed : p.Filed h) (different : h ≠ s)
    (meets : (p.spans h).id + (p.spans h).nPages = (p.spans s).id) : absorbPrev p s h = some (fused p s h fun sp => {sp with
      id := (p.spans h).id
      nPages := sp.nPages + (p.spans h).nPages}) := by
  have fits := kept.fits (h := s) (.inr (.inr rfl))
  obtain ⟨n,found⟩ := filed
  have below := (kept.filed n h found).2.1
  have total : (p.spans s).nPages + (p.spans h).nPages - (p.spans h).nPages = (p.spans s).nPages := by omega
  simp only [absorbPrev,Option.bind_eq_bind]
  rw [erase_listed (n := n) (by exact found) below,Option.bind_some,unlink_spans,write_other _ different,
    mapSpanRange_eq (by omega),Option.bind_some,paint_spans,unlink_spans,write_same,write_other _ different,total,
    mapSpanRange_eq fits,Option.bind_some]
  rfl

theorem absorbNext_eq (kept : Kept p held {s} area) (filed : p.Filed h) (different : h ≠ s)
    (meets : (p.spans h).id = (p.spans s).id + (p.spans s).nPages) : absorbNext p s h = some (fused p s h fun sp => {sp with
      nPages := sp.nPages + (p.spans h).nPages}) := by
  have fits := kept.fits (h := h) (.inr (.inl filed))
  obtain ⟨n,found⟩ := filed
  have below := (kept.filed n h found).2.1
  simp only [absorbNext,Option.bind_eq_bind]
  rw [erase_listed (n := n) (by exact found) below,Option.bind_some,unlink_spans,write_other _ different,
    mapSpanRange_eq fits,Option.bind_some,paint_spans,unlink_spans,write_same,
    mapSpanRange_eq (show (p.spans s).id + (p.spans s).nPages ≤ pageLimit by omega),Option.bind_some]
  rfl

theorem absorbPrev_merged (kept : Kept p held {s} area) (filed : p.Filed h) (different : h ≠ s)
    (meets : (p.spans h).id + (p.spans h).nPages = (p.spans s).id)
    (room : (p.spans h).nPages + (p.spans s).nPages < nPageList) :
    ∃ q, absorbPrev p s h = some q ∧ Merged p q held area s ∧
      (q.spans s).nPages = (p.spans h).nPages + (p.spans s).nPages := by
  refine ⟨_,absorbPrev_eq kept filed different meets,kept.fused filed rfl ?_ (Nat.add_comm ..) room,?_⟩
  · ext page
    simp only [mem_extent,Set.mem_union,in_extent]
    omega
  · simp only [fused,deleteObject_spans,paint_spans,unlink_spans,write_same]
    exact Nat.add_comm ..

theorem absorbNext_merged (kept : Kept p held {s} area) (filed : p.Filed h) (different : h ≠ s)
    (meets : (p.spans h).id = (p.spans s).id + (p.spans s).nPages)
    (room : (p.spans h).nPages + (p.spans s).nPages < nPageList) :
    ∃ q, absorbNext p s h = some q ∧ Merged p q held area s ∧
      (q.spans s).nPages = (p.spans h).nPages + (p.spans s).nPages := by
  refine ⟨_,absorbNext_eq kept filed different meets,kept.fused filed rfl ?_ (Nat.add_comm ..) room,?_⟩
  · ext page
    simp only [mem_extent,Set.mem_union,in_extent]
    omega
  · simp only [fused,deleteObject_spans,paint_spans,unlink_spans,write_same]
    exact Nat.add_comm ..

theorem Kept.unused (kept : Kept p held {s} area) (role : h ∈ held ∨ p.Filed h)
    (free : (p.spans h).isUsed = false) : p.Filed h := by
  apply role.resolve_left
  intro user
  rw [kept.used h user] at free; cases free

-- One turn of either loop, which finds `found` beside the span. Every turn that goes on
-- adds pages to the span, and 128 is the most it may have.
theorem turn_merged {found : Option Nat} {absorb : Nat → Option PageCache} {loop : PageCache → Option PageCache}
    (kept : Kept p held {s} area) (size : (p.spans s).nPages < nPageList)
    (leads : ∀ h, found = some h → h ∈ held ∨ p.Filed h)
    (absorbs : ∀ h, found = some h → p.Filed h → (p.spans h).nPages + (p.spans s).nPages < nPageList →
      ∃ q, absorb h = some q ∧ Merged p q held area s ∧ (q.spans s).nPages = (p.spans h).nPages + (p.spans s).nPages)
    (goesOn : ∀ q, Kept q held {s} area → (q.spans s).nPages < nPageList → (p.spans s).nPages < (q.spans s).nPages →
      ∃ r, loop q = some r ∧ Merged q r held area s) :
    ∃ q, (match found with
      | none => some p
      | some h =>
        if (p.spans h).isUsed then some p
        else if (p.spans h).nPages + (p.spans s).nPages > nPageList - 1 then some p
        else (absorb h).bind loop) = some q ∧ Merged p q held area s := by
  have stay : Merged p p held area s := ⟨kept,size,fun k _ => rfl,rfl⟩
  cases entry : found with
  | none => exact ⟨p,rfl,stay⟩
  | some h =>
    dsimp only
    cases free : (p.spans h).isUsed with
    | true => exact ⟨p,by rw [if_pos rfl],stay⟩
    | false =>
      have filed := kept.unused (leads h entry) free
      have positive := kept.sized h (.inr (.inl filed))
      rw [if_neg Bool.false_ne_true]
      split
      · exact ⟨p,rfl,stay⟩
      · rename_i room
        obtain ⟨middle,absorbed,merged,more⟩ := absorbs h entry filed (by omega)
        obtain ⟨q,ran,rest⟩ := goesOn middle merged.kept merged.size (by omega)
        exact ⟨q,by rw [absorbed,Option.bind_some,ran],merged.trans rest⟩

theorem mergeBackward_merged (kept : Kept p held {s} area) (size : (p.spans s).nPages < nPageList)
    (enough : nPageList ≤ fuel + (p.spans s).nPages) : ∃ q, mergeBackward fuel p s = some q ∧ Merged p q held area s := by
  induction fuel generalizing p with
  | zero => exact absurd enough (by omega)
  | succ fuel ih =>
    refine turn_merged kept size (fun h entry => (kept.toLayout.behind entry).1) (fun h entry filed room => ?_)
      fun q kept size more => ih kept size (by omega)
    obtain ⟨_,different,meets⟩ := kept.toLayout.behind entry
    exact absorbPrev_merged kept filed different meets room

theorem mergeForward_merged (kept : Kept p held {s} area) (size : (p.spans s).nPages < nPageList)
    (enough : nPageList ≤ fuel + (p.spans s).nPages) : ∃ q, mergeForward fuel p s = some q ∧ Merged p q held area s := by
  induction fuel generalizing p with
  | zero => exact absurd enough (by omega)
  | succ fuel ih =>
    refine turn_merged kept size (fun h entry => (kept.toLayout.ahead entry).1) (fun h entry filed room => ?_)
      fun q kept size more => ih kept size (by omega)
    obtain ⟨_,different,meets⟩ := kept.toLayout.ahead entry
    exact absorbNext_merged kept filed different meets room

theorem shelve_eq (kept : Kept p held {s} area) (size : (p.spans s).nPages < nPageList) : shelve p s = some {p with
    spans := update p.spans s {p.spans s with isUsed := false}
    spanLists := update p.spanLists (p.spans s).nPages (s :: p.spanLists (p.spans s).nPages)
    radixTree := freeTree p s} := by
  have owns : s ∈ p.owned held {s} := .inr (.inr rfl)
  simp only [shelve,Option.bind_eq_bind]
  rw [pushFront_of_lt size,Option.bind_some,mapFreeSpan_eq (by rw [write_same]; exact kept.sized s owns)
    (by rw [write_same]; exact kept.fits owns)]
  simp only [write,Option.some.injEq,PageCache.mk.injEq,true_and,and_true]
  funext page
  simp only [freeTree,Function.update_self]

theorem shelve_kept (kept : Kept p held {s} area) (size : (p.spans s).nPages < nPageList) :
    ∃ q, shelve p s = some q ∧ Kept q held ∅ area ∧ (∀ k, k ≠ s → q.spans k = p.spans k) ∧ q.system = p.system := by
  have unfiled : ¬p.Filed s := fun found => (kept.parted s found).2 rfl
  have sized := kept.sized s (.inr (.inr rfl))
  have computed := shelve_eq kept size
  have marked := kept.toLayout.write (h := s) (fun sp => {sp with isUsed := false}) rfl rfl
    fun found => absurd found unfiled
  have tree : ∀ page, freeTree p s page =
      if page = (p.spans s).id ∨ page + 1 = (p.spans s).id + (p.spans s).nPages then some s
      else if (p.spans s).id ≤ page ∧ page < (p.spans s).id + (p.spans s).nPages then none
      else p.radixTree page := fun page => rfl
  generalize freeTree p s = final at computed tree
  have id : ((p.write s fun sp => {sp with isUsed := false}).spans s).id = (p.spans s).id := by rw [write_same]
  have pages : ((p.write s fun sp => {sp with isUsed := false}).spans s).nPages = (p.spans s).nPages := by
    rw [write_same]
  have filed := marked.shelve final
    (fun page beyond => by
      rw [in_extent,id,pages] at beyond
      rw [tree,if_neg (by omega),if_neg beyond,write_radixTree])
    (fun page under final => by
      rw [AtEnd,id,pages] at final
      rw [tree,if_pos final])
    (fun page under middle => by
      rw [AtEnd,id,pages] at middle
      rw [in_extent,id,pages] at under
      rw [tree,if_neg middle,if_pos under])
    (by rw [pages]; exact size) (by rw [write_same])
  rw [pages,write_spanLists] at filed
  refine ⟨_,computed,⟨filed,?_,?_⟩,fun k other => Function.update_of_ne other ..,rfl⟩
  · intro k user
    change (update p.spans s _ k).isUsed = true
    rw [Function.update_of_ne fun other => kept.aside k user other]
    exact kept.used k user
  · rintro k (found | none')
    · change (update p.spans s _ k).useCount = 0
      rcases (filed_push (pushFront_of_lt size)).mp found with rfl | old
      · rw [Function.update_self]; exact kept.idle k (.inr rfl)
      · rw [Function.update_of_ne (by rintro rfl; exact unfiled old)]
        exact kept.idle k (.inl old)
    · cases none'

theorem release_kept (kept : Kept p held ∅ area) (user : s ∈ held) (size : (p.spans s).nPages < nPageList)
    (count : (p.spans s).useCount = 0) : ∃ q, releaseSpanToPageCache p s = some q ∧ Kept q (held \ {s}) ∅ area ∧
      (∀ k ∈ held, k ≠ s → q.spans k = p.spans k) ∧ q.system = p.system := by
  have loose := kept.toLayout.lift user
  rw [insert_empty_eq] at loose
  have start : Kept p (held \ {s}) {s} area := by
    refine ⟨loose,fun k other => kept.used k other.1,?_⟩
    rintro k (found | rfl)
    · exact kept.idle k (.inl found)
    · exact count
  have enough : ∀ {r : PageCache}, nPageList ≤ nPageList + (r.spans s).nPages := Nat.le_add_right ..
  obtain ⟨middle,backward,first⟩ := mergeBackward_merged start size enough
  obtain ⟨last,forward,second⟩ := mergeForward_merged first.kept first.size enough
  have merged := first.trans second
  obtain ⟨q,shelved,done,same,system⟩ := shelve_kept merged.kept merged.size
  refine ⟨q,?_,done,fun k _ other => (same k other).trans (merged.frame k other),system.trans merged.system⟩
  simp only [releaseSpanToPageCache,Option.bind_eq_bind,backward,Option.bind_some,forward,shelved]

end LinuxOS.Pool
