import LinuxOS.Pages.Moves

namespace LinuxOS.Concurrent
open Function (update)
open Pages Pages.PageCache
variable {p q : PageCache} {held loose area : Set Nat} {h s k n m span prev page npage fuel start pages : Nat}

-- `_id_span_map.erase(page)`, which ignores a page outside the address space.
def erase (p : PageCache) (page : Nat) : PageCache :=
  if page < pageLimit then {p with radixTree := update p.radixTree page none} else p

-- The loop over `_id_span_map.erase(span->_page_id + id)`.
def eraseRange (p : PageCache) (start : Nat) : Nat → PageCache
  | 0 => p
  | pages+1 => eraseRange (erase p start) (start+1) pages

-- `page` is the address that is passed, shifted; the null pointer is ignored.
def systemFree (p : PageCache) (page count : Nat) : PageCache :=
  if page = 0 ∨ count = 0 then p else {p with system := p.system.erase (page,count)}

def newLarge (p : PageCache) (npage page : Nat) : Option (PageCache × Nat) := do
  let p := p.systemAlloc page npage
  let span := p.newObject.2
  let p := p.newObject.1.write span fun s => {s with id := page, nPages := npage}
  let p ← p.mapSpanRange (p.spans span).id (some span) npage
  some (p,span)

-- NewSpan when the bucket of the wanted size has a span.
def reuse (p : PageCache) (span npage : Nat) : Option (PageCache × Nat) := do
  let p := erase p (p.spans span).id
  let p := erase p ((p.spans span).id + (p.spans span).nPages - 1)
  let p ← p.mapSpanRange (p.spans span).id (some span) npage
  some (p,span)

-- The front `npage` pages of `nSpan` go to the new object, the rest is filed.
def cutFront (p : PageCache) (kSpan nSpan npage : Nat) : Option (PageCache × Nat) := do
  let p := p.write kSpan fun s => {s with id := (p.spans nSpan).id, nPages := npage}
  let p := p.write nSpan fun s => {s with id := s.id + npage, nPages := s.nPages - npage}
  let p ← p.pushFront (p.spans nSpan).nPages nSpan
  let p ← p.set (p.spans nSpan).id (some nSpan)
  let p ← p.set ((p.spans nSpan).id + (p.spans nSpan).nPages - 1) (some nSpan)
  let p ← p.mapSpanRange (p.spans kSpan).id (some kSpan) npage
  some (p,kSpan)

-- NewSpan when bucket `i` is the first larger one that has a span.
def split (p : PageCache) (i npage : Nat) : Option (PageCache × Nat) :=
  (p.newObject.1.popFront i).bind fun popped => cutFront popped.1 p.newObject.2 popped.2 npage

-- NewSpan when there is none: of 129 pages from the system 128 are filed.
def refill (p : PageCache) (page : Nat) : Option PageCache :=
  let span := p.newObject.2
  let p := (p.newObject.1.systemAlloc page nPageList).write span fun s =>
    {s with id := page, nPages := nPageList - 1}
  p.pushFront (nPageList - 1) span

-- `for (i = npage + 1; i < NPAGE_LISTS; ++i) if (!_span_lists[i].Empty())`
def firstLarger (p : PageCache) (npage : Nat) : Option Nat :=
  (List.range' (npage+1) (nPageList-(npage+1))).find? fun i => p.spanLists i ≠ []

-- `answers` are the pages at which SystemAlloc places its regions.
def newSpan (p : PageCache) (npage : Nat) (answers : List Nat) : Option (PageCache × Nat) :=
  if nPageList - 1 < npage then answers.head?.bind (newLarge p npage)
  else
    match p.popFront npage with
    | some (p,span) => reuse p span npage
    | none =>
      match firstLarger p npage with
      | some i => split p i npage
      | none =>
        match answers with
        | [] => none
        | page :: rest => (refill p page).bind fun p => newSpan p npage rest

-- `_span_lists[n].Erase(span)`. A span that was popped off its list still has its
-- old links; while that list is as it was then, erasing the span changes nothing.
def absorb (p : PageCache) (prev : Nat) : PageCache :=
  let p := p.unlink prev
  let p := erase p (p.spans prev).id
  let p := erase p ((p.spans prev).id + (p.spans prev).nPages - 1)
  p.deleteObject prev

def absorbPrev (p : PageCache) (span prev : Nat) : PageCache :=
  absorb (p.write span fun s => {s with id := (p.spans prev).id, nPages := s.nPages + (p.spans prev).nPages}) prev

def absorbNext (p : PageCache) (span next : Nat) : PageCache :=
  absorb (p.write span fun s => {s with nPages := s.nPages + (p.spans next).nPages}) next

-- The two `while (true)` loops, with fuel for as many turns as there are pages.
def mergeBackward : Nat → PageCache → Nat → Option PageCache
  | 0,_,_ => none
  | fuel+1,p,span =>
    match p.get (pageBefore (p.spans span).id) with
    | none => some p
    | some prev =>
      if (p.spans prev).isUsed then some p
      else if (p.spans span).nPages + (p.spans prev).nPages > nPageList - 1 then some p
      else mergeBackward fuel (absorbPrev p span prev) span

def mergeForward : Nat → PageCache → Nat → Option PageCache
  | 0,_,_ => none
  | fuel+1,p,span =>
    match p.get ((p.spans span).id + (p.spans span).nPages) with
    | none => some p
    | some next =>
      if (p.spans next).isUsed then some p
      else if (p.spans span).nPages + (p.spans next).nPages > nPageList - 1 then some p
      else mergeForward fuel (absorbNext p span next) span

def shelve (p : PageCache) (span : Nat) : Option PageCache := do
  let p ← p.pushFront (p.spans span).nPages span
  let p := p.write span fun s => {s with isUsed := false}
  let p ← p.set (p.spans span).id (some span)
  p.set ((p.spans span).id + (p.spans span).nPages - 1) (some span)

def releaseSpanToPageCache (p : PageCache) (span : Nat) : Option PageCache :=
  let q := eraseRange p (p.spans span).id (p.spans span).nPages
  if nPageList - 1 < (p.spans span).nPages then
    some ((systemFree q (p.spans span).id (p.spans span).nPages).deleteObject span)
  else do
    let q ← mergeBackward nPageList q span
    let q ← mergeForward nPageList q span
    shelve q span

-- Besides the layout: whatever is in it lies in memory that the system has given,
-- and a span of more than 128 pages is a region of its own.
structure Kept (p : PageCache) (held loose area : Set Nat) : Prop extends Layout p held loose area where
  mapped : ∀ page ∈ area, p.Mapped page
  whole : ∀ h ∈ held, nPageList ≤ (p.spans h).nPages →
    0 < (p.spans h).id ∧ ((p.spans h).id,(p.spans h).nPages) ∈ p.system

theorem kept_start : Kept {} ∅ ∅ ∅ := ⟨layout_start,by simp,by simp⟩

theorem Kept.unlink (kept : Kept p held ∅ area) (filed : p.Filed h) : Kept (p.unlink h) held {h} area := by
  have loose := kept.toLayout.unlink filed
  rw [insert_empty_eq] at loose
  exact ⟨loose,kept.mapped,kept.whole⟩

theorem Kept.edit (kept : Kept p held ∅ area) (user : h ∈ held) (change : Span → Span)
    (id : (change (p.spans h)).id = (p.spans h).id) (nPages : (change (p.spans h)).nPages = (p.spans h).nPages) :
    Kept (p.write h change) held ∅ area := by
  have unfiled : ¬p.Filed h := fun found => (kept.parted h found).1 user
  refine ⟨kept.toLayout.write change id nPages fun found => absurd found unfiled,kept.mapped,fun k user' => ?_⟩
  by_cases same : k = h
  · subst k
    rw [write_same,id,nPages]; exact kept.whole h user
  · rw [write_other change same]; exact kept.whole k user'

theorem erase_of_lt (inside : page < pageLimit) : erase p page = {p with radixTree := update p.radixTree page none} :=
  if_pos inside

@[simp] theorem erase_spans : (erase p page).spans = p.spans := by unfold erase; split <;> rfl
theorem eraseRange_eq (inside : start + pages ≤ pageLimit) : eraseRange p start pages = p.paint start pages none := by
  have loop : p.mapSpanRange start none pages = some (eraseRange p start pages) := by
    induction pages generalizing start p with
    | zero => rfl
    | succ pages ih =>
      have low : start < pageLimit := by omega
      rw [PageCache.mapSpanRange,set_of_lt low,Option.bind_some,ih (by omega),eraseRange,erase_of_lt low]
  exact Option.some.inj (loop.symm.trans (mapSpanRange_eq inside))

structure Given (p q : PageCache) (held : Set Nat) (n h : Nat) : Prop where
  absent : h ∉ held
  kept : ∃ area, Kept q (insert h held) ∅ area
  size : (q.spans h).nPages = n
  frame : ∀ k ∈ held, q.spans k = p.spans k

theorem Given.from_same {before : PageCache} (given : Given p q held n h)
    (same : ∀ k ∈ held, p.spans k = before.spans k) : Given before q held n h :=
  ⟨given.absent,given.kept,given.size,fun k user => (given.frame k user).trans (same k user)⟩

theorem Kept.clear (kept : Kept p held ∅ area) (fresh : p.Fresh page m) (less : n ≤ m) :
    ∀ low, page ≤ low → low < page + n → low ∉ area := by
  intro low first last found
  obtain ⟨region,given,inside⟩ := kept.mapped low found
  have clear := fresh.2 region given
  omega

theorem grown_kept (kept : Kept p held ∅ area) (fresh : p.Fresh page m) (sized : 1 ≤ n) (less : n ≤ m) :
    Kept (p.grown page m n) held {p.newObject.2} (area ∪ {low | page ≤ low ∧ low < page + n}) ∧
      p.newObject.2 ∉ held ∧ ∀ low ∈ (p.grown page m n).extent p.newObject.2, p.radixTree low = none := by
  have clear := kept.clear fresh less
  have room := fresh.1
  obtain ⟨layout,absent⟩ := grown_layout (m := m) kept.toLayout sized (by omega) clear
  have unheld : p.newObject.2 ∉ held := fun user => absent (.inl user)
  refine ⟨⟨layout,?_,?_⟩,unheld,?_⟩
  · rintro low (found | found)
    · obtain ⟨region,given,inside⟩ := kept.mapped low found
      exact ⟨region,.tail _ given,inside⟩
    · exact ⟨(page,m),.head _,found.1,Nat.lt_of_lt_of_le found.2 (Nat.add_le_add_left less page)⟩
  · intro k user big
    rw [grown_other (ne_of_mem_of_not_mem user unheld)] at big ⊢
    exact ⟨(kept.whole k user big).1,.tail _ (kept.whole k user big).2⟩
  · intro low under
    rw [in_extent,grown_span] at under
    exact kept.outside low (clear low under.1 under.2)

theorem newObject_systemAlloc : (p.systemAlloc page n).newObject =
    (p.newObject.1.systemAlloc page n,p.newObject.2) := by
  unfold newObject systemAlloc
  cases p.freeObjects <;> rfl

theorem grown_eq : ((p.newObject.1.systemAlloc page m).write p.newObject.2 fun s =>
    {s with id := page, nPages := n}) = p.grown page m n := by
  have empty : p.newObject.1.spans p.newObject.2 = {} := newObject_same
  simp only [write,systemAlloc,grown,empty,newObject_system]

theorem reuse_given (kept : Kept p held {h} area) (small : (p.spans h).nPages < nPageList) :
    ∃ q, reuse p h (p.spans h).nPages = some (q,h) ∧ Given p q held (p.spans h).nPages h := by
  have owns : h ∈ p.owned held {h} := .inr (.inr rfl)
  have absent : h ∉ held := fun user => kept.aside h user rfl
  have fits := kept.fits owns
  have sized := kept.sized h owns
  have painted := kept.toLayout.paint_loose (s := h) rfl (p.spans h).id (p.spans h).nPages (some h)
    (Nat.le_refl _) (Nat.le_refl _)
  have handed := painted.hand rfl fun page under => if_pos under
  rw [Set.sdiff_self] at handed
  refine ⟨p.paint (p.spans h).id (p.spans h).nPages (some h),?_,absent,⟨area,handed,kept.mapped,?_⟩,rfl,fun k _ => rfl⟩
  · simp only [reuse,erase_spans,mapSpanRange_eq fits,Option.bind_eq_bind,Option.bind_some]
    rw [erase_of_lt (show (p.spans h).id < pageLimit by omega),erase_of_lt (by omega)]
    simp only [paint,Option.some.injEq,Prod.mk.injEq,PageCache.mk.injEq,true_and,and_true]
    funext page
    by_cases under : (p.spans h).id ≤ page ∧ page < (p.spans h).id + (p.spans h).nPages
    · rw [if_pos under,if_pos under]
    · rw [if_neg under,if_neg under,Function.update_of_ne (by omega),Function.update_of_ne (by omega)]
  · rintro k (rfl | user) big
    · exact absurd small (Nat.not_lt.mpr big)
    · exact kept.whole k user big

theorem newLarge_given (kept : Kept p held ∅ area) (real : 0 < page) (fresh : p.Fresh page n) (sized : 1 ≤ n) :
    ∃ q h, newLarge p n page = some (q,h) ∧ Given p q held n h := by
  obtain ⟨grown,absent,_⟩ := grown_kept kept fresh sized (Nat.le_refl n)
  have span : (p.grown page n n).spans p.newObject.2 = {id := page, nPages := n} := grown_span
  have painted := grown.toLayout.paint_loose (s := p.newObject.2) rfl page n (some p.newObject.2)
    (by rw [span]) (by rw [span])
  have handed := painted.hand rfl fun low under => by
    rw [in_extent,paint_spans,span] at under
    exact if_pos under
  rw [Set.sdiff_self] at handed
  refine ⟨(p.grown page n n).paint page n (some p.newObject.2),p.newObject.2,?_,absent,⟨_,handed,grown.mapped,?_⟩,?_,?_⟩
  · simp only [newLarge,newObject_systemAlloc,grown_eq,grown_span,Option.bind_eq_bind]
    rw [mapSpanRange_eq fresh.1,Option.bind_some]
  · rintro k (rfl | user) big
    · rw [paint_spans,span]; exact ⟨real,.head _⟩
    · exact grown.whole k user big
  · rw [paint_spans,span]
  · intro k user
    rw [paint_spans,grown_other (ne_of_mem_of_not_mem user absent)]

theorem popFront_newObject {i : Nat} (popped : p.popFront i = some (q,s)) :
    p.newObject.1.popFront i = some (q.newObject.1,s) ∧ q.newObject.2 = p.newObject.2 := by
  unfold popFront at popped ⊢
  rw [newObject_spanLists]
  split at popped
  case h_1 => cases popped
  case h_2 first rest list =>
    cases popped
    unfold newObject
    cases p.freeObjects <;> exact ⟨rfl,rfl⟩

def divide (p : PageCache) (nSpan npage : Nat) : PageCache :=
  divideWith p nSpan (fun s => {s with id := (p.newObject.1.spans nSpan).id, nPages := npage})
    fun s => {s with id := s.id + npage, nPages := s.nPages - npage}

@[simp] theorem divide_spanLists : (divide p s n).spanLists = p.spanLists := newObject_spanLists
@[simp] theorem divide_radixTree : (divide p s n).radixTree = p.radixTree := newObject_radixTree
@[simp] theorem divide_system : (divide p s n).system = p.system := newObject_system

theorem divide_piece (other : s ≠ p.newObject.2) : (divide p s n).spans p.newObject.2 =
    {id := (p.spans s).id, nPages := n} := by
  rw [divide,divideWith_piece other,newObject_other other]

theorem divide_rest (other : s ≠ p.newObject.2) : (divide p s n).spans s =
    {p.spans s with id := (p.spans s).id + n, nPages := (p.spans s).nPages - n} :=
  divideWith_rest other

def cutTree (p : PageCache) (s n h page : Nat) : Option Nat :=
  if (p.spans s).id ≤ page ∧ page < (p.spans s).id + n then some h
  else if page = (p.spans s).id + n ∨ page + 1 = (p.spans s).id + (p.spans s).nPages then some s
  else p.radixTree page

theorem cutFront_eq (other : s ≠ p.newObject.2) (fits : (p.spans s).id + (p.spans s).nPages ≤ pageLimit) (some' : 1 ≤ n)
    (less : n < (p.spans s).nPages) (below : (p.spans s).nPages < nPageList) :
    cutFront p.newObject.1 p.newObject.2 s n = some ({divide p s n with
      spanLists := update p.spanLists ((p.spans s).nPages - n) (s :: p.spanLists ((p.spans s).nPages - n))
      radixTree := cutTree p s n p.newObject.2},p.newObject.2) := by
  have piece := divide_piece (n := n) other
  have rest := divide_rest (n := n) other
  set h := p.newObject.2 with new
  have restId : ((divide p s n).spans s).id = (p.spans s).id + n := by rw [rest]
  have restPages : ((divide p s n).spans s).nPages = (p.spans s).nPages - n := by rw [rest]
  unfold cutFront
  change ((divide p s n).pushFront ((divide p s n).spans s).nPages s).bind (fun p =>
    (p.set (p.spans s).id (some s)).bind fun p =>
      (p.set ((p.spans s).id + (p.spans s).nPages - 1) (some s)).bind fun p =>
        (p.mapSpanRange (p.spans h).id (some h) n).bind fun p => some (p,h)) = _
  rw [restPages,pushFront_of_lt (by omega),Option.bind_some,divide_spanLists]
  simp only [restId]
  rw [set_of_lt (by omega),Option.bind_some]
  simp only [restId,restPages]
  rw [set_of_lt (by omega),Option.bind_some]
  simp only [piece]
  rw [mapSpanRange_eq (by omega),Option.bind_some]
  simp only [paint,Option.some.injEq,Prod.mk.injEq,PageCache.mk.injEq,true_and,and_true,divide_radixTree]
  funext page
  unfold cutTree
  split
  case isTrue => rfl
  case isFalse outside =>
    by_cases last : page = (p.spans s).id + n + ((p.spans s).nPages - n) - 1
    · rw [last,Function.update_self,if_pos (.inr (by omega))]
    · rw [Function.update_of_ne last]
      by_cases first : page = (p.spans s).id + n
      · rw [first,Function.update_self,if_pos (.inl rfl)]
      · rw [Function.update_of_ne first,if_neg (by omega)]

-- The span had entries at its two ends at most: the old one at the front is
-- covered by the piece, and that at the back is the rest's own.
theorem cutFront_given (kept : Kept p held {s} area) (some' : 1 ≤ n) (less : n < (p.spans s).nPages)
    (below : (p.spans s).nPages < nPageList) (unused : (p.spans s).isUsed = false)
    (hollow : ∀ page ∈ p.extent s, ¬p.AtEnd s page → p.radixTree page = none) :
    ∃ q h, cutFront p.newObject.1 p.newObject.2 s n = some (q,h) ∧ Given p q held n h := by
  obtain ⟨divided,other,absent⟩ :
      Layout (divide p s n) held {p.newObject.2,s} _ ∧ s ≠ p.newObject.2 ∧ p.newObject.2 ∉ p.owned held {s} :=
    kept.toLayout.divideWith (fun other => by rw [newObject_other other]) rfl rfl rfl some' less
  have piece := divide_piece (n := n) other
  have rest := divide_rest (n := n) other
  have fits := kept.fits (h := s) (.inr (.inr rfl))
  have elsewhere : ∀ k ∈ held, (divide p s n).spans k = p.spans k := fun k user =>
    divideWith_other (fun same => kept.aside k user same) (ne_of_mem_of_not_mem user fun found => absent (.inl found))
  set h := p.newObject.2 with new
  have restId : ((divide p s n).spans s).id = (p.spans s).id + n := by rw [rest]
  have restPages : ((divide p s n).spans s).nPages = (p.spans s).nPages - n := by rw [rest]
  have computed := cutFront_eq other fits some' less below
  have shared := divided.share (cutTree p s n h) other
    (fun page beyond beyond' => by
      simp only [in_extent,piece,restId,restPages] at beyond beyond'
      rw [cutTree,if_neg (by omega),if_neg (by omega),divide_radixTree])
    (fun page under => by
      simp only [in_extent,piece] at under
      exact if_pos under)
    (fun page under final => by
      simp only [in_extent,AtEnd,restId,restPages] at under final
      rw [cutTree,if_neg (by omega),if_pos (by omega)])
    (fun page under middle => by
      simp only [in_extent,AtEnd,restId,restPages] at under middle
      rw [cutTree,if_neg (by omega),if_neg (by omega)]
      exact hollow page (by rw [in_extent]; omega) (by rw [AtEnd]; omega))
    (by omega) (by rw [rest]; exact unused)
  rw [restPages,divide_spanLists] at shared
  refine ⟨_,h,computed,fun user => absent (.inl user),⟨area,shared,?_,?_⟩,?_,elsewhere⟩
  · intro page found
    obtain ⟨region,given,inside⟩ := kept.mapped page found
    exact ⟨region,by rw [show _ = p.system from divide_system (s := s) (n := n)]; exact given,inside⟩
  · rintro k (rfl | user) big
    · change nPageList ≤ ((divide p s n).spans h).nPages at big
      simp only [piece] at big
      omega
    · change nPageList ≤ ((divide p s n).spans k).nPages at big
      change _ ∧ (((divide p s n).spans k).id,((divide p s n).spans k).nPages) ∈ (divide p s n).system
      rw [elsewhere k user] at big ⊢
      rw [divide_system]; exact kept.whole k user big
  · change ((divide p s n).spans h).nPages = n
    rw [piece]

theorem split_eq {i : Nat} (popped : p.popFront i = some (q,s)) :
    split p i n = cutFront q.newObject.1 q.newObject.2 s n := by
  obtain ⟨same,object⟩ := popFront_newObject popped
  rw [split,same,Option.bind_some,object]

theorem popFront_none : p.popFront n = none ↔ p.spanLists n = [] := by
  unfold popFront
  split
  case h_1 empty => simp [empty]
  case h_2 first rest list => simp [list]

theorem firstLarger_some {i : Nat} (larger : firstLarger p n = some i) : n < i ∧ i < nPageList ∧
    ∃ q s, p.popFront i = some (q,s) := by
  obtain ⟨low,high⟩ := List.mem_range'_1.mp (List.mem_of_find?_eq_some larger)
  refine ⟨by omega,by omega,?_⟩
  cases popped : p.popFront i with
  | some found => exact ⟨found.1,found.2,rfl⟩
  | none =>
    have some' := List.find?_some larger
    rw [popFront_none.mp popped] at some'
    simp at some'

theorem firstLarger_none (larger : firstLarger p n = none) (low : n < m) (high : m < nPageList) :
    p.spanLists m = [] := by
  have empty := List.find?_eq_none.mp larger m (List.mem_range'_1.mpr (by omega))
  simpa using empty

theorem firstLarger_only (empty : ∀ m, n ≤ m → m < nPageList-1 → p.spanLists m = []) (less : n < nPageList-1)
    (pushed : p.pushFront (nPageList-1) s = some q) :
    q.popFront n = none ∧ firstLarger q n = some (nPageList-1) := by
  have lists : q.spanLists = update p.spanLists (nPageList-1) (s :: p.spanLists (nPageList-1)) := by
    obtain ⟨_,made⟩ := Option.ite_none_right_eq_some.mp pushed
    cases made; rfl
  have last : q.spanLists (nPageList-1) ≠ [] := by
    rw [lists,Function.update_self]
    exact List.cons_ne_nil s _
  have others : ∀ m, n ≤ m → m < nPageList-1 → q.spanLists m = [] := by
    intro m low high
    rw [lists,Function.update_of_ne (show m ≠ nPageList-1 by omega)]
    exact empty m low high
  refine ⟨popFront_none.mpr (others n (Nat.le_refl n) less),?_⟩
  cases larger : firstLarger q n with
  | none => exact absurd (firstLarger_none larger less (by decide)) last
  | some i =>
    obtain ⟨low,high,r,s,popped⟩ := firstLarger_some larger
    rcases Nat.eq_or_lt_of_le (show i ≤ nPageList-1 by omega) with rfl | early
    · rfl
    · rw [popFront_none.mpr (others i (by omega) early)] at popped; cases popped

theorem refill_eq : refill p page = (p.grown page nPageList (nPageList-1)).pushFront (nPageList-1) p.newObject.2 := by
  rw [refill,grown_eq]

def region (npage : Nat) : Nat := if nPageList - 1 < npage then npage else nPageList

-- Whether it asks: no span of its own kind is in stock, and none to cut it from.
def asks (p : PageCache) (npage : Nat) : Bool :=
  nPageList - 1 < npage || (p.popFront npage).isNone && (firstLarger p npage).isNone

theorem asks_large (large : nPageList - 1 < n) : asks p n = true := by
  rw [asks,decide_eq_true large,Bool.true_or]

theorem asks_empty (popped : p.popFront n = none) (larger : firstLarger p n = none) : asks p n = true := by
  rw [asks,popped,larger]; exact Bool.or_true _

theorem asks_small (small : ¬nPageList - 1 < n) (asked : asks p n = true) :
    p.popFront n = none ∧ firstLarger p n = none := by
  rw [asks,decide_eq_false small,Bool.false_or,Bool.and_eq_true] at asked
  exact ⟨Option.isNone_iff_eq_none.mp asked.1,Option.isNone_iff_eq_none.mp asked.2⟩

theorem not_asks (small : ¬nPageList - 1 < n) (stock : p.popFront n ≠ none ∨ firstLarger p n ≠ none) :
    asks p n = false := by
  rw [Bool.eq_false_iff]
  intro asked
  obtain ⟨popped,larger⟩ := asks_small small asked
  exact stock.elim (fun found => found popped) fun found => found larger

theorem newSpan_large (rest : List Nat) (large : nPageList - 1 < n) : newSpan p n (page :: rest) = newLarge p n page := by
  rw [newSpan.eq_def,if_pos large]; rfl

theorem newSpan_reuse (answers : List Nat) (small : ¬nPageList - 1 < n) (popped : p.popFront n = some (q,h)) :
    newSpan p n answers = reuse q h n := by
  rw [newSpan.eq_def,if_neg small,popped]

theorem newSpan_split {i : Nat} (answers : List Nat) (small : ¬nPageList - 1 < n) (popped : p.popFront n = none)
    (larger : firstLarger p n = some i) : newSpan p n answers = split p i n := by
  rw [newSpan.eq_def,if_neg small,popped,larger]

theorem newSpan_refill (rest : List Nat) (small : ¬nPageList - 1 < n) (popped : p.popFront n = none)
    (larger : firstLarger p n = none) :
    newSpan p n (page :: rest) = (refill p page).bind fun p => newSpan p n rest := by
  rw [newSpan.eq_def,if_neg small,popped,larger]

theorem reuse_listed (kept : Kept p held ∅ area) (answers : List Nat) (small : ¬nPageList - 1 < n)
    (popped : p.popFront n = some (q,s)) : ∃ r, newSpan p n answers = some (r,s) ∧ Given p r held n s := by
  obtain ⟨found,rfl⟩ := popFront_eq kept.toLayout popped
  have size := (kept.filed n s found).1
  have below := (kept.filed n s found).2.1
  obtain ⟨r,served,given⟩ := reuse_given (h := s) (kept.unlink ⟨n,found⟩) (by rw [unlink_spans,size]; exact below)
  rw [unlink_spans,size] at served given
  exact ⟨r,(newSpan_reuse answers small popped).trans served,given.from_same fun k user => rfl⟩

theorem split_listed {i : Nat} (kept : Kept p held ∅ area) (answers : List Nat) (some' : 1 ≤ n)
    (small : ¬nPageList - 1 < n) (popped : p.popFront n = none) (larger : firstLarger p n = some i) :
    ∃ r h, newSpan p n answers = some (r,h) ∧ Given p r held n h := by
  obtain ⟨low,high,q,s,popped'⟩ := firstLarger_some larger
  obtain ⟨found,rfl⟩ := popFront_eq kept.toLayout popped'
  obtain ⟨size,_,unused⟩ := kept.filed i s found
  obtain ⟨r,h,served,given⟩ := cutFront_given (kept.unlink ⟨i,found⟩) some' (by rw [unlink_spans,size]; exact low)
    (by rw [unlink_spans,size]; exact high) unused (kept.hollow s ⟨i,found⟩)
  refine ⟨r,h,?_,given.from_same fun k user => rfl⟩
  rw [newSpan_split answers small popped larger,split_eq popped']
  exact served

theorem newSpan_given (kept : Kept p held ∅ area) (some' : 1 ≤ n)
    (backed : asks p n = true → 0 < page ∧ p.Fresh page (region n)) :
    ∃ q h, newSpan p n [page] = some (q,h) ∧ Given p q held n h := by
  by_cases large : nPageList - 1 < n
  · obtain ⟨real,fresh⟩ := backed (asks_large large)
    rw [region,if_pos large] at fresh
    rw [newSpan_large [] large]
    exact newLarge_given kept real fresh some'
  cases popped : p.popFront n with
  | some found =>
    obtain ⟨q,served,given⟩ := reuse_listed kept [page] large popped
    exact ⟨q,found.2,served,given⟩
  | none =>
    cases larger : firstLarger p n with
    | some i => exact split_listed kept [page] some' large popped larger
    | none =>
      have fresh := (backed (asks_empty popped larger)).2
      rw [region,if_neg large] at fresh
      have empty : ∀ m, n ≤ m → m < nPageList → p.spanLists m = [] := by
        intro m low high
        rcases Nat.eq_or_lt_of_le low with rfl | low
        · exact popFront_none.mp popped
        · exact firstLarger_none larger low high
      obtain ⟨stocked,absent,blank⟩ := grown_kept (n := nPageList-1) kept fresh (by decide) (Nat.sub_le ..)
      have same : ∀ k ∈ held, (p.grown page nPageList (nPageList-1)).spans k = p.spans k := fun k user =>
        grown_other (ne_of_mem_of_not_mem user absent)
      have span : (p.grown page nPageList (nPageList-1)).spans p.newObject.2 = {id := page, nPages := nPageList-1} :=
        grown_span
      have tree : (p.grown page nPageList (nPageList-1)).radixTree = p.radixTree := newObject_radixTree
      have step : newSpan p n [page] = (refill p page).bind fun p => newSpan p n [] :=
        newSpan_refill [] large popped larger
      have empty' : (p.grown page nPageList (nPageList-1)).spanLists (nPageList-1) = [] := by
        rw [grown_spanLists]; exact empty _ (by omega) (by decide)
      have elsewhere : ∀ m, n ≤ m → m < nPageList-1 →
          (p.grown page nPageList (nPageList-1)).spanLists m = [] := fun m low high => by
        rw [grown_spanLists]; exact empty m low (by omega)
      rw [refill_eq] at step
      generalize p.grown page nPageList (nPageList-1) = r at *
      generalize p.newObject.2 = s at *
      obtain ⟨q,pushed⟩ : ∃ q, r.pushFront (nPageList-1) s = some q := ⟨_,pushFront_of_lt (by decide)⟩
      have taken := (pop_pushed empty' pushed).2
      rw [pushed,Option.bind_some] at step
      have size : (r.spans s).nPages = nPageList-1 := by rw [span]
      rcases Nat.eq_or_lt_of_le (show n ≤ nPageList-1 by omega) with rfl | less
      · obtain ⟨last,served,given⟩ := reuse_given stocked (by rw [size]; decide)
        rw [size] at served given
        exact ⟨last,s,step.trans ((newSpan_reuse [] large taken).trans served),given.from_same same⟩
      · obtain ⟨popped,larger⟩ := firstLarger_only elsewhere less pushed
        obtain ⟨last,h,served,given⟩ := cutFront_given stocked some' (by rw [size]; exact less)
          (by rw [size]; decide) (by rw [span]) (fun low under _ => by rw [tree]; exact blank low under)
        refine ⟨last,h,?_,given.from_same same⟩
        rw [step,newSpan_split [] large popped larger,split_eq taken]
        exact served

@[simp] theorem erase_system : (erase p page).system = p.system := by unfold erase; split <;> rfl

theorem reuse_system (reused : reuse p s n = some (q,h)) : q.system = p.system := by
  obtain ⟨r,mapped,made⟩ := Option.bind_eq_some_iff.mp reused
  cases made
  exact (mapSpanRange_system mapped).trans (erase_system.trans erase_system)

theorem split_system {i : Nat} (divided : split p i n = some (q,h)) : q.system = p.system := by
  obtain ⟨popped,found,made⟩ := Option.bind_eq_some_iff.mp divided
  obtain ⟨filed,pushed,made⟩ := Option.bind_eq_some_iff.mp made
  obtain ⟨first,written,made⟩ := Option.bind_eq_some_iff.mp made
  obtain ⟨last,written',made⟩ := Option.bind_eq_some_iff.mp made
  obtain ⟨mapped,ranged,made⟩ := Option.bind_eq_some_iff.mp made
  cases made
  rw [mapSpanRange_system ranged,set_system written',set_system written,pushFront_system pushed,write_system,
    write_system,popFront_system found,newObject_system]

theorem newLarge_system (made : newLarge p n page = some (q,h)) : q.system = (page,n) :: p.system := by
  obtain ⟨r,mapped,made⟩ := Option.bind_eq_some_iff.mp made
  cases made
  rw [mapSpanRange_system mapped,write_system,newObject_system,systemAlloc]

theorem newLarge_span (made : newLarge p n page = some (q,h)) : q.spans h = {id := page, nPages := n} := by
  obtain ⟨r,mapped,made⟩ := Option.bind_eq_some_iff.mp made
  cases made
  obtain ⟨tree,rfl⟩ := mapSpanRange_tree mapped
  rw [write_same,newObject_same]

theorem refill_system (refilled : refill p page = some q) : q.system = (page,nPageList) :: p.system := by
  rw [pushFront_system refilled,write_system,systemAlloc,newObject_system]

theorem newSpan_stock (answers : List Nat) (stock : asks p n = false) (served : newSpan p n answers = some (q,h)) :
    q.system = p.system := by
  by_cases large : nPageList - 1 < n
  · rw [asks_large large] at stock; cases stock
  cases popped : p.popFront n with
  | some found =>
    rw [newSpan_reuse answers large popped] at served
    exact (reuse_system served).trans (popFront_system popped)
  | none =>
    cases larger : firstLarger p n with
    | some i =>
      rw [newSpan_split answers large popped larger] at served
      exact split_system served
    | none => rw [asks_empty popped larger] at stock; cases stock

theorem newSpan_none (served : newSpan p n [] = some (q,h)) : asks p n = false := by
  by_cases large : nPageList - 1 < n
  · rw [newSpan.eq_def,if_pos large] at served; cases served
  · refine not_asks large ?_
    by_contra empty
    rw [not_or,not_not,not_not] at empty
    rw [newSpan.eq_def,if_neg large,empty.1,empty.2] at served
    cases served

theorem newSpan_system (served : newSpan p n [page] = some (q,h)) :
    q.system = if asks p n then (page,region n) :: p.system else p.system := by
  cases stock : asks p n with
  | false => exact newSpan_stock [page] stock served
  | true =>
    by_cases large : nPageList - 1 < n
    · rw [newSpan_large [] large] at served
      rw [if_pos rfl,region,if_pos large]
      exact newLarge_system served
    · obtain ⟨popped,larger⟩ := asks_small large stock
      rw [newSpan_refill [] large popped larger] at served
      obtain ⟨r,refilled,rest⟩ := Option.bind_eq_some_iff.mp served
      rw [if_pos rfl,region,if_neg large,newSpan_stock [] (newSpan_none rest) rest]
      exact refill_system refilled

end LinuxOS.Concurrent
