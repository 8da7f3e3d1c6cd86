import LinuxOS.Concurrent.OutOfMemory
import LinuxOS.Concurrent.PageHistory

namespace LinuxOS.Concurrent
open Function (update)
open LinuxOS.Alignment
open Machine Exceptions Pages Pages.PageCache Pages.Call
variable {p q : PageCache} {held area : Set Nat} {size n h s k page ptr : Nat}

-- `none` is the failed assertion of PageToSpan.
def pageToSpan (p : PageCache) (ptr : Nat) : Option Nat := p.get (ptr >>> pageShift)

-- The block at `ptr` is a span in use, mapped page by page, with room for `size` bytes; ConcurrentDelete
-- finds it.
structure Roomy (p : PageCache) (size ptr h : Nat) : Prop where
  start : ptr = (p.spans h).id * pageBytes
  mapped : ∀ page ∈ p.extent h, p.get page = some h
  used : (p.spans h).isUsed = true
  room : size ≤ (p.spans h).nPages * pageBytes
  found : pageToSpan p ptr = some h

def Enough (size : Nat) : EStateM.Result Failure (Process Unit) Nat → Prop
  | .ok ptr t => ∃ h, Roomy t.cache size ptr h
  | .error .badAlloc _ => True
  | .error .undefined _ => False

-- The last few thousand sizes are rounded up to nothing.
theorem roundUp_wraps (beyond : ¬Requested size) (fits : size < 2^64) : SizeClass.roundUp size = 0 := by
  rw [Requested,pageBytes] at beyond
  have large : SizeClass.roundUp size = SizeClass._roundUp size (2^pageShift) := by
    rw [SizeClass.roundUp,if_neg (by omega),if_neg (by omega),if_neg (by omega),if_neg (by omega),if_neg (by omega)]
  have wrapped : (size + 2^pageShift - 1) % 2^64 < 2^pageShift := by
    rw [pageShift]
    omega
  rw [large,SizeClass._roundUp,← clearLow_mod,clearLow_eq (Nat.mod_lt _ (by decide)),Nat.div_eq_of_lt wrapped,Nat.zero_mul]

theorem newSpan_unasked (answers : List Nat) (stock : asks p n = false) : newSpan p n answers = newSpan p n [] := by
  by_cases large : nPageList - 1 < n
  · rw [asks_large large] at stock
    cases stock
  cases popped : p.popFront n with
  | some found => rw [newSpan_reuse answers large popped,newSpan_reuse [] large popped]
  | none =>
    cases larger : firstLarger p n with
    | some i => rw [newSpan_split answers large popped larger,newSpan_split [] large popped larger]
    | none =>
      rw [asks_empty popped larger] at stock
      cases stock

def Misled (p : PageCache) (h : Nat) : Prop :=
  ∃ s, s ≠ h ∧ p.get (p.spans h).id = some s ∧ (p.spans h).id < pageLimit ∧ (p.spans s).isUsed = false

theorem cutFront_nothing (kept : Kept p held {s} area) (unused : (p.spans s).isUsed = false)
    (cut : cutFront p.newObject.1 p.newObject.2 s 0 = some (q,h)) : Misled q h := by
  obtain ⟨made,absent,_⟩ := kept.toLayout.newObject (q := p.newObject.1) (h := p.newObject.2) rfl
  have other : s ≠ p.newObject.2 := fun same => absent (same ▸ .inr (.inr rfl))
  have piece := divide_piece (n := 0) other
  have rest : (divide p s 0).spans s = p.spans s := divide_rest other
  obtain ⟨filed,pushed,cut⟩ := Option.bind_eq_some_iff.mp (show ((divide p s 0).pushFront _ s).bind _ = _ from cut)
  obtain ⟨first,written,cut⟩ := Option.bind_eq_some_iff.mp cut
  obtain ⟨last,written',cut⟩ := Option.bind_eq_some_iff.mp cut
  obtain ⟨low,spans,tree⟩ := set_eq written
  obtain ⟨_,spans',tree'⟩ := set_eq written'
  have spans : last.spans = (divide p s 0).spans := spans'.trans (spans.trans (pushFront_spans pushed))
  rw [pushFront_spans pushed,rest] at low
  obtain ⟨rfl,rfl⟩ := Prod.mk.inj (Option.some.inj (show some (last,p.newObject.2) = some (q,h) from cut))
  have here : (last.spans p.newObject.2).id = (p.spans s).id := by rw [spans,piece]
  refine ⟨s,other,?_,by rw [here]; exact low,by rw [spans,rest]; exact unused⟩
  rw [here,get_of_lt low,tree',Function.update_apply,tree,pushFront_spans pushed,rest,Function.update_self,ite_self]

-- A request of no pages is never served from its own bucket; it cuts nothing off a larger span.
theorem newSpan_nothing {answers : List Nat} (kept : Kept p held ∅ area)
    (placed : ∀ page ∈ answers.head?, p.Fresh page (region 0)) (served : newSpan p 0 answers = some (q,h)) : Misled q h := by
  have small : ¬nPageList - 1 < 0 := Nat.not_lt_zero _
  have bare : ∀ {r : PageCache}, r.spanLists 0 = p.spanLists 0 → r.popFront 0 = none := by
    intro r same
    rw [popFront_none,same]
    refine List.eq_nil_iff_forall_not_mem.mpr fun h found => ?_
    have sized := kept.sized h (.inr (.inl ⟨0,found⟩))
    rw [(kept.filed 0 h found).1] at sized
    cases sized
  cases larger : firstLarger p 0 with
  | some i =>
    rw [newSpan_split answers small (bare rfl) larger] at served
    obtain ⟨_,_,r,s,popped⟩ := firstLarger_some larger
    rw [split_eq popped] at served
    obtain ⟨found,rfl⟩ := popFront_eq kept.toLayout popped
    exact cutFront_nothing (kept.unlink ⟨i,found⟩) (kept.filed i s found).2.2 served
  | none =>
    cases answers with
    | nil =>
      rw [newSpan.eq_def,if_neg small,bare rfl,larger] at served
      cases served
    | cons page rest =>
      have fresh := placed page rfl
      rw [region,if_neg small] at fresh
      have empty : ∀ m, 0 ≤ m → m < nPageList → p.spanLists m = [] := by
        intro m low high
        rcases Nat.eq_or_lt_of_le low with rfl | low
        · exact popFront_none.mp (bare rfl)
        · exact firstLarger_none larger low high
      obtain ⟨stocked,_,_⟩ := grown_kept (n := nPageList-1) kept fresh (by decide) (Nat.sub_le ..)
      have span : (p.grown page nPageList (nPageList-1)).spans p.newObject.2 = {id := page, nPages := nPageList-1} :=
        grown_span
      have lists : (p.grown page nPageList (nPageList-1)).spanLists = p.spanLists := grown_spanLists
      rw [newSpan_refill rest small (bare rfl) larger,refill_eq,Option.bind_eq_some_iff] at served
      obtain ⟨r,pushed,served⟩ := served
      have taken := (pop_pushed (by rw [lists]; exact empty _ (by omega) (by decide)) pushed).2
      obtain ⟨popped,larger⟩ := firstLarger_only (fun m low high => by rw [lists]; exact empty m low (by omega))
        (by decide) pushed
      rw [newSpan_split rest small popped larger,split_eq taken] at served
      exact cutFront_nothing stocked (by rw [span]) served

namespace Throwing
variable {s t : Process Unit}

theorem mallocLarge_returns (unlocked : s.pageLock = false)
    (given : newSpan 2 (SizeClass.roundUp size >>> pageShift) {s with pageLock := true} = .ok h t)
    (locked : t.pageLock = true) : mallocLarge size s =
      .ok (((t.cache.spans h).id <<< pageShift) % 2^64) {t with cache := t.cache.write h (claim size), pageLock := false} := by
  have taken : lockPage s = .ok () {s with pageLock := true} := attempt_ok.mpr (by rw [unlocked]; rfl)
  have address : ((t.cache.write h (claim size)).spans h).id = (t.cache.spans h).id := by rw [write_same]; rfl
  have left : unlockPage {t with cache := t.cache.write h (claim size)} =
      .ok () {t with cache := t.cache.write h (claim size), pageLock := false} := attempt_ok.mpr (by rw [locked]; rfl)
  rw [← address]
  exact bind_ok.mpr ⟨(),_,taken,bind_ok.mpr ⟨h,t,given,bind_ok.mpr ⟨(),_,alter_some rfl,bind_ok.mpr
    ⟨_,_,attempt_ok.mpr rfl,bind_ok.mpr ⟨(),_,left,rfl⟩⟩⟩⟩⟩

theorem mallocLarge_ok (ran : mallocLarge size s = .ok ptr t) : ∃ h middle,
    newSpan 2 (SizeClass.roundUp size >>> pageShift) {s with pageLock := true} = .ok h middle ∧
      ptr = ((middle.cache.spans h).id <<< pageShift) % 2^64 ∧ t.cache = middle.cache.write h (claim size) := by
  obtain ⟨_,first,locked,rest⟩ := bind_ok.mp ran
  rw [lockPage_ok locked] at rest
  obtain ⟨h,middle,given,rest⟩ := bind_ok.mp rest
  refine ⟨h,middle,given,?_⟩
  obtain ⟨_,second,written,rest⟩ := bind_ok.mp rest
  obtain ⟨cache,written,same⟩ := alter_ok written
  rw [same] at rest
  obtain ⟨p,third,read,last⟩ := bind_ok.mp rest
  obtain ⟨found,same⟩ := look_ok read
  rw [same,found] at last
  obtain ⟨_,fourth,unlocked,ends⟩ := bind_ok.mp last
  have kept : fourth.cache = cache := by
    obtain ⟨_,made⟩ := Option.ite_none_right_eq_some.mp (attempt_ok.mp unlocked)
    cases made
    rfl
  have claimed : cache = middle.cache.write h (claim size) := (Option.some.inj written).symm
  obtain ⟨rfl,rfl⟩ := EStateM.Result.ok.inj ends
  refine ⟨?_,kept.trans claimed⟩
  change ((cache.spans h).id <<< pageShift) % 2^64 = _
  rw [claimed,write_same]
  rfl

end Throwing

theorem page_of_address (small : n < pageLimit) : (n <<< pageShift) % 2^64 = n * pageBytes ∧
    ((n <<< pageShift) % 2^64) >>> pageShift = n := by
  rw [pageLimit] at small
  have fits : n <<< pageShift < 2^64 := by
    rw [Nat.shiftLeft_eq,pageShift]
    omega
  rw [Nat.mod_eq_of_lt fits,Nat.shiftLeft_shiftRight,Nat.shiftLeft_eq]
  exact ⟨rfl,rfl⟩

theorem Given.roomy (given : Given p q held n h) (room : size ≤ n * pageBytes) (positive : 1 ≤ n) :
    Roomy (q.write h (claim size)) size (((q.spans h).id <<< pageShift) % 2^64) h := by
  obtain ⟨area,kept⟩ := given.kept
  have owns : h ∈ q.owned (insert h held) ∅ := .inl (.inl rfl)
  have fits := kept.fits owns
  have low : (q.spans h).id < pageLimit := by
    rw [given.size] at fits
    omega
  have same : (q.write h (claim size)).spans h = claim size (q.spans h) := write_same _
  have taken : ∀ page ∈ q.extent h, q.get page = some h := fun page under => by
    rw [get_of_lt (kept.inside page owns under)]
    exact kept.taken h (.inl rfl) page under
  obtain ⟨address,back⟩ := page_of_address low
  refine ⟨?_,?_,by rw [same]; rfl,?_,?_⟩
  · rw [same]
    exact address
  · intro page under
    rw [extent,same] at under
    exact taken page under
  · rw [same]
    change size ≤ (q.spans h).nPages * pageBytes
    rwa [given.size]
  · rw [pageToSpan,back]
    refine taken _ ?_
    rw [in_extent,given.size]
    omega

open Throwing

def caller (s : Ledger) (answers : List Nat) : Process Unit := {cache := s.cache, answers, rest := ()}

variable {s : Ledger} {answers : List Nat}

theorem enough_of_starved (asked : asks s.cache (SizeClass.roundUp size >>> pageShift) = true) :
    Enough size (mallocLarge size (caller s [])) := by
  obtain ⟨t,refused⟩ : ∃ t, Throwing.newSpan 2 (SizeClass.roundUp size >>> pageShift)
    {caller s [] with pageLock := true} = .error .badAlloc t := newSpan_starved asked rfl
  have thrown : mallocLarge size (caller s []) = .error .badAlloc t :=
    bind_error.mpr (.inr ⟨(),_,attempt_ok.mpr rfl,bind_error.mpr (.inl refused)⟩)
  rw [thrown]
  trivial

theorem enough_of_requested (tidy : s.Tidy) (request : Requested size) (large : maxBytes < size)
    (placed : ∀ page ∈ answers.head?, 0 < page ∧ s.cache.Fresh page (region (SizeClass.roundUp size >>> pageShift))) :
    Enough size (mallocLarge size (caller s answers)) := by
  have positive := pages_of_large request large
  have room : size ≤ SizeClass.roundUp size >>> pageShift * pageBytes := by
    obtain ⟨q,rounded,above⟩ := roundUp_large request (Nat.lt_trans (by decide) large)
    rw [rounded,pageShift,← Nat.shiftLeft_eq,Nat.shiftLeft_shiftRight]
    rwa [rounded] at above
  have served : ∀ given {more q h}, answers = given ++ more → given.length < 2 →
      Concurrent.newSpan s.cache (SizeClass.roundUp size >>> pageShift) given = some (q,h) →
      Given s.cache q {h | h ∈ s.handed} (SizeClass.roundUp size >>> pageShift) h →
      Enough size (mallocLarge size (caller s answers)) := fun given _ _ _ supply fewer served promised => by
    obtain ⟨t,ran,rfl,same⟩ := newSpan_serves (s := {caller s answers with pageLock := true}) served supply fewer
    rw [mallocLarge_returns rfl ran (congrArg Prod.fst same)]
    exact ⟨_,promised.roomy room positive⟩
  cases answers with
  | nil =>
    cases stock : asks s.cache (SizeClass.roundUp size >>> pageShift) with
    | true => exact enough_of_starved stock
    | false =>
      have backed : asks s.cache (SizeClass.roundUp size >>> pageShift) = true →
          0 < 0 ∧ s.cache.Fresh 0 (region (SizeClass.roundUp size >>> pageShift)) := fun asked => by
        rw [stock] at asked
        cases asked
      obtain ⟨q,h,found,_,given⟩ := tidy.request positive backed
      exact served [] rfl Nat.zero_lt_two ((newSpan_unasked [0] stock).symm.trans found) given
  | cons page more =>
    obtain ⟨q,h,found,_,given⟩ := tidy.request positive fun _ => placed page rfl
    exact served [page] rfl Nat.one_lt_two found given

theorem starved_of_enough (tidy : s.Tidy) (beyond : ¬Requested size) (fits : size < 2^64)
    (placed : ∀ page ∈ answers.head?, 0 < page ∧ s.cache.Fresh page (region (SizeClass.roundUp size >>> pageShift)))
    (enough : Enough size (mallocLarge size (caller s answers))) : asks s.cache 0 = true ∧ answers = [] := by
  have none_asked : SizeClass.roundUp size >>> pageShift = 0 := by
    rw [roundUp_wraps beyond fits,Nat.zero_shiftRight]
  rw [none_asked] at placed
  cases ran : mallocLarge size (caller s answers) with
  | error failure t =>
    rw [ran] at enough
    cases failure with
    | undefined => exact enough.elim
    | badAlloc =>
      obtain ⟨_,first,locked,rest⟩ := (attempt_never _).past ran
      rw [lockPage_ok locked] at rest
      rcases bind_error.mp rest with refused | ⟨span,second,_,late⟩
      · rw [none_asked] at refused
        exact (newSpan_refused refused).1
      · exact absurd late ((alter_never _).bind (fun _ => Never.bind (attempt_never _) fun _ =>
          unlockPage_never.bind fun _ => never_pure _ _) _ _)
  | ok ptr t =>
    rw [ran] at enough
    obtain ⟨k,roomy⟩ := enough
    obtain ⟨h,middle,given,rfl,cache⟩ := mallocLarge_ok ran
    rw [none_asked] at given
    obtain ⟨used,more,supply,served⟩ := newSpan_ok given
    obtain ⟨area,kept⟩ := tidy.kept
    have supply : answers = used ++ more := supply
    obtain ⟨f,other,leads,low,free⟩ := newSpan_nothing kept (fun page first => (placed page (by
      rw [supply,List.head?_append,first]
      rfl)).2) served
    have found := roomy.found
    have used := roomy.used
    rw [pageToSpan,(page_of_address low).2,cache] at found
    obtain rfl : f = k := Option.some.inj (leads.symm.trans found)
    rw [cache,write_other _ other,free] at used
    cases used

theorem large_request_enough_iff (operations : List Operation) (s : Ledger) (size : Nat) (answers : List Nat)
    (admitted : Throughout Ledger.step Ledger.Admitted {} operations) (ran : run Ledger.step {} operations = some s)
    (large : maxBytes < size) (fits : size < 2^64)
    (placed : ∀ page ∈ answers.head?, 0 < page ∧ s.cache.Fresh page (region (SizeClass.roundUp size >>> pageShift))) :
    Enough size (mallocLarge size (caller s answers)) ↔
      size ≤ 2^64 - 8192 ∨ asks s.cache 0 = true ∧ answers = [] := by
  obtain ⟨next,ran',tidy⟩ := run_succeeds (fun s operation => Ledger.step_tidy) Ledger.tidy_start admitted
  obtain rfl : next = s := Option.some.inj (ran'.symm.trans ran)
  have bound : Requested size ↔ size ≤ 2^64 - 8192 := by
    rw [Requested,pageBytes]
    omega
  rw [← bound]
  constructor
  · intro enough
    by_cases request : Requested size
    · exact .inl request
    · exact .inr (starved_of_enough tidy request fits placed enough)
  · rintro (request | ⟨asked,rfl⟩)
    · exact enough_of_requested tidy request large placed
    · by_cases request : Requested size
      · exact enough_of_requested tidy request large placed
      · rw [← Nat.zero_shiftRight pageShift,← roundUp_wraps request fits] at asked
        exact enough_of_starved asked

theorem large_request_enough_iff_first : ∃ s, run Ledger.step {} [] = some s ∧
    (Enough 600000 (mallocLarge 600000 (caller s [16])) ↔ 600000 ≤ 2^64 - 8192 ∨ asks s.cache 0 = true ∧ [16] = []) :=
  ⟨{},rfl,large_request_enough_iff [] {} 600000 [16] trivial rfl (by decide) (by decide) (by decide +kernel)⟩

theorem huge_request_of_no_pages : ¬∀ (operations : List Operation) (s : Ledger) (size : Nat) (answers : List Nat),
    Throughout Ledger.step Ledger.Admitted {} operations → run Ledger.step {} operations = some s →
    maxBytes < size → size < 2^64 →
    (∀ page ∈ answers.head?, 0 < page ∧ s.cache.Fresh page (region (SizeClass.roundUp size >>> pageShift))) →
      Enough size (mallocLarge size (caller s answers)) := by
  intro claimed
  have enough := claimed [] {} (2^64 - 8191) [16] trivial rfl (by decide) (by decide) (by decide +kernel)
  have starved := starved_of_enough Ledger.tidy_start (by decide) (by decide) (by decide +kernel) enough
  cases starved.2

end LinuxOS.Concurrent
