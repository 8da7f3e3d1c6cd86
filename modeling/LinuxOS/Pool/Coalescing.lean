import LinuxOS.Pool.Allocator
import LinuxOS.Pool.PageHistory

namespace LinuxOS.Pool
open Pages Pages.PageCache
open Tiles (Abut)
variable {p q r : PageCache} {held area : Set Nat} {h s n start stop fuel : Nat} {before after before' after' tiles : List Nat}

def Adjoin (p : PageCache) (start : Nat) (tiles : List Nat) (stop : Nat) : Prop :=
  Abut (fun k => (p.spans k).id) (fun k => (p.spans k).nPages) start tiles stop

theorem adjoin_front (adjoin : Adjoin p start tiles stop) (meets : (p.spans h).id + (p.spans h).nPages = start) :
    Adjoin p (p.spans h).id (h :: tiles) stop :=
  ⟨rfl,by rw [meets]; exact adjoin⟩

theorem adjoin_back (adjoin : Adjoin p start tiles stop) (meets : (p.spans h).id = stop) :
    Adjoin p start (tiles ++ [h]) (stop + (p.spans h).nPages) :=
  Tiles.abut_append.mpr ⟨stop,adjoin,meets,rfl⟩

-- What the loops have done by the time the cache is `q`: the span has the pages of a run of spans
-- that were filed, those are in no list any more, and the map is as it was everywhere else.
structure Gathered (p q : PageCache) (s : Nat) (before after : List Nat) : Prop where
  adjoin : Adjoin p (q.spans s).id (before ++ s :: after) ((q.spans s).id + (q.spans s).nPages)
  free : ∀ k ∈ before ++ after, p.Filed k
  lists : ∀ k n, k ∈ q.spanLists n ↔ k ∈ p.spanLists n ∧ k ∉ before ++ after
  map : ∀ page ∉ q.extent s, q.radixTree page = p.radixTree page

theorem gathered_start : Gathered p p s [] [] :=
  ⟨⟨rfl,rfl⟩,by simp,by simp,fun _ _ => rfl⟩

theorem Gathered.filed (gathered : Gathered p q s before after) (filed : q.Filed h) : p.Filed h := by
  obtain ⟨n,found⟩ := filed
  exact ⟨n,((gathered.lists h n).mp found).1⟩

theorem Gathered.fused {change : Span → Span} (gathered : Gathered p q s before after) (kept : Kept q held {s} area)
    (filed : q.Filed h) (adjoin : Adjoin p (change (q.spans s)).id (before' ++ s :: after')
      ((change (q.spans s)).id + (change (q.spans s)).nPages))
    (members : ∀ k, k ∈ before' ++ after' ↔ k = h ∨ k ∈ before ++ after)
    (union : (change (q.spans s)).extent = q.extent s ∪ q.extent h) :
    Gathered p (Pool.fused q s h change) s before' after' := by
  have grown : (Pool.fused q s h change).spans s = change (q.spans s) := by
    simp only [Pool.fused,deleteObject_spans,paint_spans,unlink_spans,write_same]
  refine ⟨by rw [grown]; exact adjoin,?_,?_,?_⟩
  · intro k member
    rcases (members k).mp member with rfl | old
    · exact gathered.filed filed
    · exact gathered.free k old
  · intro k n
    change k ∈ (q.spanLists n).erase h ↔ _
    rw [(kept.nodup n).mem_erase_iff,gathered.lists k n,members]
    tauto
  · intro page beyond
    rw [extent,grown,union,Set.mem_union,not_or] at beyond
    rw [← gathered.map page beyond.1]
    rw [in_extent,in_extent] at beyond
    change (if _ then none else if _ then none else q.radixTree page) = _
    rw [if_neg (by omega),if_neg (by omega)]

def FullBefore (p : PageCache) (s : Nat) : Prop := ∀ k, p.Filed k →
  (p.spans k).id + (p.spans k).nPages = (p.spans s).id → nPageList - 1 < (p.spans k).nPages + (p.spans s).nPages

def FullAfter (p : PageCache) (s : Nat) : Prop := ∀ k, p.Filed k →
  (p.spans k).id = (p.spans s).id + (p.spans s).nPages → nPageList - 1 < (p.spans k).nPages + (p.spans s).nPages

theorem Layout.entry_first {loose : Set Nat} (layout : Layout p held loose area) (filed : p.Filed h) :
    p.get (p.spans h).id = some h := by
  have owns : h ∈ p.owned held loose := .inr (.inl filed)
  have sized := layout.sized h owns
  have fits := layout.fits owns
  rw [get_of_lt (by omega)]
  exact layout.ends h filed _ (by rw [in_extent]; omega) (.inl rfl)

theorem Layout.entry_last {loose : Set Nat} (layout : Layout p held loose area) (filed : p.Filed h) :
    p.get (pageBefore ((p.spans h).id + (p.spans h).nPages)) = some h := by
  have owns : h ∈ p.owned held loose := .inr (.inl filed)
  have sized := layout.sized h owns
  have fits := layout.fits owns
  rw [pageBefore,if_neg (by omega),get_of_lt (by omega)]
  exact layout.ends h filed _ (by rw [in_extent]; omega) (.inr (by omega))

theorem fullBefore_of_stop (kept : Kept p held {s} area) (stopped : ∀ k, p.get (pageBefore (p.spans s).id) = some k →
    (p.spans k).isUsed = true ∨ nPageList - 1 < (p.spans k).nPages + (p.spans s).nPages) : FullBefore p s := by
  rintro k ⟨n,found⟩ meets
  have entry := Layout.entry_last kept.toLayout ⟨n,found⟩
  rw [meets] at entry
  refine (stopped k entry).resolve_left fun used => ?_
  rw [(kept.filed n k found).2.2] at used
  cases used

theorem fullAfter_of_stop (kept : Kept p held {s} area)
    (stopped : ∀ k, p.get ((p.spans s).id + (p.spans s).nPages) = some k →
      (p.spans k).isUsed = true ∨ nPageList - 1 < (p.spans k).nPages + (p.spans s).nPages) : FullAfter p s := by
  rintro k ⟨n,found⟩ meets
  have entry := Layout.entry_first kept.toLayout ⟨n,found⟩
  rw [meets] at entry
  refine (stopped k entry).resolve_left fun used => ?_
  rw [(kept.filed n k found).2.2] at used
  cases used

theorem absorbPrev_gathers (gathered : Gathered p q s before after) (merged : Merged p q held area s) (filed : q.Filed h)
    (different : h ≠ s) (meets : (q.spans h).id + (q.spans h).nPages = (q.spans s).id)
    (absorbed : absorbPrev q s h = some r) : Gathered p r s (h :: before) after := by
  cases (absorbPrev_eq merged.kept filed different meets).symm.trans absorbed
  have same : q.spans h = p.spans h := merged.frame h different
  refine gathered.fused merged.kept filed ?_ (fun k => by simp) ?_
  · have front := adjoin_front gathered.adjoin (h := h) (by rw [← same]; exact meets)
    have stop : (q.spans h).id + ((q.spans s).nPages + (q.spans h).nPages) = (q.spans s).id + (q.spans s).nPages := by
      omega
    simp only [stop]
    rw [same]
    exact front
  · ext page
    simp only [mem_extent,Set.mem_union,in_extent]
    omega

theorem absorbNext_gathers (gathered : Gathered p q s before after) (merged : Merged p q held area s) (filed : q.Filed h)
    (different : h ≠ s) (meets : (q.spans h).id = (q.spans s).id + (q.spans s).nPages)
    (absorbed : absorbNext q s h = some r) : Gathered p r s before (after ++ [h]) := by
  cases (absorbNext_eq merged.kept filed different meets).symm.trans absorbed
  have same : q.spans h = p.spans h := merged.frame h different
  refine gathered.fused merged.kept filed ?_ (fun k => by simp; tauto) ?_
  · have back := adjoin_back gathered.adjoin (h := h) (by rw [← same]; exact meets)
    rw [List.append_assoc,List.cons_append,← same,Nat.add_assoc] at back
    exact back
  · ext page
    simp only [mem_extent,Set.mem_union,in_extent]
    omega

theorem mergeBackward_gathers (gathered : Gathered p q s before after) (merged : Merged p q held area s)
    (ran : mergeBackward fuel q s = some r) :
    Merged p r held area s ∧ (∃ before, Gathered p r s before after) ∧ FullBefore r s := by
  induction fuel generalizing q before with
  | zero => cases ran
  | succ fuel ih =>
    have kept := merged.kept
    rw [mergeBackward] at ran
    split at ran
    · rename_i nobody
      cases ran
      exact ⟨merged,⟨before,gathered⟩,fullBefore_of_stop kept fun k entry => by rw [nobody] at entry; cases entry⟩
    · rename_i h entry
      obtain ⟨role,different,meets⟩ := kept.toLayout.behind entry
      split at ran
      · rename_i used
        cases ran
        refine ⟨merged,⟨before,gathered⟩,fullBefore_of_stop kept fun k other => ?_⟩
        cases entry.symm.trans other
        exact .inl used
      · rename_i unused
        split at ran
        · rename_i full
          cases ran
          refine ⟨merged,⟨before,gathered⟩,fullBefore_of_stop kept fun k other => ?_⟩
          cases entry.symm.trans other
          exact .inr full
        · rename_i room
          have filed := kept.unused role (Bool.eq_false_of_not_eq_true unused)
          have positive := kept.sized h (.inr (.inl filed))
          obtain ⟨middle,absorbed,step,_⟩ := absorbPrev_merged kept filed different meets (by omega)
          rw [absorbed,Option.bind_some] at ran
          exact ih (absorbPrev_gathers gathered merged filed different meets absorbed) (merged.trans step) ran

-- The span's first page stays, its size only grows: what did not fit before it still does not.
theorem FullBefore.fused (full : FullBefore q s) (kept : Kept q held {s} area) (h : Nat) (pages : Nat) :
    FullBefore (Pool.fused q s h fun sp => {sp with nPages := sp.nPages + pages}) s := by
  rintro k ⟨n,found⟩ meets
  have grown : (Pool.fused q s h fun sp => {sp with nPages := sp.nPages + pages}).spans s =
      {q.spans s with nPages := (q.spans s).nPages + pages} := by
    simp only [Pool.fused,deleteObject_spans,paint_spans,unlink_spans,write_same]
  have listed : k ∈ q.spanLists n := List.mem_of_mem_erase (found : k ∈ (q.spanLists n).erase h)
  have other : k ≠ s := fun same => (kept.parted k ⟨n,listed⟩).2 same
  have frame : (Pool.fused q s h fun sp => {sp with nPages := sp.nPages + pages}).spans k = q.spans k := by
    simp only [Pool.fused,deleteObject_spans,paint_spans,unlink_spans]
    exact write_other _ other
  rw [frame,grown] at meets ⊢
  have before := full k ⟨n,listed⟩ meets
  simp only
  omega

theorem mergeForward_gathers (gathered : Gathered p q s before after) (merged : Merged p q held area s)
    (full : FullBefore q s) (ran : mergeForward fuel q s = some r) :
    Merged p r held area s ∧ (∃ after, Gathered p r s before after) ∧ FullBefore r s ∧ FullAfter r s := by
  induction fuel generalizing q after with
  | zero => cases ran
  | succ fuel ih =>
    have kept := merged.kept
    rw [mergeForward] at ran
    split at ran
    · rename_i nobody
      cases ran
      exact ⟨merged,⟨after,gathered⟩,full,fullAfter_of_stop kept fun k entry => by rw [nobody] at entry; cases entry⟩
    · rename_i h entry
      obtain ⟨role,different,meets⟩ := kept.toLayout.ahead entry
      split at ran
      · rename_i used
        cases ran
        refine ⟨merged,⟨after,gathered⟩,full,fullAfter_of_stop kept fun k other => ?_⟩
        cases entry.symm.trans other
        exact .inl used
      · rename_i unused
        split at ran
        · rename_i large
          cases ran
          refine ⟨merged,⟨after,gathered⟩,full,fullAfter_of_stop kept fun k other => ?_⟩
          cases entry.symm.trans other
          exact .inr large
        · rename_i room
          have filed := kept.unused role (Bool.eq_false_of_not_eq_true unused)
          have positive := kept.sized h (.inr (.inl filed))
          obtain ⟨middle,absorbed,step,_⟩ := absorbNext_merged kept filed different meets (by omega)
          have still : FullBefore middle s := by
            cases (absorbNext_eq kept filed different meets).symm.trans absorbed
            exact full.fused kept h (q.spans h).nPages
          rw [absorbed,Option.bind_some] at ran
          exact ih (absorbNext_gathers gathered merged filed different meets absorbed) (merged.trans step) still ran

structure Coalesced (p q : PageCache) (held : Set Nat) (s : Nat) (before after : List Nat) : Prop where
  run : Adjoin p (q.spans s).id (before ++ s :: after) ((q.spans s).id + (q.spans s).nPages)
  absorbed : ∀ k ∈ before ++ after, p.Filed k
  free : (∀ n, s ∈ q.spanLists n ↔ n = (q.spans s).nPages) ∧ (q.spans s).isUsed = false
  small : (q.spans s).nPages ≤ 128
  maximal : ∀ k, q.Filed k → (q.spans k).id + (q.spans k).nPages = (q.spans s).id ∨
    (q.spans k).id = (q.spans s).id + (q.spans s).nPages → 128 < (q.spans k).nPages + (q.spans s).nPages
  lists : ∀ k n, k ≠ s → (k ∈ q.spanLists n ↔ k ∈ p.spanLists n ∧ k ∉ before ++ after)
  spans : ∀ k, k ≠ s → q.spans k = p.spans k
  map : ∀ page ∉ q.extent s, q.get page = p.get page
  others : ∀ k page, k ∈ held ∧ k ≠ s ∨ p.Filed k ∧ k ∉ before ++ after → page ∈ p.extent k → page ∉ q.extent s
  total : (q.spans s).nPages = ((before ++ s :: after).map fun k => (p.spans k).nPages).sum
  pages : ∀ page, (∃ k, (k ∈ held ∨ p.Filed k) ∧ page ∈ p.extent k) ↔
    ∃ k, (k ∈ held ∧ k ≠ s ∨ q.Filed k) ∧ page ∈ q.extent k

theorem mem_pushed {lists : Nat → List Nat} {k : Nat} :
    k ∈ Function.update lists n (s :: lists n) start ↔ k = s ∧ start = n ∨ k ∈ lists start := by
  by_cases same : start = n
  · rw [same,Function.update_self,List.mem_cons]
    simp
  · rw [Function.update_of_ne same]
    simp [same]

theorem shelve_facts (kept : Kept p held {s} area) (size : (p.spans s).nPages < nPageList) (shelved : shelve p s = some q) :
    q.spans s = {p.spans s with isUsed := false} ∧ (∀ k, k ≠ s → q.spans k = p.spans k) ∧
      (∀ k n, k ∈ q.spanLists n ↔ k = s ∧ n = (p.spans s).nPages ∨ k ∈ p.spanLists n) ∧
      ∀ page ∉ p.extent s, q.radixTree page = p.radixTree page := by
  cases (shelve_eq kept size).symm.trans shelved
  have sized := kept.sized s (.inr (.inr rfl))
  refine ⟨Function.update_self ..,fun k other => Function.update_of_ne other ..,fun k n => mem_pushed,fun page beyond => ?_⟩
  rw [in_extent] at beyond
  change freeTree p s page = p.radixTree page
  rw [freeTree,if_neg (by omega),if_neg beyond]

theorem Gathered.coalesced {middle : PageCache} (gathered : Gathered p middle s before after)
    (merged : Merged p middle (held \ {s}) area s) (atFront : FullBefore middle s) (atBack : FullAfter middle s)
    (layout : Layout p held ∅ area) (user : s ∈ held) (shelved : shelve middle s = some q)
    (kept : Kept q (held \ {s}) ∅ area) : Coalesced p q held s before after := by
  obtain ⟨span,frame,lists,map⟩ := shelve_facts merged.kept merged.size shelved
  have unfiled : ∀ n, s ∉ middle.spanLists n := fun n found => (merged.kept.parted s ⟨n,found⟩).2 rfl
  have idSame : (q.spans s).id = (middle.spans s).id := by rw [span]
  have pagesSame : (q.spans s).nPages = (middle.spans s).nPages := by rw [span]
  have extentSame : q.extent s = middle.extent s := by
    ext page
    rw [in_extent,in_extent,idSame,pagesSame]
  have run : Adjoin p (q.spans s).id (before ++ s :: after) ((q.spans s).id + (q.spans s).nPages) := by
    rw [idSame,pagesSame]
    exact gathered.adjoin
  have listed : ∀ k n, k ≠ s → (k ∈ q.spanLists n ↔ k ∈ p.spanLists n ∧ k ∉ before ++ after) := by
    intro k n other
    rw [lists k n,← gathered.lists k n]
    simp [other]
  have spans : ∀ k, k ≠ s → q.spans k = p.spans k := fun k other => (frame k other).trans (merged.frame k other)
  have final : q.Filed s := ⟨(q.spans s).nPages,(lists s _).mpr (.inl ⟨rfl,pagesSame⟩)⟩
  refine ⟨run,gathered.free,⟨fun n => ?listed,by rw [span]⟩,?small,?maximal,listed,spans,?map,?others,?total,?pages⟩
  case listed =>
    rw [lists s n,pagesSame]
    simp [unfiled n]
  case small =>
    rw [pagesSame]
    exact Nat.le_of_lt_succ merged.size
  case maximal =>
    rintro k ⟨n,found⟩ beside
    rcases (lists k n).mp found with ⟨rfl,_⟩ | old
    · have sized := kept.sized k (.inr (.inl final))
      omega
    · have other : k ≠ s := fun same => unfiled n (same ▸ old)
      rw [frame k other,idSame,pagesSame] at beside
      rw [frame k other,pagesSame]
      rcases beside with meets | meets
      · exact atFront k ⟨n,old⟩ meets
      · exact atBack k ⟨n,old⟩ meets
  case map =>
    intro page beyond
    rw [extentSame] at beyond
    simp only [PageCache.get,map page beyond,gathered.map page beyond]
  case others =>
    intro k page role under beyond
    have other : k ≠ s := by
      rcases role with ⟨_,other⟩ | ⟨found,_⟩
      · exact other
      · rintro rfl
        exact (layout.parted k found).1 user
    have owns : k ∈ q.owned (held \ {s}) ∅ := by
      rcases role with user | ⟨⟨n,found⟩,kept⟩
      · exact .inl user
      · exact .inr (.inl ⟨n,(listed k n other).mpr ⟨found,kept⟩⟩)
    refine other (kept.alone page owns (.inr (.inl final)) ?_ beyond)
    rw [extent,spans k other]
    exact under
  case total =>
    have total := Tiles.Abut.total run
    omega
  case pages =>
    intro page
    have covered : ∀ {r : PageCache} {users : Set Nat}, Layout r users ∅ area →
        (page ∈ area ↔ ∃ k, (k ∈ users ∨ r.Filed k) ∧ page ∈ r.extent k) := by
      intro r users layout
      refine (layout.tiles.cover page).trans (exists_congr fun k => and_congr_left fun _ => ?_)
      simp [owned]
    exact (covered layout).symm.trans (covered kept.toLayout)

-- `unused` is the caller's part: ReleaseListToSpan gives a span back when its count is 0.
theorem release_coalesces (p : PageCache) (held : Set Nat) (s : Nat) (serving : Serving p held) (user : s ∈ held)
    (unused : Unused (p.spans s)) : ∃ q before after, releaseSpanToPageCache p s = some q ∧ Serving q (held \ {s}) ∧
      Coalesced p q held s before after := by
  have kept := serving.kept
  have loose := kept.toLayout.lift user
  rw [insert_empty_eq] at loose
  have start : Kept p (held \ {s}) {s} {low | p.Mapped low} := by
    refine ⟨loose,fun k other => kept.used k other.1,?_⟩
    rintro k (found | rfl)
    · exact kept.idle k (.inl found)
    · exact unused
  have small := serving.small s user
  have begins : Merged p p (held \ {s}) {low | p.Mapped low} s := ⟨start,small,fun _ _ => rfl,rfl⟩
  obtain ⟨first,backward,_⟩ := mergeBackward_merged start small (Nat.le_add_right nPageList _)
  obtain ⟨merged,⟨before,gathered⟩,atFront⟩ := mergeBackward_gathers gathered_start begins backward
  obtain ⟨second,forward,_⟩ := mergeForward_merged merged.kept merged.size (Nat.le_add_right nPageList _)
  obtain ⟨merged,⟨after,gathered⟩,atFront,atBack⟩ := mergeForward_gathers gathered merged atFront forward
  obtain ⟨q,shelved,done,_⟩ := shelve_kept merged.kept merged.size
  have released : releaseSpanToPageCache p s = some q := by
    simp only [releaseSpanToPageCache,Option.bind_eq_bind,backward,Option.bind_some,forward,shelved]
  exact ⟨q,before,after,released,(serving.release user unused released).1,
    gathered.coalesced merged atFront atBack kept.toLayout user shelved done⟩

theorem Ledger.Tidy.serving {s : Ledger} (tidy : s.Tidy) : Serving s.cache {h | h ∈ s.handed} := ⟨tidy.kept,tidy.small⟩

theorem release_coalesces_split : ∃ (s : Ledger) (q : PageCache) (before after : List Nat),
    Machine.run Ledger.step {} [.getNewSpan 126 16,.getNewSpan 2 200,.releaseSpanToPageCache 1] = some s ∧
      releaseSpanToPageCache s.cache 0 = some q ∧ Serving q ({h | h ∈ s.handed} \ {0}) ∧
      Coalesced s.cache q {h | h ∈ s.handed} 0 before after := by
  have admitted : Machine.Throughout Ledger.step Ledger.Admitted {}
      [.getNewSpan 126 16,.getNewSpan 2 200,.releaseSpanToPageCache 1] := by decide +kernel
  obtain ⟨s,ran,tidy⟩ := Machine.run_succeeds (fun s operation => Ledger.step_tidy) Ledger.tidy_start admitted
  have last : (Machine.run Ledger.step {} [.getNewSpan 126 16,.getNewSpan 2 200,.releaseSpanToPageCache 1]).map
      Ledger.handed = some [0] := by decide +kernel
  rw [ran] at last
  have user : 0 ∈ s.handed := by rw [Option.some.inj last]; exact List.mem_singleton_self 0
  obtain ⟨q,before,after,released,kept,coalesced⟩ :=
    release_coalesces s.cache {h | h ∈ s.handed} 0 tidy.serving user (tidy.idle 0 user)
  exact ⟨s,q,before,after,ran,released,kept,coalesced⟩

end LinuxOS.Pool
