import LinuxOS.Pages.Layout

namespace LinuxOS.Pages
open Function (update)
open PageCache
variable {p q : PageCache} {held loose area : Set Nat} {h s n m k page whole piece : Nat}
variable {spans : Nat → Span} {tree : Nat → Option Nat} {front back : Span → Span}

theorem filed_unlink (layout : Layout p held loose area) : (p.unlink h).Filed k ↔ k ≠ h ∧ p.Filed k := by
  constructor
  · rintro ⟨n,found⟩
    obtain ⟨other,found⟩ := (layout.nodup n).mem_erase_iff.mp found
    exact ⟨other,n,found⟩
  · rintro ⟨other,n,found⟩
    exact ⟨n,(layout.nodup n).mem_erase_iff.mpr ⟨other,found⟩⟩

theorem owned_unlink (layout : Layout p held loose area) (filed : p.Filed h) :
    (p.unlink h).owned held (insert h loose) = p.owned held loose := by
  ext k
  simp only [owned,Set.mem_ofPred_eq,filed_unlink layout,Set.mem_insert_iff]
  by_cases same : k = h
  · subst k; simp [filed]
  · simp [same]

theorem popFront_eq (layout : Layout p held loose area) (popped : p.popFront n = some (q,h)) :
    h ∈ p.spanLists n ∧ q = p.unlink h := by
  unfold popFront at popped
  cases list : p.spanLists n with
  | nil => rw [list] at popped; cases popped
  | cons first rest =>
    rw [list] at popped
    cases popped
    have found : h ∈ p.spanLists n := by rw [list]; exact .head _
    refine ⟨.head _,?_⟩
    simp only [PageCache.unlink,PageCache.mk.injEq,true_and,and_true]
    funext m
    by_cases same : m = n
    · subst m; simp [list]
    · rw [Function.update_of_ne same,List.erase_of_not_mem]
      intro other; exact same ((layout.listed found m).mp other)

theorem popBack_eq (layout : Layout p held loose area) (popped : p.popBack n = some (q,h)) :
    h ∈ p.spanLists n ∧ q = p.unlink h := by
  obtain ⟨last,at',made⟩ := Option.map_eq_some_iff.mp popped
  cases made
  have found : h ∈ p.spanLists n := List.mem_of_getLast? at'
  refine ⟨found,?_⟩
  simp only [PageCache.unlink,PageCache.mk.injEq,true_and,and_true]
  funext m
  by_cases same : m = n
  · subst m
    have list := List.dropLast_append_getLast? h at'
    have distinct := layout.nodup n
    rw [Function.update_self]
    rw [← list,List.nodup_append] at distinct
    nth_rewrite 2 [← list]
    rw [List.erase_append_right _ fun early => distinct.2.2 h early h (.head _) rfl]
    simp
  · rw [Function.update_of_ne same,List.erase_of_not_mem]
    intro other; exact same ((layout.listed found m).mp other)

theorem Layout.leads (layout : Layout p held loose area) (clear : ∀ l ∈ loose, page ∉ p.extent l)
    (entry : p.radixTree page = some h) : page ∈ p.extent h ∧ (h ∈ held ∨ p.Filed h ∧ p.AtEnd h page) := by
  have inside : page ∈ area := by
    by_contra beyond
    rw [layout.outside page beyond] at entry; cases entry
  obtain ⟨k,owns,under⟩ := (layout.tiles.cover page).mp inside
  rcases owns with user | filed | member
  · rw [layout.taken k user page under] at entry
    cases entry; exact ⟨under,.inl user⟩
  · by_cases final : p.AtEnd k page
    · rw [layout.ends k filed page under final] at entry
      cases entry; exact ⟨under,.inr ⟨filed,final⟩⟩
    · rw [layout.hollow k filed page under final] at entry; cases entry
  · exact absurd under (clear k member)

theorem Layout.at_end (layout : Layout p held loose area) (filed : p.Filed h) (final : p.AtEnd h page) :
    page ∈ p.extent h := by
  have size := layout.sized h (.inr (.inl filed))
  rw [in_extent]
  rcases final with first | last <;> omega

theorem Layout.entry_held (layout : Layout p held loose area) (user : h ∈ held) (under : page ∈ p.extent h) :
    p.get page = some h := by
  rw [get_of_lt (layout.inside page (.inl user) under)]
  exact layout.taken h user page under

theorem Layout.entry_filed (layout : Layout p held loose area) (filed : p.Filed h) (final : p.AtEnd h page) :
    p.get page = some h := by
  have under := layout.at_end filed final
  rw [get_of_lt (layout.inside page (.inr (.inl filed)) under)]
  exact layout.ends h filed page under final

theorem Layout.entry_none (layout : Layout p held ∅ area) (unused : ∀ h ∈ held, page ∉ p.extent h)
    (unfiled : ∀ h, p.Filed h → ¬p.AtEnd h page) : p.get page = none := by
  by_cases low : page < pageLimit
  · rw [get_of_lt low]
    cases entry : p.radixTree page with
    | none => rfl
    | some h =>
      obtain ⟨found,role⟩ := layout.leads (by simp) entry
      rcases role with user | ⟨free,final⟩
      · exact absurd found (unused h user)
      · exact absurd final (unfiled h free)
  · exact get_of_le (by omega)

theorem Layout.unlink (layout : Layout p held loose area) (filed : p.Filed h) :
    Layout (p.unlink h) held (insert h loose) area := by
  have same := owned_unlink layout filed
  refine ⟨by rw [same]; exact layout.tiles,by rw [same]; exact layout.sized,
    by rw [same]; exact layout.object,?filed,?nodup,?parted,?aside,layout.bound,layout.taken,?ends,?hollow,layout.outside,
    layout.spare,layout.distinct⟩
  case filed => intro n k found; exact layout.filed n k (List.mem_of_mem_erase found)
  case nodup => intro n; exact (layout.nodup n).erase h
  case parted =>
    intro k found
    obtain ⟨other,found⟩ := (filed_unlink layout).mp found
    obtain ⟨notHeld,notLoose⟩ := layout.parted k found
    exact ⟨notHeld,fun member => member.elim other notLoose⟩
  case aside =>
    rintro k user (rfl | member)
    · exact (layout.parted k filed).1 user
    · exact layout.aside k user member
  case ends =>
    intro k found page under final
    exact layout.ends k ((filed_unlink layout).mp found).2 page under final
  case hollow =>
    intro k found page under middle
    exact layout.hollow k ((filed_unlink layout).mp found).2 page under middle

theorem Layout.change (layout : Layout p held loose area) {held' loose' : Set Nat}
    (same : p.owned held' loose' = p.owned held loose) (parted : ∀ k, p.Filed k → k ∉ held' ∧ k ∉ loose')
    (aside : ∀ k ∈ held', k ∉ loose') (taken : ∀ k ∈ held', ∀ page ∈ p.extent k, p.radixTree page = some k) :
    Layout p held' loose' area :=
  {layout with
    tiles := by rw [same]; exact layout.tiles
    sized := by rw [same]; exact layout.sized
    object := by rw [same]; exact layout.object
    parted := parted, aside := aside, taken := taken}

theorem Layout.lift (layout : Layout p held loose area) (user : h ∈ held) :
    Layout p (held \ {h}) (insert h loose) area := by
  have same : p.owned (held \ {h}) (insert h loose) = p.owned held loose := by
    ext k
    simp only [owned,Set.mem_ofPred_eq,Set.mem_sdiff,Set.mem_singleton_iff,Set.mem_insert_iff]
    by_cases same : k = h
    · subst k; simp [user]
    · simp [same]
  refine layout.change same ?_ ?_ ?_
  · intro k filed
    obtain ⟨notHeld,notLoose⟩ := layout.parted k filed
    refine ⟨fun member => notHeld member.1,?_⟩
    rintro (rfl | member)
    · exact notHeld user
    · exact notLoose member
  · rintro k ⟨member,other⟩ (same | member')
    · exact other same
    · exact layout.aside k member member'
  · intro k member; exact layout.taken k member.1

theorem Layout.hand (layout : Layout p held loose area) (member : h ∈ loose)
    (marked : ∀ page ∈ p.extent h, p.radixTree page = some h) :
    Layout p (insert h held) (loose \ {h}) area := by
  have same : p.owned (insert h held) (loose \ {h}) = p.owned held loose := by
    ext k
    simp only [owned,Set.mem_ofPred_eq,Set.mem_sdiff,Set.mem_singleton_iff,Set.mem_insert_iff]
    by_cases same : k = h
    · subst k; simp [member]
    · simp [same]
  refine layout.change same ?_ ?_ ?_
  · intro k filed
    obtain ⟨notHeld,notLoose⟩ := layout.parted k filed
    refine ⟨?_,fun found => notLoose found.1⟩
    rintro (rfl | found)
    · exact notLoose member
    · exact notHeld found
  · rintro k (rfl | found) ⟨found',other⟩
    · exact other rfl
    · exact layout.aside k found found'
  · rintro k (rfl | found)
    · exact marked
    · exact layout.taken k found

theorem filed_push (pushed : p.pushFront n h = some q) : q.Filed k ↔ k = h ∨ p.Filed k := by
  obtain ⟨_,made⟩ := Option.ite_none_right_eq_some.mp pushed
  cases made
  constructor
  · rintro ⟨m,found⟩
    by_cases same : m = n
    · subst m
      simp only [Function.update_self,List.mem_cons] at found
      exact found.imp_right fun old => ⟨n,old⟩
    · exact .inr ⟨m,by simpa [same] using found⟩
  · rintro (rfl | ⟨m,found⟩)
    · exact ⟨n,by simp⟩
    · refine ⟨m,?_⟩
      by_cases same : m = n
      · subst m; simp [found]
      · simpa [same] using found

-- A loose span is filed under its size, with only its two ends in the map.
theorem Layout.file (layout : Layout p held loose area) (member : h ∈ loose)
    (pushed : p.pushFront n h = some q) (size : (p.spans h).nPages = n) (unused : (p.spans h).isUsed = false)
    (ends : ∀ page ∈ p.extent h, p.AtEnd h page → p.radixTree page = some h)
    (hollow : ∀ page ∈ p.extent h, ¬p.AtEnd h page → p.radixTree page = none) :
    Layout q held (loose \ {h}) area := by
  have filed : ∀ k, q.Filed k ↔ k = h ∨ p.Filed k := fun k => filed_push pushed
  obtain ⟨below,made⟩ := Option.ite_none_right_eq_some.mp pushed
  cases made
  have same : owned {p with spanLists := update p.spanLists n (h :: p.spanLists n)} held (loose \ {h}) =
      p.owned held loose := by
    ext k
    simp only [owned,Set.mem_ofPred_eq,Set.mem_sdiff,Set.mem_singleton_iff,filed]
    by_cases same : k = h
    · subst k; simp [member]
    · simp [same]
  have fresh : ¬p.Filed h := fun found => (layout.parted h found).2 member
  refine ⟨by rw [same]; exact layout.tiles,by rw [same]; exact layout.sized,
    by rw [same]; exact layout.object,?filed,?nodup,?parted,?aside,layout.bound,layout.taken,?ends,?hollow,layout.outside,
    layout.spare,layout.distinct⟩
  case filed =>
    intro m k found
    by_cases list : m = n
    · subst m
      simp only [Function.update_self,List.mem_cons] at found
      rcases found with rfl | old
      · exact ⟨size,below,unused⟩
      · exact layout.filed n k old
    · exact layout.filed m k (by simpa [list] using found)
  case nodup =>
    intro m
    by_cases list : m = n
    · subst m
      simp only [Function.update_self,List.nodup_cons]
      exact ⟨fun found => fresh ⟨n,found⟩,layout.nodup n⟩
    · simpa [list] using layout.nodup m
  case parted =>
    intro k found
    rcases (filed k).mp found with rfl | old
    · exact ⟨fun user => layout.aside k user member,fun found => found.2 rfl⟩
    · exact ⟨(layout.parted k old).1,fun found => (layout.parted k old).2 found.1⟩
  case aside => intro k user found; exact layout.aside k user found.1
  case ends =>
    intro k found
    rcases (filed k).mp found with rfl | old
    · exact ends
    · exact layout.ends k old
  case hollow =>
    intro k found
    rcases (filed k).mp found with rfl | old
    · exact hollow
    · exact layout.hollow k old

theorem Layout.shelve (layout : Layout p held {s} area) (tree : Nat → Option Nat)
    (agree : ∀ page, page ∉ p.extent s → tree page = p.radixTree page)
    (ends : ∀ page ∈ p.extent s, p.AtEnd s page → tree page = some s)
    (hollow : ∀ page ∈ p.extent s, ¬p.AtEnd s page → tree page = none)
    (below : (p.spans s).nPages < nPageList) (unused : (p.spans s).isUsed = false) :
    Layout {p with
      radixTree := tree
      spanLists := update p.spanLists (p.spans s).nPages (s :: p.spanLists (p.spans s).nPages)} held ∅ area := by
  have painted : Layout {p with radixTree := tree} held {s} area := layout.repaint fun page clear =>
    agree page (clear s rfl)
  have filed := painted.file (h := s) rfl (pushFront_of_lt below) rfl unused ends hollow
  rwa [Set.sdiff_self] at filed

theorem Layout.share (layout : Layout p held {h,s} area) (tree : Nat → Option Nat) (other : s ≠ h)
    (agree : ∀ page, page ∉ p.extent h → page ∉ p.extent s → tree page = p.radixTree page)
    (front : ∀ page ∈ p.extent h, tree page = some h)
    (ends : ∀ page ∈ p.extent s, p.AtEnd s page → tree page = some s)
    (hollow : ∀ page ∈ p.extent s, ¬p.AtEnd s page → tree page = none)
    (below : (p.spans s).nPages < nPageList) (unused : (p.spans s).isUsed = false) :
    Layout {p with
      radixTree := tree
      spanLists := update p.spanLists (p.spans s).nPages (s :: p.spanLists (p.spans s).nPages)}
      (insert h held) ∅ area := by
  have painted : Layout {p with radixTree := tree} held {h,s} area := layout.repaint fun page clear =>
    agree page (clear h (.inl rfl)) (clear s (.inr rfl))
  have handed := painted.hand (.inl rfl) front
  have filed := handed.file (h := s) ⟨.inr rfl,other⟩ (pushFront_of_lt below) rfl unused ends hollow
  have nothing : (({h,s} : Set Nat) \ {h}) \ {s} = ∅ := by
    ext k
    simp only [Set.mem_sdiff,Set.mem_insert_iff,Set.mem_singleton_iff,Set.mem_empty_iff_false]
    tauto
  rwa [nothing] at filed

theorem Layout.spans_elsewhere (layout : Layout p held loose area) (spans : Nat → Span)
    (agree : ∀ k ∈ p.owned held loose, spans k = p.spans k) : Layout {p with spans := spans} held loose area := by
  have extent : ∀ k ∈ p.owned held loose, (spans k).extent = p.extent k := fun k owns => by
    rw [agree k owns]; rfl
  refine ⟨layout.tiles.same extent,?_,layout.object,?_,layout.nodup,layout.parted,layout.aside,
    layout.bound,?_,?_,?_,layout.outside,layout.spare,layout.distinct⟩
  · intro k owns
    change 1 ≤ (spans k).nPages
    rw [agree k owns]; exact layout.sized k owns
  · intro n k found
    change (spans k).nPages = n ∧ n < nPageList ∧ (spans k).isUsed = false
    rw [agree k (.inr (.inl ⟨n,found⟩))]
    exact layout.filed n k found
  · intro k user page under
    exact layout.taken k user page (by rwa [← extent k (.inl user)])
  · intro k found page under final
    have owns : k ∈ p.owned held loose := .inr (.inl found)
    exact layout.ends k found page (by rwa [← extent k owns]) (by simpa only [AtEnd,agree k owns] using final)
  · intro k found page under middle
    have owns : k ∈ p.owned held loose := .inr (.inl found)
    exact layout.hollow k found page (by rwa [← extent k owns])
      (by simpa only [AtEnd,agree k owns] using middle)

theorem Layout.newObject (layout : Layout p held loose area) (made : p.newObject = (q,h)) :
    Layout q held loose area ∧ h ∉ p.owned held loose ∧ q.Allocated h := by
  unfold PageCache.newObject at made
  split at made
  case h_1 first rest pool =>
    cases made
    have absent : h ∉ p.owned held loose := fun owns => (layout.object h owns).2 (by rw [pool]; exact .head _)
    have distinct := layout.distinct
    rw [pool,List.nodup_cons] at distinct
    have moved := layout.spans_elsewhere (update p.spans h {}) fun k owns => by
      rw [Function.update_of_ne (ne_of_mem_of_not_mem owns absent)]
    refine ⟨⟨moved.tiles,moved.sized,?_,moved.filed,moved.nodup,moved.parted,moved.aside,moved.bound,
      moved.taken,moved.ends,moved.hollow,moved.outside,?_,distinct.2⟩,absent,?_,distinct.1⟩
    · intro k owns
      exact ⟨(layout.object k owns).1,fun found => (layout.object k owns).2 (by rw [pool]; exact .tail _ found)⟩
    · intro k found; exact layout.spare k (by rw [pool]; exact .tail _ found)
    · exact layout.spare h (by rw [pool]; exact .head _)
  case h_2 pool =>
    cases made
    have absent : p.objects ∉ p.owned held loose := fun owns =>
      Nat.lt_irrefl _ (layout.object p.objects owns).1
    have moved := layout.spans_elsewhere (update p.spans p.objects {}) fun k owns => by
      rw [Function.update_of_ne (ne_of_mem_of_not_mem owns absent)]
    refine ⟨⟨moved.tiles,moved.sized,?_,moved.filed,moved.nodup,moved.parted,moved.aside,moved.bound,
      moved.taken,moved.ends,moved.hollow,moved.outside,?_,layout.distinct⟩,absent,Nat.lt_succ_self _,?_⟩
    · intro k owns
      exact ⟨Nat.lt_succ_of_lt (layout.object k owns).1,(layout.object k owns).2⟩
    · intro k found; exact Nat.lt_succ_of_lt (layout.spare k found)
    · intro found; exact Nat.lt_irrefl _ (layout.spare _ found)

theorem owned_insert : p.owned held (insert h loose) = insert h (p.owned held loose) := by
  ext k
  simp only [owned,Set.mem_ofPred_eq,Set.mem_insert_iff]
  tauto

theorem Layout.grow (layout : Layout p held loose area) (spans : Nat → Span) (absent : h ∉ p.owned held loose)
    (object : p.Allocated h) (agree : ∀ k, k ≠ h → spans k = p.spans k) (sized : 1 ≤ (spans h).nPages)
    (bound : (spans h).id + (spans h).nPages ≤ pageLimit) (clear : ∀ page ∈ (spans h).extent, page ∉ area) :
    Layout {p with spans := spans} held (insert h loose) (area ∪ (spans h).extent) := by
  have moved := layout.spans_elsewhere spans fun k owns =>
    agree k (ne_of_mem_of_not_mem owns absent)
  have same : owned {p with spans := spans} held (insert h loose) = insert h (p.owned held loose) := owned_insert
  refine ⟨?tiles,?sized,?object,moved.filed,moved.nodup,?parted,?aside,?bound,moved.taken,moved.ends,moved.hollow,?outside,moved.spare,
    moved.distinct⟩
  case tiles =>
    rw [same]
    exact moved.tiles.add (fun k _ => rfl) clear
  case sized =>
    rw [same]
    rintro k (rfl | owns)
    · exact sized
    · exact moved.sized k owns
  case object =>
    rw [same]
    rintro k (rfl | owns)
    · exact object
    · exact moved.object k owns
  case parted =>
    intro k found
    refine ⟨(moved.parted k found).1,?_⟩
    rintro (rfl | member)
    · exact absent (.inr (.inl found))
    · exact (moved.parted k found).2 member
  case aside =>
    rintro k user (rfl | member)
    · exact absent (.inl user)
    · exact moved.aside k user member
  case bound =>
    rintro page (found | found)
    · exact moved.bound page found
    · rw [mem_extent] at found; omega
  case outside => intro page beyond; exact moved.outside page fun found => beyond (.inl found)

def PageCache.grown (p : PageCache) (page region count : Nat) : PageCache :=
  {p.newObject.1 with
    spans := update p.newObject.1.spans p.newObject.2 {id := page, nPages := count}
    system := (page,region) :: p.system}

@[simp] theorem grown_span : (p.grown page m n).spans p.newObject.2 = {id := page, nPages := n} :=
  Function.update_self ..

@[simp] theorem grown_spanLists : (p.grown page m n).spanLists = p.spanLists := newObject_spanLists

theorem grown_other (other : k ≠ p.newObject.2) : (p.grown page m n).spans k = p.spans k :=
  (Function.update_of_ne other ..).trans (newObject_other other)

theorem grown_layout (layout : Layout p held ∅ area) (sized : 1 ≤ n) (bound : page + n ≤ pageLimit)
    (clear : ∀ low, page ≤ low → low < page + n → low ∉ area) :
    Layout (p.grown page m n) held {p.newObject.2} (area ∪ {low | page ≤ low ∧ low < page + n}) ∧
      p.newObject.2 ∉ p.owned held ∅ := by
  obtain ⟨made,absent,object⟩ := layout.newObject (q := p.newObject.1) (h := p.newObject.2) rfl
  have owns : p.newObject.2 ∉ p.newObject.1.owned held ∅ := fun owns => by
    simp only [owned,Filed,newObject_spanLists] at owns
    exact absent owns
  have extent : ((p.grown page m n).spans p.newObject.2).extent = {low | page ≤ low ∧ low < page + n} := by
    rw [grown_span]; rfl
  have big := made.grow (p.grown page m n).spans owns object
    (fun k other => Function.update_of_ne other ..) (by rw [grown_span]; exact sized)
    (by rw [grown_span]; exact bound) fun low under => by
      rw [extent] at under
      exact clear low under.1 under.2
  rw [insert_empty_eq,extent] at big
  exact ⟨⟨big.tiles,big.sized,big.object,big.filed,big.nodup,big.parted,big.aside,big.bound,big.taken,big.ends,
    big.hollow,big.outside,big.spare,big.distinct⟩,absent⟩

theorem pop_pushed (empty : p.spanLists n = []) (pushed : p.pushFront n h = some q) :
    q.popBack n = some (p,h) ∧ q.popFront n = some (p,h) := by
  obtain ⟨_,made⟩ := Option.ite_none_right_eq_some.mp pushed
  cases made
  have back : update (update p.spanLists n [h]) n [] = p.spanLists := by
    rw [Function.update_idem,← empty,Function.update_eq_self]
  simp [popBack,popFront,empty,back]

theorem Layout.cut (layout : Layout p held loose area) (spans : Nat → Span) (member : whole ∈ loose)
    (absent : piece ∉ p.owned held loose) (object : p.Allocated piece)
    (agree : ∀ k, k ≠ whole → k ≠ piece → spans k = p.spans k)
    (pieceId : (spans piece).id = (p.spans whole).id) (piecePages : (spans piece).nPages = n)
    (restId : (spans whole).id = (p.spans whole).id + n)
    (restPages : (spans whole).nPages = (p.spans whole).nPages - n)
    (some' : 1 ≤ n) (less : n < (p.spans whole).nPages) :
    Layout {p with spans := spans} held (insert piece loose) area := by
  have owns : whole ∈ p.owned held loose := .inr (.inr member)
  have other : ∀ k ∈ p.owned held loose, k ≠ whole → spans k = p.spans k := fun k owns different =>
    agree k different (ne_of_mem_of_not_mem owns absent)
  have outside : ∀ k, k ∈ held ∨ p.Filed k → k ∈ p.owned held loose ∧ k ≠ whole := by
    rintro k (user | found)
    · exact ⟨.inl user,fun same => layout.aside k user (same ▸ member)⟩
    · exact ⟨.inr (.inl found),fun same => (layout.parted k found).2 (same ▸ member)⟩
  have same : owned {p with spans := spans} held (insert piece loose) = insert piece (p.owned held loose) :=
    owned_insert
  have extent : ∀ k, k ∈ held ∨ p.Filed k → (spans k).extent = p.extent k := fun k role => by
    rw [other k (outside k role).1 (outside k role).2]; rfl
  refine ⟨?tiles,?sized,?object,?filed,layout.nodup,?parted,?aside,layout.bound,?taken,?ends,?hollow,layout.outside,layout.spare,layout.distinct⟩
  case tiles =>
    rw [same]
    refine layout.tiles.split owns absent (fun k owns different => ?_) ?_ ?_
    · change (spans k).extent = _
      rw [other k owns different]; rfl
    · ext page
      simp only [Set.mem_union,in_extent,restId,restPages,pieceId,piecePages]
      omega
    · intro page under under'
      simp only [in_extent,restId,restPages,pieceId,piecePages] at under under'
      omega
  case sized =>
    rw [same]
    rintro k (rfl | owns)
    · change 1 ≤ (spans k).nPages
      omega
    · change 1 ≤ (spans k).nPages
      by_cases different : k = whole
      · subst k; omega
      · rw [other k owns different]; exact layout.sized k owns
  case object =>
    rw [same]
    rintro k (rfl | owns)
    · exact object
    · exact layout.object k owns
  case filed =>
    intro m k found
    obtain ⟨owns,different⟩ := outside k (.inr ⟨m,found⟩)
    change (spans k).nPages = m ∧ m < nPageList ∧ (spans k).isUsed = false
    rw [other k owns different]
    exact layout.filed m k found
  case parted =>
    intro k found
    refine ⟨(layout.parted k found).1,?_⟩
    rintro (rfl | member)
    · exact absent (.inr (.inl found))
    · exact (layout.parted k found).2 member
  case aside =>
    rintro k user (rfl | member)
    · exact absent (.inl user)
    · exact layout.aside k user member
  case taken =>
    intro k user page under
    exact layout.taken k user page (by rwa [← extent k (.inl user)])
  case ends =>
    intro k found page under final
    obtain ⟨owns,different⟩ := outside k (.inr found)
    exact layout.ends k found page (by rwa [← extent k (.inr found)])
      (by simpa only [AtEnd,other k owns different] using final)
  case hollow =>
    intro k found page under middle
    obtain ⟨owns,different⟩ := outside k (.inr found)
    exact layout.hollow k found page (by rwa [← extent k (.inr found)])
      (by simpa only [AtEnd,other k owns different] using middle)

-- A split writes the piece into a new object and the rest into the span that it cuts.
def divideWith (p : PageCache) (s : Nat) (front back : Span → Span) : PageCache :=
  (p.newObject.1.write p.newObject.2 front).write s back

theorem divideWith_piece (other : s ≠ p.newObject.2) : (divideWith p s front back).spans p.newObject.2 = front {} := by
  rw [divideWith,write_other _ other.symm,write_same,newObject_same]

theorem divideWith_rest (other : s ≠ p.newObject.2) : (divideWith p s front back).spans s = back (p.spans s) := by
  rw [divideWith,write_same,write_other _ other,newObject_other other]

theorem divideWith_other (old : h ≠ s) (other : h ≠ p.newObject.2) :
    (divideWith p s front back).spans h = p.spans h := by
  rw [divideWith,write_other _ old,write_other _ other,newObject_other other]

theorem Layout.divideWith (layout : Layout p held {s} area) (pieceId : s ≠ p.newObject.2 → (front {}).id = (p.spans s).id)
    (piecePages : (front {}).nPages = n) (restId : (back (p.spans s)).id = (p.spans s).id + n)
    (restPages : (back (p.spans s)).nPages = (p.spans s).nPages - n) (some' : 1 ≤ n) (less : n < (p.spans s).nPages) :
    Layout (divideWith p s front back) held {p.newObject.2,s} area ∧ s ≠ p.newObject.2 ∧
      p.newObject.2 ∉ p.owned held {s} := by
  obtain ⟨made,absent,object⟩ := layout.newObject (q := p.newObject.1) (h := p.newObject.2) rfl
  have other : s ≠ p.newObject.2 := fun same => absent (same ▸ .inr (.inr rfl))
  have same := newObject_other other
  have owns : p.newObject.2 ∉ p.newObject.1.owned held {s} := fun owns => by
    simp only [owned,Filed,newObject_spanLists] at owns
    exact absent owns
  refine ⟨made.cut (n := n) _ rfl owns object ?others ?pieceId ?piecePages ?restId ?restPages some' ?less,other,absent⟩
  case others =>
    intro k old new
    exact (divideWith_other old new).trans (newObject_other new).symm
  case pieceId => exact (congrArg Span.id (divideWith_piece other)).trans ((pieceId other).trans (by rw [same]))
  case piecePages => exact (congrArg Span.nPages (divideWith_piece other)).trans piecePages
  case restId => exact (congrArg Span.id (divideWith_rest other)).trans (restId.trans (by rw [same]))
  case restPages => exact (congrArg Span.nPages (divideWith_rest other)).trans (restPages.trans (by rw [same]))
  case less => rw [same]; exact less

theorem Layout.owned_without (layout : Layout p held loose area) (gone : h ∈ loose) :
    p.owned held (loose \ {h}) = p.owned held loose \ {h} := by
  ext k
  constructor
  · rintro (user | found | ⟨member,other⟩)
    · exact ⟨.inl user,fun same => layout.aside k user (same ▸ gone)⟩
    · exact ⟨.inr (.inl found),fun same => (layout.parted k found).2 (same ▸ gone)⟩
    · exact ⟨.inr (.inr member),other⟩
  · rintro ⟨user | found | member,other⟩
    · exact .inl user
    · exact .inr (.inl found)
    · exact .inr (.inr ⟨member,other⟩)

theorem Layout.recycled (layout : Layout p held loose area) (owns : h ∈ p.owned held loose) :
    (∀ k ∈ p.owned held loose \ {h}, (p.deleteObject h).Allocated k) ∧
      (∀ k ∈ h :: p.freeObjects, k < p.objects) ∧ (h :: p.freeObjects).Nodup := by
  refine ⟨?_,?_,List.nodup_cons.mpr ⟨(layout.object h owns).2,layout.distinct⟩⟩
  · rintro k ⟨owns',other⟩
    refine ⟨(layout.object k owns').1,fun found => ?_⟩
    rcases List.mem_cons.mp found with rfl | old
    · exact other rfl
    · exact (layout.object k owns').2 old
  · intro k found
    rcases List.mem_cons.mp found with rfl | old
    · exact (layout.object k owns).1
    · exact layout.spare k old

theorem Layout.fuse (layout : Layout p held loose area) (spans : Nat → Span) (kept : s ∈ loose) (gone : h ∈ loose)
    (different : s ≠ h) (agree : ∀ k, k ≠ s → spans k = p.spans k)
    (union : (spans s).extent = p.extent s ∪ p.extent h) (sized : 1 ≤ (spans s).nPages) :
    Layout {p with spans := spans, freeObjects := h :: p.freeObjects} held (loose \ {h}) area := by
  have outside : ∀ k, k ∈ held ∨ p.Filed k → k ≠ s := by
    rintro k (user | found)
    · exact fun same => layout.aside k user (same ▸ kept)
    · exact fun same => (layout.parted k found).2 (same ▸ kept)
  have same : owned {p with spans := spans, freeObjects := h :: p.freeObjects} held (loose \ {h}) =
      p.owned held loose \ {h} := layout.owned_without gone
  have extent : ∀ k, k ≠ s → (spans k).extent = p.extent k := fun k other => by rw [agree k other]; rfl
  have owns : h ∈ p.owned held loose := .inr (.inr gone)
  have recycled := layout.recycled owns
  refine ⟨?tiles,?sized,?object,?filed,layout.nodup,?parted,?aside,layout.bound,?taken,?ends,?hollow,layout.outside,?spare,?distinct⟩
  case tiles =>
    rw [same]
    exact layout.tiles.merge (.inr (.inr kept)) owns different (fun k _ other _ => extent k other) union
  case sized =>
    rw [same]
    rintro k ⟨owns,_⟩
    change 1 ≤ (spans k).nPages
    by_cases main : k = s
    · subst k; exact sized
    · rw [agree k main]; exact layout.sized k owns
  case object =>
    rw [same]
    exact recycled.1
  case filed =>
    intro m k found
    change (spans k).nPages = m ∧ m < nPageList ∧ (spans k).isUsed = false
    rw [agree k (outside k (.inr ⟨m,found⟩))]
    exact layout.filed m k found
  case parted =>
    intro k found
    exact ⟨(layout.parted k found).1,fun member => (layout.parted k found).2 member.1⟩
  case aside => intro k user member; exact layout.aside k user member.1
  case taken =>
    intro k user page under
    exact layout.taken k user page (by rwa [← extent k (outside k (.inl user))])
  case ends =>
    intro k found page under final
    have main := outside k (.inr found)
    exact layout.ends k found page (by rwa [← extent k main]) (by simpa only [AtEnd,agree k main] using final)
  case hollow =>
    intro k found page under middle
    have main := outside k (.inr found)
    exact layout.hollow k found page (by rwa [← extent k main])
      (by simpa only [AtEnd,agree k main] using middle)
  case spare => exact recycled.2.1
  case distinct => exact recycled.2.2

-- A loose span whose pages nobody can find any more is forgotten with its pages.
theorem Layout.discard (layout : Layout p held loose area) (gone : h ∈ loose)
    (blank : ∀ page ∈ p.extent h, p.radixTree page = none) :
    Layout (p.deleteObject h) held (loose \ {h}) (area \ p.extent h) := by
  have owns : h ∈ p.owned held loose := .inr (.inr gone)
  have recycled := layout.recycled owns
  have same : (p.deleteObject h).owned held (loose \ {h}) = p.owned held loose \ {h} := layout.owned_without gone
  refine ⟨?tiles,?sized,?object,layout.filed,layout.nodup,?parted,?aside,?bound,layout.taken,layout.ends,layout.hollow,?outside,?spare,?distinct⟩
  case tiles => rw [same]; exact layout.tiles.remove owns
  case sized => rw [same]; rintro k ⟨owns,_⟩; exact layout.sized k owns
  case object =>
    rw [same]
    exact recycled.1
  case parted =>
    intro k found
    exact ⟨(layout.parted k found).1,fun member => (layout.parted k found).2 member.1⟩
  case aside => intro k user member; exact layout.aside k user member.1
  case bound => intro page found; exact layout.bound page found.1
  case outside =>
    intro page beyond
    by_cases under : page ∈ p.extent h
    · exact blank page under
    · exact layout.outside page fun found => beyond ⟨found,under⟩
  case spare => exact recycled.2.1
  case distinct => exact recycled.2.2

theorem Layout.absorb (layout : Layout p held {s} area) (filed : p.Filed h)
    (agree : ∀ k, k ≠ s → spans k = p.spans k) (union : (spans s).extent = p.extent s ∪ p.extent h)
    (sized : 1 ≤ (spans s).nPages) (same : ∀ page ∉ (spans s).extent, tree page = p.radixTree page) :
    Layout {p.unlink h with
      spans := spans
      freeObjects := h :: p.freeObjects
      radixTree := tree} held {s} area := by
  have different : s ≠ h := fun same => (layout.parted h filed).2 same.symm
  have fused := (layout.unlink filed).fuse (s := s) (h := h) spans (.inr rfl) (.inl rfl) different
    agree union sized
  have rest : ({h,s} : Set Nat) \ {h} = {s} := by
    ext k
    simp only [Set.mem_sdiff,Set.mem_insert_iff,Set.mem_singleton_iff]
    constructor
    · rintro ⟨found | found,other⟩
      · exact absurd found other
      · exact found
    · rintro rfl; exact ⟨.inr rfl,different⟩
  rw [rest] at fused
  exact fused.repaint fun page clear => same page (clear s rfl)

theorem Layout.beside (layout : Layout p held {s} area) (entry : p.radixTree page = some h) (clear : page ∉ p.extent s) :
    (h ∈ held ∨ p.Filed h) ∧ h ≠ s ∧ page ∈ p.extent h := by
  obtain ⟨under,role⟩ := layout.leads (fun l single => by cases single; exact clear) entry
  refine ⟨role.imp_right And.left,?_,under⟩
  rintro rfl
  exact clear under

-- The entry just before a loose span leads to the span that ends there.
theorem Layout.behind (layout : Layout p held {s} area) (entry : p.get (pageBefore (p.spans s).id) = some h) :
    (h ∈ held ∨ p.Filed h) ∧ h ≠ s ∧ (p.spans h).id + (p.spans h).nPages = (p.spans s).id := by
  have owns : s ∈ p.owned held {s} := .inr (.inr rfl)
  have size := layout.sized s owns
  have fits := layout.fits owns
  have positive : 0 < (p.spans s).id := by
    by_contra zero
    have zero : (p.spans s).id = 0 := by omega
    rw [zero,get_of_le (by decide)] at entry
    cases entry
  have before : pageBefore (p.spans s).id = (p.spans s).id - 1 := if_neg (by omega)
  rw [before,get_of_lt (by omega)] at entry
  obtain ⟨role,other,under⟩ := layout.beside entry (by rw [in_extent]; omega)
  refine ⟨role,other,?_⟩
  rw [in_extent] at under
  by_contra gap
  exact other (layout.alone (p.spans s).id (role.imp_right .inl) owns (by rw [in_extent]; omega)
    (by rw [in_extent]; omega))

theorem Layout.ahead (layout : Layout p held {s} area)
    (entry : p.get ((p.spans s).id + (p.spans s).nPages) = some h) :
    (h ∈ held ∨ p.Filed h) ∧ h ≠ s ∧ (p.spans h).id = (p.spans s).id + (p.spans s).nPages := by
  have owns : s ∈ p.owned held {s} := .inr (.inr rfl)
  have size := layout.sized s owns
  have inside : (p.spans s).id + (p.spans s).nPages < pageLimit := by
    by_contra beyond
    rw [get_of_le (by omega)] at entry; cases entry
  rw [get_of_lt inside] at entry
  obtain ⟨role,other,under⟩ := layout.beside entry (by rw [in_extent]; omega)
  refine ⟨role,other,?_⟩
  rw [in_extent] at under
  by_contra gap
  exact other (layout.alone ((p.spans s).id + (p.spans s).nPages - 1) (role.imp_right .inl) owns
    (by rw [in_extent]; omega) (by rw [in_extent]; omega))

end LinuxOS.Pages
