import LinuxOS.Blocks.Spans
import Mathlib.Data.List.Perm.Subperm

namespace LinuxOS.Blocks
open Function (update)
open Links Pages Places
variable {d : Design} {Good : PageCache → Set Nat → Prop} {Ready : PageCache → Set Nat → Nat → Prop}
variable {Quiet : Span → Prop} {Admits : Nat → Prop}
variable {s next : Heap} {v w : View} {a h k t u i j size index num page ptr start stop count cur : Nat} {c : Place}
variable {rest : List Nat}

namespace Heap

theorem Sound.takeRange (laws : Laws d Good Ready Quiet Admits) (sound : Sound d Good Quiet s v) (handed : h ∈ s.handed)
    (stage : v.stage h = .listed i) (sort : d.Class (s.spanAt h).objSize i) (asked : d.Class size i)
    (works : (s.pcs t).worksOn = none) (idle : v.kept (.moving t) = [])
    (stepped : s.takeRange t size num h = some next) :
    ∃ w, Sound d Good Quiet next w := by
  obtain ⟨start,first,stepped⟩ := Option.bind_eq_some_iff.mp stepped
  have out : (v.stage h).Circulates := by rw [stage]; trivial
  have chain := sound.linked (.own h) handed out
  rw [first] at chain
  obtain ⟨front,rest,split,final,length,_⟩ := walk_spec (n := num-1) (k := 1) chain
  obtain ⟨⟨stop,count⟩,walked⟩ : ∃ w, walk s.mem (num-1) start 1 = w := ⟨_,rfl⟩
  rw [walked] at stepped final length
  dsimp only at stepped final length
  cases stepped
  have distinct := sound.apart.nodup (.own h)
  rw [split] at chain distinct
  obtain ⟨taken,left⟩ := chain.cut final distinct
  have good : Good (s.cache.write h fun sp => {sp with useCount := sp.useCount + count, freeList := s.mem stop})
    {k | k ∈ s.handed} := laws.edit sound.good handed rfl rfl (.inl rfl)
  have member : stop ∈ front := List.mem_of_getLast? final
  have shape : ∀ k, Alike (s.spanAt k) ((((({s with mem := update s.mem stop none} : Heap).edit h fun sp =>
      {sp with useCount := sp.useCount + count, freeList := s.mem stop}).setPc t
        (.received size start stop count))).spanAt k) := by
    intro k
    rw [setPc_spanAt]
    refine edit_alike _ ?_ k
    exact fun _ => ⟨rfl,rfl,rfl⟩
  refine ⟨_,sound.relocate t (.own h) (.moving t) rest front {
    different := Place.noConfusion
    perm := by rw [split,idle,List.append_nil]; exact List.perm_append_comm
    keeps := fun a found => by rw [split]; exact List.mem_append_right _ found
    good := good
    shape := fun k _ => shape k
    still := ?still
    pcs := fun u other => setPc_other other
    bucket := fun a found => by rw [idle] at found; cases found
    worksOn := by rw [setPc_same,works]; rfl
    memory := ?memory
    heads := ?heads
    left := ?left
    right := ?right
    fits := ?fits
    count := ?count
    stay := ?stay
    knows := by rw [Knows,setPc_same]; exact ⟨i,asked⟩}⟩
  case still =>
    intro k _ listed
    have other : k ≠ h := by
      rintro rfl
      exact listed i stage
    rw [setPc_spanAt,edit_other _ other]; rfl
  case memory =>
    intro a clear _
    apply Function.update_of_ne
    rintro rfl
    exact clear (by rw [split]; exact List.mem_append_left _ member)
  case heads =>
    intro y own thread
    exact (SameHead.edit (.frame (fun _ => rfl) rfl rfl rfl) _ own).setPc thread
  case left =>
    intro _ _
    simp only [setPc_spanAt,edit_same,carry_from (show Place.own h ≠ .moving t from Place.noConfusion)]
    exact left
  case right =>
    simp only [Linked,setPc_same,carry_to]
    exact ⟨taken,final,by omega⟩
  case fits =>
    intro a _ _ k handed' _ _ own at' same
    obtain rfl : h = k := own
    rw [setPc_same] at same
    cases asked.bucket.symm.trans same
    rw [(shape h).objSize]; exact sort
  case count =>
    intro k _ _
    by_cases mine : k = h
    · subst k
      rw [setPc_spanAt,edit_same,carry_from Place.noConfusion,split,List.length_append]
      show (s.spanAt h).useCount + count + _ = (s.spanAt h).useCount + _
      have same : count = front.length := by omega
      rw [same]
      omega
    · apply count_elsewhere
      · rw [setPc_spanAt,edit_other _ mine]; rfl
      · exact fun same => mine (Place.own.inj same)
      · exact Place.noConfusion
  case stay =>
    intro k _ held
    exact ⟨fun same => listed_other stage held (Place.own.inj same),Place.noConfusion⟩

theorem Sound.fetchRange (laws : Laws d Good Ready Quiet Admits) (sound : Sound d Good Quiet s v)
    (fetching : s.pcs t = .fetching size num) (stepped : s.fetchRange d t size num = some next) :
    ∃ w, Sound d Good Quiet next w := by
  have known := sound.knows t
  simp only [Knows,fetching] at known
  obtain ⟨i,asked⟩ := known
  have idle := sound.linked (.moving t)
  rw [Linked,fetching] at idle
  have idle : v.kept (.moving t) = [] := idle
  obtain ⟨index,bucket,stepped⟩ := Option.bind_eq_some_iff.mp stepped
  cases asked.bucket.symm.trans bucket
  obtain ⟨_,stepped⟩ := Option.ite_none_right_eq_some.mp stepped
  split at stepped
  · rename_i span found
    obtain ⟨handed,stage⟩ := (sound.listed i span).mp (List.mem_of_find?_eq_some found)
    have sort : d.Class (s.spanAt span).objSize i := by
      rcases sound.sorted span handed (by rw [stage]; trivial) with ⟨large,_⟩ | ⟨_,j,sort,same⟩
      · rw [stage] at large; cases large
      · rw [same i stage]; exact sort
    exact sound.takeRange laws handed stage sort asked (congrArg Pc.worksOn fetching) idle stepped
  · cases stepped
    refine ⟨v,sound.relabel idle (fun a found => by rw [idle] at found; cases found)
      (congrArg Pc.worksOn fetching).symm ?_⟩
    rw [Knows,setPc_same]
    exact ⟨i,asked⟩

theorem Sound.list (laws : Laws d Good Ready Quiet Admits) (sound : Sound d Good Quiet s v)
    (carved : s.pcs t = .carved size num h) (sort : d.Class size i) :
    Sound d Good Quiet (({s with buckets := update s.buckets i (h :: s.buckets i)} : Heap).setPc t (.fetching size num))
      (handOver v h (.listed i) (.own h) (v.kept (.own h))) := by
  have known := sound.knows t
  simp only [Knows,carved] at known
  obtain ⟨handed,stage,objSize⟩ := known
  have idle := sound.linked (.moving t)
  rw [Linked,carved] at idle
  have idle : v.kept (.moving t) = [] := idle
  have out : (v.stage h).Circulates := by rw [stage]; trivial
  have kept : update v.kept (.own h) (v.kept (.own h)) = v.kept := Function.update_eq_self ..
  have all := sound.full h handed ⟨t,.inl stage⟩
  refine sound.handover laws t h (.listed i) (.own h) (v.kept (.own h)) {
    place := .inr (.inr rfl)
    handed := fun _ _ => Iff.rfl
    distinct := sound.distinct
    good := sound.good
    others := fun _ _ _ => rfl
    mine := fun _ u held => by
      rw [stage] at held
      exact (Option.some.inj held).symm
    works := fun k works => by
      rw [carved] at works
      exact (Option.some.inj works).symm
    owner := fun _ u held => by cases held
    positive := fun _ => sound.positive h handed
    sorted := fun _ _ => .inr ⟨Stage.noConfusion,i,objSize ▸ sort,fun j same => (Stage.listed.inj same).symm⟩
    listed := ?listed
    single := ?single
    apart := by rw [kept]; exact sound.apart
    arrive := ?arrive
    depart := fun _ found _ => found
    elsewhere := ?elsewhere
    every := fun a first => ⟨.own h,by rw [kept]; exact all a first.2.2⟩
    count := fun _ _ => by rw [kept]; exact sound.count h handed out
    full := ?full
    pcs := fun u other => setPc_other other
    bucket := fun a found => by rw [idle] at found; cases found
    memory := fun _ _ _ _ => rfl
    heads := ?heads
    live := sound.linked .live
    own := ?own
    thread := ?thread
    knows := by rw [Knows,setPc_same]; exact ⟨i,sort⟩}
  case listed =>
    intro j k
    show k ∈ update s.buckets i (h :: s.buckets i) j ↔ k ∈ s.handed ∧ update v.stage h (.listed i) k = .listed j
    have before : h ∉ s.buckets j := fun found => by
      rw [((sound.listed j h).mp found).2] at stage; cases stage
    by_cases mine : k = h
    · subst k
      rw [Function.update_self]
      by_cases here : j = i
      · subst j
        rw [Function.update_self]
        exact ⟨fun _ => ⟨handed,rfl⟩,fun _ => .head _⟩
      · rw [Function.update_of_ne here]
        exact ⟨fun found => absurd found before,fun found => absurd (Stage.listed.inj found.2).symm here⟩
    · rw [Function.update_of_ne mine,← sound.listed j k]
      by_cases here : j = i
      · subst j
        rw [Function.update_self,List.mem_cons]; exact or_iff_right mine
      · rw [Function.update_of_ne here]
  case single =>
    intro j
    show (update s.buckets i (h :: s.buckets i) j).Nodup
    by_cases here : j = i
    · subst j
      rw [Function.update_self,List.nodup_cons]
      refine ⟨fun found => ?_,sound.single i⟩
      rw [((sound.listed i h).mp found).2] at stage; cases stage
    · rw [Function.update_of_ne here]; exact sound.single j
  case arrive =>
    intro a found
    exact .inr ⟨⟨handed,by rw [handOver_stage]; trivial,(sound.own_of found).2.2⟩,rfl⟩
  case elsewhere =>
    intro x elsewhere a found first
    exact absurd (sound.apart.only x (.own h) a found (all a first.2.2)) elsewhere
  case full => rintro _ ⟨u,same | same⟩ <;> cases same
  case heads =>
    intro y _ _ thread
    exact SameHead.setPc (.frame (fun _ => rfl) rfl rfl rfl) thread
  case own =>
    intro _ _
    rw [handOver_kept]
    exact sound.linked (.own h) handed out
  case thread =>
    rw [Linked,setPc_same,handOver_kept_other Place.noConfusion]
    exact idle

theorem takeRange_setPc {pc : Pc} : (s.setPc t pc).takeRange t size num h = s.takeRange t size num h := by
  simp only [Heap.takeRange,setPc,edit,spanAt,Function.update_idem]

theorem Sound.listSpan (laws : Laws d Good Ready Quiet Admits) (sound : Sound d Good Quiet s v)
    (carved : s.pcs t = .carved size num h) (stepped : s.listSpan d t size num h = some next) :
    ∃ w, Sound d Good Quiet next w := by
  have known := sound.knows t
  simp only [Knows,carved] at known
  obtain ⟨handed,stage,objSize⟩ := known
  have idle := sound.linked (.moving t)
  rw [Linked,carved] at idle
  obtain ⟨i,bucket,stepped⟩ := Option.bind_eq_some_iff.mp stepped
  obtain ⟨_,stepped⟩ := Option.ite_none_right_eq_some.mp stepped
  have sort : d.Class size i := by
    rcases sound.sorted h handed (by rw [stage]; trivial) with ⟨large,_⟩ | ⟨_,j,sort,_⟩
    · rw [stage] at large; cases large
    · rw [objSize] at sort
      cases sort.bucket.symm.trans bucket
      exact sort
  rw [← takeRange_setPc (t := t)] at stepped
  refine (sound.list laws carved sort).takeRange laws handed handOver_stage ?_ sort (congrArg Pc.worksOn setPc_same) ?_
    stepped
  · exact (congrArg (d.Class · i) objSize).mpr sort
  · exact (handOver_kept_other Place.noConfusion).trans idle

theorem Sound.give (sound : Sound d Good Quiet s v) (received : s.pcs t = .received size start stop count)
    (bucket : d.bucket size = some i) : ∃ w tail, w.kept (.moving t) = tail ∧ count = tail.length + 1 ∧
      (tail ≠ [] → tail.getLast? = some stop) ∧
      Sound d Good Quiet (({s with live := start :: s.live} : Heap).setPc t (.returning i (s.mem start))) w := by
  have moving := sound.linked (.moving t)
  rw [Linked,received] at moving
  obtain ⟨chain,final,length⟩ := moving
  obtain ⟨tail,kept⟩ := chain.nonempty
  rw [kept] at chain final length
  have live : v.kept .live = s.live := sound.linked .live
  have different : Place.moving t ≠ .live := Place.noConfusion
  have left : carry v.kept (.moving t) .live tail (start :: s.live) (.moving t) = tail := carry_from different
  refine ⟨_,tail,left,length.symm,?_,sound.relocate t (.moving t) .live tail (start :: s.live) {
    different := different
    perm := by rw [kept,live]; exact List.perm_middle
    keeps := fun b found => by rw [kept]; exact .tail _ found
    good := sound.good
    pcs := fun u other => setPc_other other
    bucket := ?_
    worksOn := by rw [setPc_same,received]; rfl
    memory := fun _ _ _ => rfl
    heads := ?_
    left := ?_
    right := by simp only [linked_live,carry_to]; rfl
    fits := fun _ _ _ _ _ _ _ _ => trivial
    count := fun h _ _ => count_elsewhere rfl Place.noConfusion Place.noConfusion
    stay := fun h _ _ => ⟨Place.noConfusion,Place.noConfusion⟩
    knows := by rw [Knows,setPc_same]; trivial}⟩
  · intro more
    obtain ⟨b,rest,rfl⟩ := List.exists_cons_of_ne_nil more
    rwa [List.getLast?_cons_cons] at final
  · intro _ _ j at'
    rw [setPc_same] at at'
    cases at'
    rw [received]; exact bucket
  · intro y thread live
    exact SameHead.setPc (.frame (fun same => absurd same live) rfl rfl rfl) thread
  · simp only [Linked,setPc_same,carry_from different]
    exact chain.2

theorem Sound.stash (sound : Sound d Good Quiet s v) {head : Option Nat} (returning : s.pcs t = .returning i head)
    (final : (v.kept (.moving t)).getLast? = some stop) :
    ∃ w, Sound d Good Quiet ((({s with mem := update s.mem stop (s.lists t i).freeList} : Heap).setList t i
      {s.lists t i with
        freeList := head
        size := (s.lists t i).size + (v.kept (.moving t)).length}).setPc t .idle) w := by
  have moving := sound.linked (.moving t)
  rw [Linked,returning] at moving
  obtain ⟨chain,size,room⟩ := sound.linked (.cached t i)
  have different : Place.moving t ≠ .cached t i := Place.noConfusion
  have joined := Chain.join (show Chain s.mem head (v.kept (.moving t)) from moving) chain final
    (sound.apart.both different)
  refine ⟨_,sound.relocate t (.moving t) (.cached t i) [] (v.kept (.moving t) ++ v.kept (.cached t i)) {
    different := different
    perm := .refl _
    keeps := fun b found => by cases found
    good := sound.good
    pcs := fun u other => setPc_other other
    bucket := fun b _ j at' => by rw [setPc_same] at at'; cases at'
    worksOn := by rw [setPc_same,returning]; rfl
    memory := ?_
    heads := ?_
    left := by simp only [Linked,setPc_same,carry_from different,Pc.Holds]
    right := ?_
    fits := ?_
    count := fun h _ _ => count_elsewhere rfl Place.noConfusion Place.noConfusion
    stay := fun h _ _ => ⟨Place.noConfusion,Place.noConfusion⟩
    knows := by rw [Knows,setPc_same]; trivial}⟩
  · intro b clear _
    apply Function.update_of_ne
    rintro rfl
    exact clear (List.mem_of_getLast? final)
  · intro y left right
    exact (SameHead.setList (.frame (fun _ => rfl) rfl rfl rfl) right).setPc left
  · simp only [Linked,carry_to,setPc_lists,setList_same]
    refine ⟨joined,?_,room⟩
    rw [List.length_append,size]
    omega
  · intro b _ _ k _ _ _ fits
    exact fits i (by rw [returning]; rfl)

theorem Sound.receive (sound : Sound d Good Quiet s v) (received : s.pcs t = .received size start stop count)
    (stepped : s.receive d t size start stop count = some next) : ∃ w, Sound d Good Quiet next w := by
  obtain ⟨i,bucket,stepped⟩ := Option.bind_eq_some_iff.mp stepped
  obtain ⟨w,tail,kept,length,last,given⟩ := sound.give received bucket
  by_cases more : tail = []
  · subst more
    rw [List.length_nil] at length
    dsimp only at stepped
    rw [if_neg (show ¬1 < count by omega)] at stepped
    cases stepped
    have holds : Pc.idle.Holds s.mem (w.kept (.moving t)) := kept
    have moved := given.relabel (t := t) holds (fun a found => by rw [kept] at found; cases found)
      (by rw [setPc_same]; rfl) (by rw [Knows,setPc_same]; trivial)
    refine ⟨w,?_⟩
    simpa only [setPc,Function.update_idem] using moved
  · have some_more := List.length_pos_of_ne_nil more
    dsimp only at stepped
    rw [if_pos (show 1 < count by omega)] at stepped
    cases stepped
    obtain ⟨w',stashed⟩ := given.stash setPc_same (by rw [kept]; exact last more)
    refine ⟨w',?_⟩
    rw [kept] at stashed
    have size : (count : Int) - 1 = tail.length := by omega
    simpa only [setPc,setList,Function.update_idem,size] using stashed

theorem Sound.returned (laws : Laws d Good Ready Quiet Admits) (sound : Sound d Good Quiet s v)
    (putting : s.pcs t = .putting i (some cur)) (found : s.cache.get (cur / pageBytes) = some h) :
    h ∈ s.handed ∧ v.stage h = .listed i ∧ d.Class (s.spanAt h).objSize i ∧ cur ∈ d.blocks (s.spanAt h) := by
  have moving := sound.linked (.moving t)
  rw [Linked,putting] at moving
  obtain ⟨rest,kept⟩ := Chain.nonempty (show Chain s.mem (some cur) (v.kept (.moving t)) from moving)
  have member : cur ∈ v.kept (.moving t) := by rw [kept]; exact .head _
  obtain ⟨k,handed,mapped,out,block,fits⟩ := sound.mapped laws member
  cases mapped.symm.trans found
  have sort : d.Class (s.spanAt h).objSize i := fits i (by rw [putting]; rfl)
  have away : cur ∉ v.kept (.own h) := fun own => by
    cases sound.apart.only (.moving t) (.own h) cur member own
  refine ⟨handed,?_,sort,block⟩
  cases stage : v.stage h with
  | making u => exact absurd out (making_hidden stage)
  | ready u => exact absurd (sound.full h handed ⟨u,.inl stage⟩ cur block) away
  | parting u => exact absurd (sound.full h handed ⟨u,.inr stage⟩ cur block) away
  | large =>
    rcases sound.sorted h handed out with ⟨_,large⟩ | ⟨small,_⟩
    · rw [sort.small] at large; cases large
    · exact absurd stage small
  | listed j =>
    rcases sound.sorted h handed out with ⟨large,_⟩ | ⟨_,index,sort',same⟩
    · rw [stage] at large; cases large
    · cases same j stage
      cases sort.bucket.symm.trans sort'.bucket
      rfl

-- One turn of the loop, without what follows when the count becomes zero.
theorem Sound.giveBack (laws : Laws d Good Ready Quiet Admits) (sound : Sound d Good Quiet s v)
    (putting : s.pcs t = .putting i (some cur)) (found : s.cache.get (cur / pageBytes) = some h) :
    ∃ w, w.stage = v.stage ∧ Sound d Good Quiet ((({s with mem := update s.mem cur (s.spanAt h).freeList} : Heap).edit h
      fun sp => {sp with freeList := some cur, useCount := sp.useCount - 1}).setPc t (.putting i (s.mem cur))) w := by
  obtain ⟨handed,stage,sort,block⟩ := sound.returned laws putting found
  have moving := sound.linked (.moving t)
  rw [Linked,putting] at moving
  have chain : Chain s.mem (some cur) (v.kept (.moving t)) := moving
  obtain ⟨rest,kept⟩ := chain.nonempty
  rw [kept] at chain
  have out : (v.stage h).Circulates := by rw [stage]; trivial
  have own := sound.linked (.own h) handed out
  have member : cur ∈ v.kept (.moving t) := by rw [kept]; exact .head _
  have absent : cur ∉ v.kept (.own h) := fun there => by
    cases sound.apart.only (.moving t) (.own h) cur member there
  have distinct := sound.apart.nodup (.moving t)
  rw [kept,List.nodup_cons] at distinct
  have different : Place.moving t ≠ .own h := Place.noConfusion
  have good : Good (s.cache.write h fun sp => {sp with freeList := some cur, useCount := sp.useCount - 1})
    {k | k ∈ s.handed} := laws.edit sound.good handed rfl rfl (.inl rfl)
  have shape : ∀ k, Alike (s.spanAt k) (((({s with mem := update s.mem cur (s.spanAt h).freeList} : Heap).edit h
      fun sp => {sp with freeList := some cur, useCount := sp.useCount - 1}).setPc t (.putting i (s.mem cur))).spanAt k) := by
    intro k
    rw [setPc_spanAt]
    refine edit_alike _ ?_ k
    exact fun _ => ⟨rfl,rfl,rfl⟩
  refine ⟨_,?stage,sound.relocate t (.moving t) (.own h) rest (cur :: v.kept (.own h)) {
    different := different
    perm := by rw [kept]; exact List.perm_middle
    keeps := fun a found => by rw [kept]; exact .tail _ found
    good := good
    shape := fun k _ => shape k
    still := ?still
    pcs := fun u other => setPc_other other
    bucket := ?bucket
    worksOn := by rw [setPc_same,putting]; rfl
    memory := ?memory
    heads := ?heads
    left := ?left
    right := ?right
    fits := ?fits
    count := ?count
    stay := ?stay
    knows := by rw [Knows,setPc_same]; trivial}⟩
  case stage => rfl
  case still =>
    intro k _ listed
    have other : k ≠ h := by
      rintro rfl
      exact listed i stage
    rw [setPc_spanAt,edit_other _ other]; rfl
  case bucket =>
    intro _ _ j at'
    rw [setPc_same] at at'
    rw [putting]; exact at'
  case memory =>
    intro a clear _
    apply Function.update_of_ne
    rintro rfl
    exact clear member
  case heads =>
    intro y thread own
    exact (SameHead.edit (.frame (fun _ => rfl) rfl rfl rfl) _ own).setPc thread
  case left =>
    simp only [Linked,setPc_same,carry_from different]
    exact chain.2.agree fun a found => Function.update_of_ne (ne_of_mem_of_not_mem found distinct.1) ..
  case right =>
    intro _ _
    simp only [setPc_spanAt,edit_same,carry_to]
    exact own.push absent
  case fits =>
    intro a arrived from' k handed' out' block' _
    have same : a = cur := by
      rcases List.mem_cons.mp arrived with same | there
      · exact same
      · exact absurd (sound.apart.only (.moving t) (.own h) a from' there) different
    subst a
    exact sound.one_span laws ⟨handed,out,block⟩ ⟨handed',out',block'⟩
  case count =>
    intro k _ _
    by_cases mine : k = h
    · subst k
      rw [setPc_spanAt,edit_same]
      simp only [carry_to,List.length_cons]
      show (s.spanAt h).useCount - 1 + _ = (s.spanAt h).useCount + _
      omega
    · apply count_elsewhere
      · rw [setPc_spanAt,edit_other _ mine]; rfl
      · exact Place.noConfusion
      · exact fun same => mine (Place.own.inj same)
  case stay =>
    intro k _ held
    exact ⟨Place.noConfusion,fun same => listed_other stage held (Place.own.inj same)⟩

theorem Sound.all_back (sound : Sound d Good Quiet s v) (handed : h ∈ s.handed) (out : (v.stage h).Circulates)
    (unused : (s.spanAt h).useCount = 0) : ∀ a ∈ d.blocks (s.spanAt h), a ∈ v.kept (.own h) := by
  have sub : v.kept (.own h) ⊆ d.blocks (s.spanAt h) := fun a found => (sound.own_of found).2.2
  have count := sound.count h handed out
  rw [unused,Int.zero_add] at count
  have perm := (List.subperm_of_subset (sound.apart.nodup (.own h)) sub).perm_of_length_le
    (Nat.le_of_eq (Int.ofNat.inj count).symm)
  intro a block
  exact perm.mem_iff.mpr block

-- All blocks are back: the span leaves its bucket with them, or with `_free_list` cleared.
theorem Sound.part (laws : Laws d Good Ready Quiet Admits) (sound : Sound d Good Quiet s v) {after : Option Nat}
    (putting : s.pcs t = .putting i after) (handed : h ∈ s.handed) (stage : v.stage h = .listed i)
    (sort : d.Class (s.spanAt h).objSize i) (unused : (s.spanAt h).useCount = 0) (locks : Nat → Option Nat) :
    ∃ w, Sound d Good Quiet ((({s with buckets := fun j => (s.buckets j).erase h, locks} : Heap).edit h
      d.retire).setPc t (.releasing i h after)) w := by
  have moving := sound.linked (.moving t)
  rw [Linked,putting] at moving
  have out : (v.stage h).Circulates := by rw [stage]; trivial
  have all := sound.all_back handed out unused
  obtain ⟨alike,useCount,isUsed⟩ := laws.retired (s.spanAt h)
  have good : Good (s.cache.write h d.retire) {k | k ∈ s.handed} := laws.edit sound.good handed alike.id
    alike.nPages (.inl isUsed)
  have quiet : Quiet (d.retire (s.spanAt h)) := laws.quiet (.inl (useCount.trans unused))
  have blocks : d.blocks (d.retire (s.spanAt h)) = d.blocks (s.spanAt h) := alike.blocks
  obtain ⟨kind,cells,which⟩ : ∃ kind cells, kind = Stage.parting t ∧ cells = v.kept (.own h) ∧
      (∀ span, d.retire span = span) ∨ kind = Stage.making t ∧ cells = [] ∧ d.Clears := by
    rcases laws.retire with id | clears
    · exact ⟨_,_,.inl ⟨rfl,rfl,id⟩⟩
    · exact ⟨_,_,.inr ⟨rfl,rfl,clears⟩⟩
  have place : ∀ j, kind ≠ .listed j := by
    intro j same
    rcases which with ⟨rfl,_⟩ | ⟨rfl,_⟩ <;> cases same
  refine ⟨_,sound.handover laws t h kind (.own h) cells {
    place := .inr (.inr rfl)
    handed := fun _ _ => Iff.rfl
    distinct := sound.distinct
    good := good
    others := fun k _ other => by rw [setPc_spanAt,edit_other _ other]; rfl
    mine := fun _ u held => by rw [stage] at held; cases held
    works := fun k works => by rw [putting] at works; cases works
    owner := ?owner
    positive := fun _ => by
      rw [setPc_spanAt,edit_same]
      exact alike.nPages ▸ sound.positive h handed
    sorted := ?sorted
    listed := ?listed
    single := fun j => (sound.single j).erase h
    apart := ?apart
    arrive := ?arrive
    depart := fun a found other => absurd (sound.own_of found) other
    elsewhere := ?elsewhere
    every := ?every
    count := ?count
    full := ?full
    pcs := fun u other => setPc_other other
    bucket := ?bucket
    memory := fun _ _ _ _ => rfl
    heads := ?heads
    live := sound.linked .live
    own := ?own
    thread := ?thread
    knows := ?knows}⟩
  case owner =>
    intro _ u held
    refine ⟨?_,congrArg Pc.worksOn setPc_same⟩
    rcases which with ⟨rfl,_⟩ | ⟨rfl,_⟩
    · exact (Option.some.inj held).symm
    · exact (Option.some.inj held).symm
  case sorted =>
    intro _ _
    refine .inr ⟨?_,i,?_,fun j same => absurd same (place j)⟩
    · rcases which with ⟨rfl,_⟩ | ⟨rfl,_⟩
      · exact Stage.noConfusion
      · exact Stage.noConfusion
    · rw [setPc_spanAt,edit_same]
      exact alike.objSize ▸ sort
  case listed =>
    intro j k
    show k ∈ (s.buckets j).erase h ↔ k ∈ s.handed ∧ update v.stage h kind k = .listed j
    rw [(sound.single j).mem_erase_iff,sound.listed j k]
    by_cases mine : k = h
    · subst k
      rw [Function.update_self]
      exact ⟨fun found => absurd rfl found.1,fun found => absurd found.2 (place j)⟩
    · rw [Function.update_of_ne mine]
      exact and_iff_right mine
  case apart =>
    rcases which with ⟨_,rfl,_⟩ | ⟨_,rfl,_⟩
    · rw [Function.update_eq_self]; exact sound.apart
    · exact sound.apart.trim .nil (fun a found => by cases found)
  case arrive =>
    intro a found
    rcases which with ⟨rfl,rfl,_⟩ | ⟨_,rfl,_⟩
    · refine .inr ⟨⟨handed,by rw [handOver_stage]; trivial,?_⟩,rfl⟩
      rw [setPc_spanAt,edit_same]
      exact blocks ▸ (sound.own_of found).2.2
    · cases found
  case elsewhere =>
    intro x elsewhere a found first
    exact absurd (sound.apart.only x (.own h) a found (all a first.2.2)) elsewhere
  case every =>
    rintro a ⟨_,out',block⟩
    rcases which with ⟨rfl,rfl,_⟩ | ⟨rfl,_⟩
    · rw [setPc_spanAt,edit_same] at block
      refine ⟨.own h,?_⟩
      rw [Function.update_self]
      exact all a (blocks ▸ block)
    · rw [handOver_stage] at out'
      exact out'.elim
  case count =>
    intro _ out'
    rcases which with ⟨rfl,rfl,_⟩ | ⟨rfl,_⟩
    · rw [setPc_spanAt,edit_same,Function.update_self]
      show (d.retire (s.spanAt h)).useCount + _ = (d.blocks (d.retire (s.spanAt h))).length
      rw [blocks,useCount]
      exact sound.count h handed out
    · exact out'.elim
  case full =>
    rintro _ ⟨u,same⟩ a block
    rcases which with ⟨rfl,rfl,_⟩ | ⟨rfl,_⟩
    · rw [setPc_spanAt,edit_same] at block
      rw [Function.update_self]
      exact all a (blocks ▸ block)
    · rcases same with same | same <;> cases same
  case bucket =>
    intro _ _ j at'
    rw [setPc_same] at at'
    rw [putting]; exact at'
  case heads =>
    intro y _ own thread
    exact (SameHead.edit (.frame (fun _ => rfl) rfl rfl rfl) _ own).setPc thread
  case own =>
    intro _ out'
    rcases which with ⟨rfl,rfl,id⟩ | ⟨rfl,_⟩
    · rw [handOver_kept,setPc_spanAt,edit_same,id]
      exact sound.linked (.own h) handed out
    · rw [handOver_stage] at out'
      exact out'.elim
  case thread =>
    rw [Linked,setPc_same,handOver_kept_other Place.noConfusion]
    exact moving
  case knows =>
    rw [Knows,setPc_same]
    refine ⟨handed,?_,?_⟩
    · rw [handOver_stage]
      rcases which with ⟨rfl,_⟩ | ⟨rfl,_,clears⟩
      · exact .inl rfl
      · exact .inr ⟨rfl,clears⟩
    · rw [setPc_spanAt,edit_same]; exact quiet

theorem Sound.putBack (laws : Laws d Good Ready Quiet Admits) (sound : Sound d Good Quiet s v)
    (putting : s.pcs t = .putting i (some cur)) (stepped : s.putBack d t i cur = some next) :
    ∃ w, Sound d Good Quiet next w := by
  obtain ⟨h,found,stepped⟩ := Option.bind_eq_some_iff.mp stepped
  obtain ⟨handed,stage,sort,_⟩ := sound.returned laws putting found
  obtain ⟨w,stages,given⟩ := sound.giveBack laws putting found
  dsimp only at stepped
  split at stepped
  · rename_i unused
    cases stepped
    have class' : d.Class (((({s with mem := update s.mem cur (s.spanAt h).freeList} : Heap).edit h fun sp =>
        {sp with freeList := some cur, useCount := sp.useCount - 1}).setPc t (.putting i (s.mem cur))).spanAt h).objSize i := by
      rw [setPc_spanAt,edit_same]; exact sort
    obtain ⟨w',parted⟩ := given.part laws setPc_same handed (by rw [stages]; exact stage) class' unused
      (update s.locks i none)
    refine ⟨w',?_⟩
    simpa only [setPc,edit,Function.update_idem] using parted
  · cases stepped
    exact ⟨w,given⟩

end Heap
end LinuxOS.Blocks
