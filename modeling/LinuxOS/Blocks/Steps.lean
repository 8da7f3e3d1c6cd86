import LinuxOS.Blocks.Frame

namespace LinuxOS.Blocks
open Function (update)
open Links Pages Places
variable {d : Design} {Good : PageCache → Set Nat → Prop} {Ready : PageCache → Set Nat → Nat → Prop}
variable {Quiet : Span → Prop} {Admits : Nat → Prop}
variable {s next : Heap} {v : View} {a h k t u i j size index num ptr : Nat} {list : FreeList}

namespace Heap

@[simp] theorem setList_same : (s.setList t i list).lists t i = list := by simp [setList]

theorem setList_other (other : Place.cached u j ≠ .cached t i) : (s.setList t i list).lists u j = s.lists u j := by
  by_cases thread : u = t
  · subst u
    have bucket : j ≠ i := by rintro rfl; exact other rfl
    simp [setList,bucket]
  · simp [setList,thread]

@[simp] theorem setPc_same {pc : Pc} : (s.setPc t pc).pcs t = pc := by simp [setPc]

theorem setPc_other {pc : Pc} (other : u ≠ t) : (s.setPc t pc).pcs u = s.pcs u := by simp [setPc,other]

@[simp] theorem setPc_spanAt {pc : Pc} : (s.setPc t pc).spanAt h = s.spanAt h := rfl

@[simp] theorem edit_same (change : Span → Span) : (s.edit h change).spanAt h = change (s.spanAt h) :=
  PageCache.write_same change

theorem edit_other (change : Span → Span) (other : k ≠ h) : (s.edit h change).spanAt k = s.spanAt k :=
  PageCache.write_other change other

theorem edit_alike (change : Span → Span) (alike : ∀ span, Alike span (change span)) (k : Nat) :
    Alike (s.spanAt k) ((s.edit h change).spanAt k) := by
  by_cases mine : k = h
  · subst k
    rw [edit_same]; exact alike _
  · rw [edit_other _ mine]; exact alike_refl

theorem SameHead.frame (live : y = .live → next.live = s.live) (lists : next.lists = s.lists) (pcs : next.pcs = s.pcs)
    (cache : next.cache = s.cache) : SameHead s next y := by
  cases y with
  | live => exact live rfl
  | cached u j => rw [SameHead,lists]
  | moving u => rw [SameHead,pcs]
  | own k => exact fun _ => by rw [spanAt,cache,spanAt]

theorem SameHead.setPc {pc : Pc} (same : SameHead s next y) (other : y ≠ .moving t) :
    SameHead s (next.setPc t pc) y := by
  cases y with
  | moving u => exact (setPc_other fun mine => other (congrArg Place.moving mine)).trans same
  | _ => exact same

theorem SameHead.setList (same : SameHead s next y) (other : y ≠ .cached t i) :
    SameHead s (next.setList t i list) y := by
  cases y with
  | cached u j => exact (setList_other other).trans same
  | _ => exact same

theorem SameHead.edit (same : SameHead s next y) (change : Span → Span) (other : y ≠ .own h) :
    SameHead s (next.edit h change) y := by
  cases y with
  | own k =>
    intro handed
    have apart : k ≠ h := fun mine => other (congrArg Place.own mine)
    rw [edit_other _ apart]; exact same handed
  | _ => exact same

theorem listed_other (stage : v.stage h = .listed i) (held : ∃ u, v.stage k = .ready u ∨ v.stage k = .parting u) :
    h ≠ k := by
  rintro rfl
  obtain ⟨u,other | other⟩ := held
  · rw [stage] at other; cases other
  · rw [stage] at other; cases other

@[simp] theorem setPc_lists {pc : Pc} : (s.setPc t pc).lists = s.lists := rfl

theorem Sound.idle (sound : Sound d Good Quiet s v) (idle : s.pcs t = .idle) : v.kept (.moving t) = [] := by
  have linked := sound.linked (.moving t)
  rw [Linked,idle] at linked
  exact linked

theorem Sound.flags (sound : Sound d Good Quiet s v) (started : Nat → Bool) (locks : Nat → Option Nat) :
    Sound d Good Quiet {s with started, locks} v :=
  ⟨sound.good,sound.distinct,sound.positive,sound.sorted,sound.listed,sound.single,sound.apart,sound.every,
    sound.source,sound.count,sound.full,fun
      | .live => sound.linked .live
      | .cached t i => sound.linked (.cached t i)
      | .moving t => sound.linked (.moving t)
      | .own h => sound.linked (.own h),sound.owner,sound.knows⟩

theorem Sound.pop (sound : Sound d Good Quiet s v) (first : (s.lists t i).freeList = some a) :
    ∃ w, Sound d Good Quiet {s.setList t i {s.lists t i with
      freeList := s.mem a
      size := (s.lists t i).size - 1} with live := a :: s.live} w := by
  obtain ⟨chain,size,room⟩ := sound.linked (.cached t i)
  rw [first] at chain
  obtain ⟨rest,kept⟩ := chain.nonempty
  rw [kept] at chain size
  have live : v.kept .live = s.live := sound.linked .live
  refine ⟨_,sound.relocate t (.cached t i) .live rest (a :: s.live) {
    different := Place.noConfusion
    perm := by rw [kept,live]; exact List.perm_middle
    keeps := fun b found => by rw [kept]; exact .tail _ found
    good := sound.good
    pcs := fun u _ => rfl
    bucket := fun b _ i => id
    worksOn := rfl
    memory := fun b _ _ => rfl
    heads := ?_
    left := ?_
    right := by simp only [linked_live,carry_to]
    fits := fun _ _ _ _ _ _ _ _ => trivial
    count := fun h _ _ => count_elsewhere rfl Place.noConfusion Place.noConfusion
    stay := fun h _ _ => ⟨Place.noConfusion,Place.noConfusion⟩
    knows := sound.knows t}⟩
  · intro y left right
    have before : SameHead s {s with live := a :: s.live} y := .frame (fun live => absurd live right) rfl rfl rfl
    exact before.setList left
  · simp only [Linked,carry_from (show Place.cached t i ≠ .live from Place.noConfusion),setList_same]
    rw [List.length_cons] at size
    exact ⟨chain.2,by omega,room⟩

theorem Sound.relabel (sound : Sound d Good Quiet s v) {pc : Pc} (holds : pc.Holds s.mem (v.kept (.moving t)))
    (bucket : ∀ a ∈ v.kept (.moving t), ∀ i, pc.bucket d = some i → (s.pcs t).bucket d = some i)
    (worksOn : pc.worksOn = (s.pcs t).worksOn) (knows : Knows d Quiet (s.setPc t pc) v t) : Sound d Good Quiet (s.setPc t pc) v := by
  refine ⟨sound.good,sound.distinct,sound.positive,sound.sorted,sound.listed,sound.single,sound.apart,sound.every,
    ?_,sound.count,sound.full,?_,?_,?_⟩
  · intro c a found
    obtain ⟨h,handed,out,block,fits⟩ := sound.source c a found
    refine ⟨h,handed,out,block,fits.later rfl ?_⟩
    rintro u rfl i at'
    by_cases mine : u = t
    · subst u
      rw [setPc_same] at at'
      exact bucket a found i at'
    · rwa [setPc_other mine] at at'
  · intro c
    by_cases mine : c = .moving t
    · subst c
      rw [Linked,setPc_same]; exact holds
    · refine (sound.linked c).frame ?_ rfl (fun _ _ => rfl) fun h handed _ out => ⟨handed,out⟩
      cases c with
      | moving u => exact setPc_other fun same => mine (same ▸ rfl)
      | own => exact fun _ => rfl
      | _ => rfl
  · intro h handed u held
    have before := sound.owner h handed u held
    by_cases mine : u = t
    · subst u
      rw [setPc_same,worksOn]; exact before
    · rwa [setPc_other mine]
  · intro u
    by_cases mine : u = t
    · subst u; exact knows
    · exact (sound.knows u).frame (setPc_other mine) (fun h handed _ => ⟨handed,rfl,rfl⟩)
        fun ptr h _ handed out block => ⟨handed,out,block⟩

theorem Sound.room (sound : Sound d Good Quiet s v) (room : 1 ≤ list.maxSize)
    (first : list.freeList = (s.lists t i).freeList) (size : list.size = (s.lists t i).size) :
    Sound d Good Quiet (s.setList t i list) v := by
  refine ⟨sound.good,sound.distinct,sound.positive,sound.sorted,sound.listed,sound.single,sound.apart,sound.every,
    sound.source,sound.count,sound.full,fun c => ?_,sound.owner,sound.knows⟩
  cases c with
  | cached u j =>
    by_cases here : Place.cached u j = .cached t i
    · cases here
      rw [Linked,setList_same,first,size]
      exact ⟨(sound.linked (.cached t i)).1,(sound.linked (.cached t i)).2.1,room⟩
    · rw [Linked,setList_other here]; exact sound.linked (.cached u j)
  | live => exact sound.linked .live
  | moving u => exact sound.linked (.moving u)
  | own h => exact sound.linked (.own h)

theorem Sound.allocate (laws : Laws d Good Ready Quiet Admits) (sound : Sound d Good Quiet s v)
    (idle : s.pcs t = .idle) (small : d.large size = false) (admitted : Admits size)
    (stepped : s.allocate d t size = some next) : ∃ w, Sound d Good Quiet next w := by
  obtain ⟨i,bucket,stepped⟩ := Option.bind_eq_some_iff.mp stepped
  have sort := laws.small admitted small bucket
  simp only at stepped
  split at stepped
  case h_1 a first =>
    cases stepped
    exact sound.pop first
  case h_2 empty =>
    obtain ⟨batch,_,stepped⟩ := Option.bind_eq_some_iff.mp stepped
    cases stepped
    have room := (sound.linked (.cached t i)).2.2
    have wider : Sound d Good Quiet (s.setList t i {s.lists t i with
        maxSize := if min batch (s.lists t i).maxSize = (s.lists t i).maxSize then (s.lists t i).maxSize + 1
          else (s.lists t i).maxSize}) v := sound.room (by simp only; split <;> omega) rfl rfl
    have nothing := sound.idle idle
    refine ⟨v,wider.relabel nothing (fun a found => by rw [nothing] at found; cases found)
      (congrArg Pc.worksOn idle).symm ?_⟩
    rw [Knows,setPc_same]
    exact ⟨i,sort⟩

-- Free: AddrToSpan finds the span that the block was carved from.
theorem Sound.free (laws : Laws d Good Ready Quiet Admits) (sound : Sound d Good Quiet s v) (idle : s.pcs t = .idle)
    (user : ptr ∈ s.live) (found : s.cache.get (ptr / pageBytes) = some h) :
    ∃ w, Sound d Good Quiet (({s with live := s.live.erase ptr} : Heap).setPc t (.freeing ptr h)) w := by
  have live : v.kept .live = s.live := sound.linked .live
  have nothing := sound.idle idle
  have member : ptr ∈ v.kept .live := by rw [live]; exact user
  obtain ⟨k,handed,mapped,out,block,_⟩ := sound.mapped laws member
  cases mapped.symm.trans found
  refine ⟨_,sound.relocate t .live (.moving t) (s.live.erase ptr) [ptr] {
    different := Place.noConfusion
    perm := by
      rw [live,nothing,List.append_nil]
      exact List.perm_append_comm.trans (List.perm_cons_erase user).symm
    keeps := fun b found => by rw [live]; exact List.mem_of_mem_erase found
    good := sound.good
    pcs := fun u other => setPc_other other
    bucket := fun b found => by rw [nothing] at found; cases found
    worksOn := by rw [setPc_same,idle]; rfl
    memory := fun b _ _ => rfl
    heads := ?_
    left := by simp only [linked_live,carry_from (show Place.live ≠ .moving t from Place.noConfusion)]; rfl
    right := by rw [Linked,setPc_same]; exact carry_to
    fits := fun b _ _ k _ _ _ _ i at' => by rw [setPc_same] at at'; cases at'
    count := fun h _ _ => count_elsewhere rfl Place.noConfusion Place.noConfusion
    stay := fun h _ _ => ⟨Place.noConfusion,Place.noConfusion⟩
    knows := ?_}⟩
  · intro y left right
    exact SameHead.setPc (.frame (fun live => absurd live left) rfl rfl rfl) right
  · rw [Knows,setPc_same]
    exact ⟨handed,out,block⟩

theorem Sound.push (laws : Laws d Good Ready Quiet Admits) (sound : Sound d Good Quiet s v)
    (freeing : s.pcs t = .freeing ptr h) (sort : d.Class (s.spanAt h).objSize i) :
    ∃ w, Sound d Good Quiet ((({s with mem := update s.mem ptr (s.lists t i).freeList} : Heap).setList t i
      {s.lists t i with freeList := some ptr, size := (s.lists t i).size + 1}).setPc t .idle) w := by
  have moving := sound.linked (.moving t)
  rw [Linked,freeing] at moving
  have moving : v.kept (.moving t) = [ptr] := moving
  obtain ⟨chain,size,room⟩ := sound.linked (.cached t i)
  have known := sound.knows t
  simp only [Knows,freeing] at known
  obtain ⟨handed,out,block⟩ := known
  have absent : ptr ∉ v.kept (.cached t i) := fun found => by
    cases sound.apart.only (.cached t i) (.moving t) ptr found (by rw [moving]; exact .head _)
  refine ⟨_,sound.relocate t (.moving t) (.cached t i) [] (ptr :: v.kept (.cached t i)) {
    different := Place.noConfusion
    perm := by rw [moving]; rfl
    keeps := fun b found => by cases found
    good := sound.good
    pcs := fun u other => setPc_other other
    bucket := fun b _ j at' => by rw [setPc_same] at at'; cases at'
    worksOn := by rw [setPc_same,freeing]; rfl
    memory := fun b left _ => Function.update_of_ne (by rintro rfl; exact left (by rw [moving]; exact .head _)) ..
    heads := ?_
    left := by simp only [Linked,setPc_same,carry_from (show Place.moving t ≠ .cached t i from Place.noConfusion),Pc.Holds]
    right := ?_
    fits := ?_
    count := fun h _ _ => count_elsewhere rfl Place.noConfusion Place.noConfusion
    stay := fun h _ _ => ⟨Place.noConfusion,Place.noConfusion⟩
    knows := by rw [Knows,setPc_same]; trivial}⟩
  · intro y left right
    exact (SameHead.setList (.frame (fun _ => rfl) rfl rfl rfl) right).setPc left
  · simp only [Linked,carry_to,setPc_lists,setList_same]
    exact ⟨chain.push absent,by rw [List.length_cons,size]; rfl,room⟩
  · intro b _ left k handed' out' block' _
    rw [moving,List.mem_singleton] at left
    subst b
    obtain rfl := laws.alone sound.good handed handed' (sound.inside handed out block) (sound.inside handed' out' block')
    exact sort

theorem Sound.tooLong (sound : Sound d Good Quiet s v) (idle : s.pcs t = .idle)
    (long : ((s.lists t i).maxSize : Int) ≤ (s.lists t i).size)
    (stepped : s.listTooLong t i (s.lists t i) = some next) : ∃ w, Sound d Good Quiet next w := by
  obtain ⟨start,first,stepped⟩ := Option.bind_eq_some_iff.mp stepped
  obtain ⟨stop,reached,stepped⟩ := Option.bind_eq_some_iff.mp stepped
  obtain ⟨chain,size,room⟩ := sound.linked (.cached t i)
  rw [first] at chain
  have enough : (s.lists t i).maxSize - 1 < (v.kept (.cached t i)).length := by omega
  obtain ⟨front,rest,last,split,reached',final,length⟩ := stride_spec chain enough
  cases reached.symm.trans reached'
  cases stepped
  have nothing := sound.idle idle
  have distinct := sound.apart.nodup (.cached t i)
  rw [split] at chain distinct
  obtain ⟨taken,left⟩ := chain.cut final distinct
  refine ⟨_,sound.relocate t (.cached t i) (.moving t) rest front {
    different := Place.noConfusion
    perm := by rw [split,nothing,List.append_nil]; exact List.perm_append_comm
    keeps := fun b found => by rw [split]; exact List.mem_append_right _ found
    good := sound.good
    pcs := fun u other => setPc_other other
    bucket := fun b found => by rw [nothing] at found; cases found
    worksOn := by rw [setPc_same,idle]; rfl
    memory := fun b clear _ => Function.update_of_ne (by
      rintro rfl
      exact clear (by rw [split]; exact List.mem_append_left _ (List.mem_of_getLast? final))) ..
    heads := ?_
    left := ?_
    right := by simp only [Linked,setPc_same,carry_to,Pc.Holds]; exact taken
    fits := fun b _ _ k _ _ _ fits j at' => by
      rw [setPc_same] at at'
      cases at'; exact fits
    count := fun h _ _ => count_elsewhere rfl Place.noConfusion Place.noConfusion
    stay := fun h _ _ => ⟨Place.noConfusion,Place.noConfusion⟩
    knows := by rw [Knows,setPc_same]; trivial}⟩
  · intro y left right
    exact (SameHead.setList (.frame (fun _ => rfl) rfl rfl rfl) left).setPc right
  · simp only [Linked,carry_from (show Place.cached t i ≠ .moving t from Place.noConfusion),setPc_lists,setList_same]
    refine ⟨left,?_,room⟩
    rw [size,split,List.length_append,length]
    omega

theorem Sound.deallocate (laws : Laws d Good Ready Quiet Admits) (sound : Sound d Good Quiet s v)
    (freeing : s.pcs t = .freeing ptr h) (small : d.large (s.spanAt h).objSize = false)
    (stepped : s.deallocate d t h ptr = some next) : ∃ w, Sound d Good Quiet next w := by
  have known := sound.knows t
  simp only [Knows,freeing] at known
  obtain ⟨handed,out,block⟩ := known
  rw [Heap.deallocate,small,if_neg Bool.false_ne_true] at stepped
  obtain ⟨started,stepped⟩ := Option.ite_none_right_eq_some.mp stepped
  obtain ⟨size,again,stepped⟩ := Option.bind_eq_some_iff.mp stepped
  obtain ⟨i,bucket,stepped⟩ := Option.bind_eq_some_iff.mp stepped
  have sort : d.Class (s.spanAt h).objSize i := by
    rcases sound.sorted h handed out with ⟨_,large⟩ | ⟨_,j,sort,_⟩
    · rw [small] at large; cases large
    · cases sort.again.symm.trans again
      cases sort.bucket.symm.trans bucket
      exact sort
  obtain ⟨w,pushed⟩ := sound.push laws freeing sort
  have halted : ({s with mem := update s.mem ptr (s.lists t i).freeList} : Heap).listTooLong t i {s.lists t i with
      freeList := some ptr
      size := (s.lists t i).size + 1} = ((({s with mem := update s.mem ptr (s.lists t i).freeList} : Heap).setList t i
        {s.lists t i with
          freeList := some ptr
          size := (s.lists t i).size + 1}).setPc t .idle).listTooLong t i {s.lists t i with
            freeList := some ptr
            size := (s.lists t i).size + 1} := by
    simp only [listTooLong,setList,setPc,Function.update_idem,Function.update_self]
  simp only at stepped
  split at stepped
  case isTrue long =>
    rw [halted] at stepped
    refine pushed.tooLong (t := t) (i := i) setPc_same ?_ ?_
    · simp only [setPc_lists,setList_same]
      exact laws.tooLong long
    · simp only [setPc_lists,setList_same]
      exact stepped
  case isFalse => cases stepped; exact ⟨w,pushed⟩

end Heap
end LinuxOS.Blocks
