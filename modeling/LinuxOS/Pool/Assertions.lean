import LinuxOS.Pool.Allocator

namespace LinuxOS.Pool
open Function (update)
open Machine
open Links Pages Pages.PageCache Blocks
variable {s next : Heap} {v : View} {t h size num span index ptr page : Nat} {cur : Option Nat} {action : Action}
variable {actions : List Action}

-- In the machine a failed assertion is `none`: pTLSThreadCache in deallocate, MAX_BYTES in
-- numsFromCentralCache, NPAGE_LIST and the null span in getNewSpan, _free_list in
-- takeRange, ret_span in putBack, the page number in PageCache.set.
abbrev SoundHeap (s : Heap) (v : View) : Prop := Heap.Sound allocator Serving Unused s v

def Due (s : Heap) : Action → Prop
  | .alloc t _ _ => s.pcs t = .idle
  | .free t ptr => s.pcs t = .idle ∧ ptr ∈ s.live
  | .next t page =>
    match s.pcs t with
    | .idle => False
    | .fetching size _ => ∀ index, bucket size = some index → s.locks index = none
    | .carved size _ _ => ∀ index, bucket size = some index → s.locks index = none
    | .returning index _ => s.locks index = none
    | .lacking _ _ => s.Placed page (nPageList-1)
    | _ => True

def Unprepared (s : Heap) : Action → Prop
  | .next t _ =>
    match s.pcs t with
    | .freeing _ _ => s.started t = false
    | _ => False
  | _ => False

theorem class_bounds (sort : allocator.Class size index) : 1 ≤ size ∧ size ≤ 204800 := by
  have positive := sort.positive
  have again : SizeClass.roundUp (SizeClass.roundUp size) = size := Option.some.inj sort.again
  have placed : (if 0 ≤ SizeClass.index size ∧ SizeClass.index size < nFreeList then
      some (SizeClass.index size).toNat else none) = some index := sort.bucket
  obtain ⟨⟨_,inside⟩,_⟩ := Option.ite_none_right_eq_some.mp placed
  have top : size ≤ maxBytes := by
    -- above the last regime RoundUp gives zero
    by_contra large
    rw [maxBytes] at large
    have zero : SizeClass.roundUp size = 0 := by
      rw [SizeClass.roundUp,if_neg (by omega),if_neg (by omega),if_neg (by omega),if_neg (by omega),if_neg (by omega)]
    have none' : SizeClass.roundUp 0 = 0 := by decide
    rw [zero,none'] at again
    omega
  exact ⟨positive,(SizeClass.index_lt_iff positive top).mp inside⟩

theorem class_pages (sort : allocator.Class size index) : ∃ pages, allocator.pages size = some pages ∧ 1 ≤ pages ∧
    pages < nPageList := by
  obtain ⟨positive,top⟩ := class_bounds sort
  obtain ⟨_,pages,_,asked,_,least,most,_⟩ := SizeClass.numsFronPageCache_spec positive top
  exact ⟨pages,asked,least,by rw [nPageList] at most ⊢; omega⟩

theorem allocate_succeeds (request : Requested size) (s : Heap) :
    (s.allocate allocator t size).isSome = true := by
  obtain ⟨positive,top⟩ := roundUp_request request
  obtain ⟨nums,given,_⟩ := SizeClass.numsFromCentralCache_spec positive (show _ < maxBytes by rw [maxBytes]; omega)
  have place : allocator.bucket (allocator.roundUp size) = _ := bucket_of_request request
  have batch : allocator.batch (allocator.roundUp size) = some nums := given
  simp only [Heap.allocate,place,batch,Option.bind_eq_bind,Option.bind_some]
  split <;> rfl

theorem takeRange_succeeds (filled : (s.spanAt span).freeList.isSome = true) :
    (s.takeRange t size num span).isSome = true := by
  obtain ⟨start,first⟩ := Option.isSome_iff_exists.mp filled
  simp only [Heap.takeRange,first,Option.bind_eq_bind,Option.bind_some]
  rfl

theorem fetchRange_succeeds (sort : allocator.Class size index) (free : s.locks index = none) :
    (s.fetchRange allocator t size num).isSome = true := by
  simp only [Heap.fetchRange,sort.bucket,Option.bind_eq_bind,Option.bind_some,if_pos free]
  split
  · rename_i found
    have filled := List.find?_some found
    exact takeRange_succeeds filled
  · rfl

theorem fetchSpan_succeeds (sound : SoundHeap s v) (sort : allocator.Class size index)
    (placed : s.Placed page (nPageList-1)) : (s.fetchSpan allocator t size num page).isSome = true := by
  obtain ⟨pages,asked,least,below⟩ := class_pages sort
  obtain ⟨cache,span,served,_⟩ := getNewSpan_given sound.good.kept least below fun _ => placed.2
  have region : s.Placed page (allocator.region pages) := placed
  have served' : allocator.newSpan s.cache pages [page] = some (cache,span) := served
  simp only [Heap.fetchSpan,asked,Option.bind_eq_bind,Option.bind_some,if_pos region,served']
  rfl

theorem listSpan_succeeds (sound : SoundHeap s v) (carved : s.pcs t = .carved size num span)
    (free : ∀ index, bucket size = some index → s.locks index = none) :
    (s.listSpan allocator t size num span).isSome = true := by
  have known := sound.knows t
  simp only [Heap.Knows,carved] at known
  obtain ⟨handed,stage,objSize⟩ := known
  have out : (v.stage span).Circulates := by rw [stage]; trivial
  obtain ⟨_,large⟩ | ⟨_,index,sort,_⟩ := sound.sorted span handed out
  · cases large
  rw [objSize] at sort
  have bytes : 0 < (s.spanAt span).nPages * pageBytes := Nat.mul_pos (sound.positive span handed) (by decide)
  have block : (s.spanAt span).id * pageBytes ∈ allocator.blocks (s.spanAt span) :=
    (blocks_small rfl (by rw [objSize]; exact sort.positive) (sound.positive span handed)).mpr ⟨0,by omega,by omega⟩
  have chain := sound.linked (.own span) handed out
  have kept := sound.full span handed ⟨t,.inl stage⟩ _ block
  have filled : (s.spanAt span).freeList.isSome = true := by
    cases head : (s.spanAt span).freeList with
    | some _ => rfl
    | none =>
      rw [head] at chain
      cases cells : v.kept (.own span) with
      | nil => rw [cells] at kept; cases kept
      | cons b rest => rw [cells] at chain; cases chain.1
  simp only [Heap.listSpan,sort.bucket,Option.bind_eq_bind,Option.bind_some,if_pos (free index sort.bucket)]
  exact takeRange_succeeds filled

theorem receive_succeeds (sort : allocator.Class size index) {start stop count : Nat} :
    (s.receive allocator t size start stop count).isSome = true := by
  simp only [Heap.receive,sort.bucket,Option.bind_eq_bind,Option.bind_some]
  rfl

theorem deallocate_succeeds (sound : SoundHeap s v) (freeing : s.pcs t = .freeing ptr h) :
    (s.deallocate allocator t h ptr).isSome = s.started t := by
  have known := sound.knows t
  simp only [Heap.Knows,freeing] at known
  obtain ⟨handed,out,_⟩ := known
  obtain ⟨_,large⟩ | ⟨_,index,sort,_⟩ := sound.sorted h handed out
  · cases large
  have small : ¬allocator.large (s.spanAt h).objSize = true := Bool.false_ne_true
  rw [Heap.deallocate,if_neg small]
  cases started : s.started t with
  | false => rfl
  | true =>
    simp only [if_true,sort.again,sort.bucket,Option.bind_eq_bind,Option.bind_some]
    split
    case isFalse => rfl
    case isTrue long =>
      obtain ⟨w,pushed⟩ := sound.push allocator_laws freeing sort
      obtain ⟨chain,size,_⟩ := pushed.linked (.cached t index)
      simp only [Heap.setPc_lists,Heap.setList_same] at chain size
      have enough : (s.lists t index).maxSize - 1 < (w.kept (.cached t index)).length := by
        have more : ((s.lists t index).maxSize : Int) < (s.lists t index).size + 1 := of_decide_eq_true long
        omega
      obtain ⟨_,_,stop,_,reached,_⟩ := stride_spec chain enough
      have walked : stride (update s.mem ptr (s.lists t index).freeList) ((s.lists t index).maxSize - 1) ptr =
          some stop := reached
      simp only [Heap.listTooLong,Option.bind_eq_bind,Option.bind_some,walked]
      rfl

theorem putBack_succeeds (sound : SoundHeap s v) {a : Nat} (putting : s.pcs t = .putting index (some a)) :
    (s.putBack allocator t index a).isSome = true := by
  have moving := sound.linked (.moving t)
  rw [Heap.Linked,putting] at moving
  obtain ⟨rest,cells⟩ := Chain.nonempty moving
  have found : a ∈ v.kept (.moving t) := by rw [cells]; exact List.mem_cons_self
  obtain ⟨span,_,mapped,_⟩ := sound.mapped allocator_laws found
  simp only [Heap.putBack,mapped,Option.bind_eq_bind,Option.bind_some]
  split <;> rfl

theorem releaseSpan_succeeds (sound : SoundHeap s v) (handed : span ∈ s.handed) (unused : Unused (s.spanAt span))
    {after : Pc} : (s.releaseSpan allocator t span after).isSome = true := by
  obtain ⟨cache,released,_⟩ := release_kept sound.good.kept handed (sound.good.small span handed) unused
  have released' : allocator.release s.cache span = some cache := released
  simp only [Heap.releaseSpan,released',Option.bind_eq_bind,Option.bind_some]
  rfl

theorem advance_succeeds (sound : SoundHeap s v) (due : Due s (.next t page)) :
    (s.advance allocator t page (s.pcs t)).isSome = true ↔ ¬Unprepared s (.next t page) := by
  have known := sound.knows t
  simp only [Heap.Knows] at known
  simp only [Due] at due
  simp only [Unprepared]
  cases at' : s.pcs t with
  | idle => rw [at'] at due; exact due.elim
  | fetching size num =>
    rw [at'] at due
    simp only [at'] at known
    obtain ⟨index,sort⟩ := known
    exact iff_of_true (fetchRange_succeeds sort (due index sort.bucket)) id
  | lacking size num =>
    rw [at'] at due
    simp only [at'] at known
    obtain ⟨index,sort⟩ := known
    exact iff_of_true (fetchSpan_succeeds sound sort due) id
  | fresh size num span => exact iff_of_true rfl id
  | settled size num span => exact iff_of_true rfl id
  | carved size num span =>
    rw [at'] at due
    exact iff_of_true (listSpan_succeeds sound at' due) id
  | received size start stop count =>
    simp only [at'] at known
    obtain ⟨index,sort⟩ := known
    exact iff_of_true (receive_succeeds sort) id
  | freeing ptr span =>
    change (s.deallocate allocator t span ptr).isSome = true ↔ ¬s.started t = false
    rw [deallocate_succeeds sound at',Bool.not_eq_false]
  | returning index cur =>
    rw [at'] at due
    refine iff_of_true ?_ id
    simp only [Heap.advance,if_pos due]
    rfl
  | putting index cur =>
    cases cur with
    | none => exact iff_of_true rfl id
    | some a => exact iff_of_true (putBack_succeeds sound at') id
  | releasing index span after =>
    simp only [at'] at known
    exact iff_of_true (releaseSpan_succeeds sound known.1 known.2.2) id
  | dropping span =>
    simp only [at'] at known
    cases known.2.2.1

theorem step_succeeds (sound : SoundHeap s v) (request : Request action) (due : Due s action) :
    (s.step allocator action).isSome = true ↔ ¬Unprepared s action := by
  cases action with
  | alloc t size page =>
    refine iff_of_true ?_ id
    have idle : s.pcs t = .idle := due
    simp only [Heap.step,idle]
    exact allocate_succeeds request _
  | free t ptr =>
    obtain ⟨idle,user⟩ := due
    refine iff_of_true ?_ id
    have kept : ptr ∈ v.kept .live := by rw [Heap.linked_live.mp (sound.linked .live)]; exact user
    obtain ⟨span,_,mapped,_⟩ := sound.mapped allocator_laws kept
    simp only [Heap.step,idle,if_pos user,mapped,Option.map_some]
    rfl
  | next t page => exact advance_succeeds sound due

structure Moves (s next : Heap) (t : Nat) : Prop where
  started : next.started = s.started
  others : ∀ u, u ≠ t → next.pcs u = s.pcs u
  own : ∀ ptr span, next.pcs t ≠ .freeing ptr span

theorem moves_setPc {pc : Pc} (own : ∀ ptr span, pc ≠ .freeing ptr span) (started : next.started = s.started)
    (pcs : next.pcs = s.pcs) : Moves s (next.setPc t pc) t := by
  refine ⟨started,fun u other => ?_,fun ptr span => ?_⟩
  · rw [Heap.setPc_other other,pcs]
  · rw [Heap.setPc_same]; exact own ptr span

theorem takeRange_moves {before : Heap} (stepped : before.takeRange t size num span = some next)
    (started : before.started = s.started) (pcs : before.pcs = s.pcs) : Moves s next t := by
  obtain ⟨start,_,stepped⟩ := Option.bind_eq_some_iff.mp stepped
  cases stepped
  exact moves_setPc (fun _ _ => Pc.noConfusion) started pcs

theorem deallocate_moves (stepped : s.deallocate allocator t span ptr = some next) : Moves s next t := by
  have small : ¬allocator.large (s.spanAt span).objSize = true := Bool.false_ne_true
  rw [Heap.deallocate,if_neg small] at stepped
  obtain ⟨_,stepped⟩ := Option.ite_none_right_eq_some.mp stepped
  obtain ⟨_,_,stepped⟩ := Option.bind_eq_some_iff.mp stepped
  obtain ⟨_,_,stepped⟩ := Option.bind_eq_some_iff.mp stepped
  dsimp only at stepped
  split at stepped
  · obtain ⟨_,_,stepped⟩ := Option.bind_eq_some_iff.mp stepped
    cases stepped
    exact moves_setPc (fun _ _ => Pc.noConfusion) rfl rfl
  · cases stepped
    exact moves_setPc (fun _ _ => Pc.noConfusion) rfl rfl

theorem putBack_moves {a : Nat} (stepped : s.putBack allocator t index a = some next) : Moves s next t := by
  obtain ⟨span,_,stepped⟩ := Option.bind_eq_some_iff.mp stepped
  dsimp only at stepped
  split at stepped
  · cases stepped; exact moves_setPc (fun _ _ => Pc.noConfusion) rfl rfl
  · cases stepped; exact moves_setPc (fun _ _ => Pc.noConfusion) rfl rfl

theorem advance_moves {pc : Pc} (stepped : s.advance allocator t page pc = some next) : Moves s next t := by
  cases pc with
  | idle => cases stepped
  | fetching size num =>
    obtain ⟨index,_,stepped⟩ := Option.bind_eq_some_iff.mp stepped
    obtain ⟨_,stepped⟩ := Option.ite_none_right_eq_some.mp stepped
    split at stepped
    · exact takeRange_moves stepped rfl rfl
    · cases stepped; exact moves_setPc (fun _ _ => Pc.noConfusion) rfl rfl
  | lacking size num =>
    obtain ⟨pages,_,stepped⟩ := Option.bind_eq_some_iff.mp stepped
    obtain ⟨_,stepped⟩ := Option.ite_none_right_eq_some.mp stepped
    obtain ⟨_,_,stepped⟩ := Option.bind_eq_some_iff.mp stepped
    cases stepped
    exact moves_setPc (fun _ _ => Pc.noConfusion) rfl rfl
  | fresh size num span => cases stepped; exact moves_setPc (fun _ _ => Pc.noConfusion) rfl rfl
  | settled size num span => cases stepped; exact moves_setPc (fun _ _ => Pc.noConfusion) rfl rfl
  | carved size num span =>
    obtain ⟨index,_,stepped⟩ := Option.bind_eq_some_iff.mp stepped
    obtain ⟨_,stepped⟩ := Option.ite_none_right_eq_some.mp stepped
    exact takeRange_moves stepped rfl rfl
  | received size start stop count =>
    obtain ⟨index,_,stepped⟩ := Option.bind_eq_some_iff.mp stepped
    cases stepped
    refine moves_setPc (fun _ _ => Pc.noConfusion) ?_ ?_
    · dsimp only; split <;> rfl
    · dsimp only; split <;> rfl
  | freeing ptr span => exact deallocate_moves stepped
  | returning index cur =>
    obtain ⟨_,equal⟩ := Option.ite_none_right_eq_some.mp stepped
    cases equal
    exact moves_setPc (fun _ _ => Pc.noConfusion) rfl rfl
  | putting index cur =>
    cases cur with
    | none => cases stepped; exact moves_setPc (fun _ _ => Pc.noConfusion) rfl rfl
    | some a => exact putBack_moves stepped
  | releasing index span after =>
    obtain ⟨_,_,stepped⟩ := Option.bind_eq_some_iff.mp stepped
    cases stepped
    exact moves_setPc (fun _ _ => Pc.noConfusion) rfl rfl
  | dropping span =>
    obtain ⟨_,_,stepped⟩ := Option.bind_eq_some_iff.mp stepped
    cases stepped
    exact moves_setPc (fun _ _ => Pc.noConfusion) rfl rfl

def Prepared (s : Heap) : Action → Prop
  | .free t _ => s.started t = true
  | _ => True

instance (s : Heap) : DecidablePred (Prepared s)
  | .alloc .. => .isTrue trivial
  | .free t _ => inferInstanceAs (Decidable (s.started t = true))
  | .next .. => .isTrue trivial

theorem prepared_step (ready : ∀ t ptr span, s.pcs t = .freeing ptr span → s.started t = true)
    (prepared : Prepared s action) (stepped : s.step allocator action = some next) :
    ∀ t ptr span, next.pcs t = .freeing ptr span → next.started t = true := by
  cases action with
  | alloc t size page =>
    intro u ptr span freeing
    cases idle : s.pcs t with
    | idle =>
      simp only [Heap.step,idle] at stepped
      obtain ⟨index,_,stepped⟩ := Option.bind_eq_some_iff.mp stepped
      have started : ∀ w, s.started w = true → update s.started t true w = true := by
        intro w before
        by_cases same : w = t
        · subst w; exact Function.update_self ..
        · rw [Function.update_of_ne same]; exact before
      dsimp only at stepped
      split at stepped
      · cases stepped
        exact started u (ready u ptr span freeing)
      · obtain ⟨batch,_,stepped⟩ := Option.bind_eq_some_iff.mp stepped
        cases stepped
        by_cases same : u = t
        · subst u
          exact Function.update_self ..
        · rw [Heap.setPc_other same] at freeing
          exact started u (ready u ptr span freeing)
    | _ =>
      simp only [Heap.step,idle] at stepped
      cases stepped
  | free t ptr =>
    intro u ptr' span freeing
    cases idle : s.pcs t with
    | idle =>
      simp only [Heap.step,idle] at stepped
      obtain ⟨_,stepped⟩ := Option.ite_none_right_eq_some.mp stepped
      obtain ⟨h,_,equal⟩ := Option.map_eq_some_iff.mp stepped
      cases equal
      by_cases same : u = t
      · subst u; exact prepared
      · rw [Heap.setPc_other same] at freeing
        exact ready u ptr' span freeing
    | _ =>
      simp only [Heap.step,idle] at stepped
      cases stepped
  | next t page =>
    intro u ptr span freeing
    have moves := advance_moves stepped
    rw [moves.started]
    by_cases same : u = t
    · subst u; exact absurd freeing (moves.own ptr span)
    · rw [moves.others u same] at freeing
      exact ready u ptr span freeing

-- In every run a section that is due fails at most at the assertion of Free, in a thread
-- that has not called Alloc; and where no such thread calls Free nothing fails.
theorem assertions_hold_iff (actions : List Action) (s : Heap) (requests : ∀ action ∈ actions, Request action)
    (ran : run (Heap.step allocator) {} actions = some s) : (∀ action, Request action → Due s action →
      ((s.step allocator action).isSome = true ↔ ¬Unprepared s action)) ∧
    (Throughout (Heap.step allocator) Prepared {} actions → ∀ action, Request action → Due s action →
      (s.step allocator action).isSome = true) := by
  obtain ⟨v,sound⟩ := Heap.run_sound allocator_laws
    (throughout_each fun action found _ => guard_of_request (requests action found)) ran
  refine ⟨fun action request due => step_succeeds sound request due,fun prepared action request due => ?_⟩
  have ready : ∀ t ptr span, s.pcs t = .freeing ptr span → s.started t = true :=
    run_keeps (motive := fun s => ∀ t ptr span, s.pcs t = .freeing ptr span → s.started t = true)
      (fun _ _ _ => prepared_step) (fun _ _ _ freeing => by cases freeing) prepared ran
  refine (step_succeeds sound request due).mpr fun unprepared => ?_
  cases action with
  | next t page =>
    simp only [Unprepared] at unprepared
    split at unprepared
    · rename_i ptr span freeing
      rw [ready t ptr span freeing] at unprepared
      cases unprepared
    · exact unprepared
  | _ => exact unprepared

theorem due_of_freeing (freeing : s.pcs t = .freeing ptr span) : Due s (.next t page) := by
  simp only [Due,freeing]

def handOver : List Action := .alloc 0 204800 16 :: List.replicate 6 (.next 0 16) ++ [.alloc 1 204800 0,.next 1 0,.next 1 0,
  .free 1 131072]

theorem assertions_hold_hand_over : ∃ s, run (Heap.step allocator) {} handOver = some s ∧
    (∀ action, Request action → Due s action → ((s.step allocator action).isSome = true ↔ ¬Unprepared s action)) ∧
    (s.step allocator (.next 1 0)).isSome = true := by
  have complete : (run (Heap.step allocator) {} handOver).map (fun s => decide (s.pcs 1 = .freeing 131072 1)) =
    some true := by decide +kernel
  have prepared : Throughout (Heap.step allocator) Prepared {} handOver := by decide +kernel
  obtain ⟨s,ran,freeing⟩ := Option.map_eq_some_iff.mp complete
  obtain ⟨each,all⟩ := assertions_hold_iff handOver s (by decide) ran
  exact ⟨s,ran,each,all prepared (.next 1 0) trivial (due_of_freeing (of_decide_eq_true freeing))⟩

def consumer : List Action := .alloc 0 204800 16 :: List.replicate 6 (.next 0 16) ++ [.free 1 131072]

theorem consumer_fails_assertion : ¬∀ actions s, (∀ action ∈ actions, Request action) →
    run (Heap.step allocator) {} actions = some s → ∀ action, Request action → Due s action →
      (s.step allocator action).isSome = true := by
  intro claimed
  have stuck : (run (Heap.step allocator) {} consumer).map (fun s => decide (s.pcs 1 = .freeing 131072 1 ∧
    s.started 1 = false ∧ (s.step allocator (.next 1 0)).isNone = true)) = some true := by decide +kernel
  obtain ⟨s,ran,stuck⟩ := Option.map_eq_some_iff.mp stuck
  obtain ⟨freeing,_,failed⟩ := of_decide_eq_true stuck
  have passed := claimed consumer s (by decide) ran (.next 1 0) trivial (due_of_freeing freeing)
  rw [Option.isNone_iff_eq_none.mp failed] at passed
  cases passed

end LinuxOS.Pool
