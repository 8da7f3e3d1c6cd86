import LinuxOS.Blocks.Tiling

namespace LinuxOS.Blocks
open Function (update)
open Links Pages Places
variable {d : Design} {Good : PageCache → Set Nat → Prop} {Ready : PageCache → Set Nat → Nat → Prop}
variable {Quiet : Span → Prop} {Admits : Nat → Prop}
variable {s next : Heap} {v w : View} {a b h k t x y i need : Nat} {c : Place} {action : Action}

theorem Alike.cut {span other : Span} (alike : Alike span other) (cut : Cut d span) : Cut d other := by
  refine ⟨?_,fun small => ?_,fun small => ?_⟩
  · rw [alike.nPages]; exact cut.pages
  · rw [alike.objSize] at small ⊢
    exact cut.word small
  · rw [alike.objSize] at small ⊢
    rw [alike.nPages]; exact cut.fills small

namespace Heap

def Written (s next : Heap) (x : Nat) : Prop := ∃ i < wordBytes, i ≤ x ∧ next.mem (x-i) ≠ s.mem (x-i)

instance (s next : Heap) : DecidablePred (Written s next) := fun x =>
  inferInstanceAs (Decidable (∃ i < wordBytes, i ≤ x ∧ next.mem (x-i) ≠ s.mem (x-i)))

def reread (s : Heap) (written : Nat → Prop) [DecidablePred written] (words : Nat → Option Nat) : Heap :=
  {s with mem := fun y => if ∃ j < wordBytes, written (y+j) then words y else s.mem y}

theorem written_iff : Written s next x ↔ ∃ y, y ≤ x ∧ x < y + wordBytes ∧ next.mem y ≠ s.mem y := by
  constructor
  · rintro ⟨i,short,low,changed⟩
    exact ⟨x-i,by omega,by omega,changed⟩
  · rintro ⟨y,low,short,changed⟩
    refine ⟨x-y,by omega,by omega,?_⟩
    rwa [show x - (x - y) = y by omega]

theorem Sound.remember (sound : Sound d Good Quiet s v) {mem : Nat → Option Nat}
    (same : ∀ c, c ≠ .live → ∀ a ∈ v.kept c, mem a = s.mem a) : Sound d Good Quiet {s with mem} v :=
  ⟨sound.good,sound.distinct,sound.positive,sound.sorted,sound.listed,sound.single,sound.apart,sound.every,
    sound.source,sound.count,sound.full,fun c => by
      cases c with
      | live => exact sound.linked .live
      | cached t i =>
        obtain ⟨chain,rest⟩ := sound.linked (.cached t i)
        exact ⟨chain.agree (same _ nofun),rest⟩
      | moving t => exact Holds.agree (sound.linked (.moving t)) (same _ nofun)
      | own h => exact fun handed out => (sound.linked (.own h) handed out).agree (same _ nofun),
    sound.owner,sound.knows⟩

theorem Tiled.remember (tiled : Tiled d s) {mem : Nat → Option Nat} : Tiled d {s with mem} :=
  ⟨tiled.sizes,tiled.fresh,tiled.spans⟩

theorem Tiled.apart (laws : Laws d Good Ready Quiet Admits) (room : Room d Admits) (tiled : Tiled d s)
    (sound : Sound d Good Quiet s v) {c' : Place} (found : a ∈ v.kept c) (found' : b ∈ v.kept c') (different : a ≠ b) :
    ∃ h k, (h ∈ s.handed ∧ (v.stage h).Circulates ∧ a ∈ d.blocks (s.spanAt h)) ∧
      (k ∈ s.handed ∧ (v.stage k).Circulates ∧ b ∈ d.blocks (s.spanAt k)) ∧
      (a + d.width (s.spanAt h) ≤ b ∨ b + d.width (s.spanAt k) ≤ a) := by
  obtain ⟨h,handed,out,block,_⟩ := sound.source c a found
  obtain ⟨k,handed',out',block',_⟩ := sound.source c' b found'
  exact ⟨h,k,⟨handed,out,block⟩,⟨handed',out',block'⟩,blocks_apart laws sound.good handed handed'
    (tiled.cut room sound handed out) (tiled.cut room sound handed' out') block block' different⟩

theorem Writable.later (room : Room d Admits) (tiled : Tiled d s) (sound : Sound d Good Quiet s v)
    (effect : Effect d s next t need) (writable : Writable d s v t y) (changed : next.mem y ≠ s.mem y) :
    ∃ h ∈ next.handed, y ∈ d.blocks (next.spanAt h) ∧ Cut d (next.spanAt h) := by
  have stays : ∀ {h}, h ∈ s.handed → (s.pcs t).unsettled ≠ some h → Cut d (s.spanAt h) →
      y ∈ d.blocks (s.spanAt h) → ∃ h ∈ next.handed, y ∈ d.blocks (next.spanAt h) ∧ Cut d (next.spanAt h) := by
    intro h handed settled cut block
    have kept : h ∈ next.handed := by
      by_contra gone
      exact changed (congrFun (effect.lost h handed gone) y)
    have alike := effect.kept h kept handed settled
    exact ⟨h,kept,by rw [alike.blocks]; exact block,alike.cut cut⟩
  rcases writable with ⟨c,_,found⟩ | ⟨size,num,h,settled,block⟩
  · obtain ⟨h,handed,out,block,_⟩ := sound.source c y found
    exact stays handed (fun unsettled => making_hidden (sound.unsettled unsettled).2 out)
      (tiled.cut room sound handed out) block
  · obtain ⟨handed,_,cut⟩ := tiled.cut_settled room sound settled
    refine stays handed (fun unsettled => ?_) cut block
    have known := sound.knows t
    simp only [Knows,settled] at known
    cases known.2.2.1.symm.trans (sound.unsettled unsettled).2
    rw [settled] at unsettled
    cases unsettled

-- A link that a step writes is not in a user's block.
theorem Writable.unused (laws : Laws d Good Ready Quiet Admits) (room : Room d Admits) (tiled : Tiled d s)
    (sound : Sound d Good Quiet s v) (writable : Writable d s v t y) (live : a ∈ v.kept .live) :
    ∃ h ∈ s.handed, (v.stage h).Circulates ∧ a ∈ d.blocks (s.spanAt h) ∧
      (a + d.width (s.spanAt h) ≤ y ∨ y + wordBytes ≤ a) := by
  rcases writable with ⟨c,free,found⟩ | ⟨size,num,k,settled,block'⟩
  · have different : a ≠ y := by
      rintro rfl
      cases sound.apart.only c .live a found live
      exact free
    obtain ⟨h,k,⟨handed,out,block⟩,⟨handed',out',_⟩,apart⟩ := tiled.apart laws room sound live found different
    have wide := (tiled.cut room sound handed' out').width
    exact ⟨h,handed,out,block,by omega⟩
  · obtain ⟨handed',hidden,cut'⟩ := tiled.cut_settled room sound settled
    obtain ⟨h,handed,out,block,_⟩ := sound.source .live a live
    have different : h ≠ k := by
      rintro rfl
      exact hidden out
    have cut := tiled.cut room sound handed out
    have inside := cut.inside block
    have inside' := cut'.inside block'
    have wide := cut'.width
    simp only [← Nat.add_mul] at inside inside'
    refine ⟨h,handed,out,block,?_⟩
    rcases spans_apart laws sound.good handed handed' cut.pages cut'.pages different with before | after
    · have ends := Nat.mul_le_mul_right pageBytes before
      omega
    · have ends := Nat.mul_le_mul_right pageBytes after
      omega

end Heap

-- The allocator and the memory that it shares with its users: a free block has a
-- link in its first bytes. `wants` is the request that a thread's call is for,
-- `asked` the request that a block was returned for, and `wrote` what its user has
-- stored in it since then.
structure Shared where
  heap : Heap := {}
  bytes : Nat → UInt8 := fun _ => 0
  wants : Nat → Nat := fun _ => 0
  asked : Nat → Nat := fun _ => 0
  wrote : Nat → Nat → Option UInt8 := fun _ _ => none

-- The bytes of a link that the allocator writes, and all words that share a byte
-- with what is written, have new values, whatever these are.
inductive Use where
  | call (action : Action) (bytes : Nat → UInt8) (words : Nat → Option Nat)
  | store (block offset : Nat) (byte : UInt8) (words : Nat → Option Nat)

namespace Shared
variable {m n : Shared} {use : Use}

def waits (m : Shared) : Action → Nat → Nat
  | .alloc t size _ => update m.wants t size
  | _ => m.wants

-- Users store only in what they have, and no further than they have asked for.
def step (d : Design) (m : Shared) : Use → Option Shared
  | .call action bytes words => do
    let heap ← m.heap.step d action
    some {
      heap := heap.reread (m.heap.Written heap) fun y => if heap.mem y = m.heap.mem y then words y else heap.mem y
      bytes := fun x => if m.heap.Written heap x then bytes x else m.bytes x
      wants := m.waits action
      asked := fun a => if a ∈ m.heap.live then m.asked a else m.waits action action.thread
      wrote := fun a => if a ∈ m.heap.live ∧ a ∈ heap.live then m.wrote a else fun _ => none}
  | .store block offset byte words =>
    if block ∈ m.heap.live ∧ offset < m.asked block then
      some {m with
        heap := m.heap.reread (· = block + offset) words
        bytes := update m.bytes (block + offset) byte
        wrote := update m.wrote block (update (m.wrote block) offset (some byte))}
    else none

def Guard (Ready : PageCache → Set Nat → Nat → Prop) (Admits : Nat → Prop) (m : Shared) : Use → Prop
  | .call action _ _ => Heap.Guard Ready Admits m.heap action
  | .store _ _ _ _ => True

structure Tended (d : Design) (Good : PageCache → Set Nat → Prop) (Quiet : Span → Prop) (m : Shared) (v : View) :
    Prop where
  sound : Heap.Sound d Good Quiet m.heap v
  tiled : Heap.Tiled d m.heap
  wants : ∀ t size, (m.heap.pcs t).makes = some size → m.wants t ≤ size
  asked : ∀ a ∈ m.heap.live, ∀ h ∈ m.heap.handed, (v.stage h).Circulates → a ∈ d.blocks (m.heap.spanAt h) →
    m.asked a ≤ d.width (m.heap.spanAt h)
  stored : ∀ a ∈ m.heap.live, ∀ i byte, m.wrote a i = some byte → i < m.asked a ∧ m.bytes (a+i) = byte

theorem Tended.live (tended : Tended d Good Quiet m v) : v.kept .live = m.heap.live := tended.sound.linked .live

theorem Tended.apart (laws : Laws d Good Ready Quiet Admits) (room : Room d Admits) (tended : Tended d Good Quiet m v)
    (user : a ∈ m.heap.live) (found : b ∈ v.kept c) (different : a ≠ b) :
    (a + m.asked a ≤ b ∨ b + wordBytes ≤ a) ∧ (b ∈ m.heap.live → a + m.asked a ≤ b ∨ b + m.asked b ≤ a) := by
  have live : a ∈ v.kept .live := by rw [tended.live]; exact user
  obtain ⟨h,k,⟨handed,out,block⟩,⟨handed',out',block'⟩,apart⟩ :=
    tended.tiled.apart laws room tended.sound live found different
  have wide := tended.asked a user h handed out block
  have word := (tended.tiled.cut room tended.sound handed' out').width
  refine ⟨by omega,fun user' => ?_⟩
  have wide' := tended.asked b user' k handed' out' block'
  omega

theorem Tended.store {offset : Nat} {byte : UInt8} {words : Nat → Option Nat} (laws : Laws d Good Ready Quiet Admits)
    (room : Room d Admits) (tended : Tended d Good Quiet m v) (stepped : m.step d (.store a offset byte words) = some n) :
    Tended d Good Quiet n v := by
  obtain ⟨⟨user,inside⟩,equal⟩ := Option.ite_none_right_eq_some.mp stepped
  cases equal
  refine ⟨tended.sound.remember fun c free b found => ?_,tended.tiled.remember,tended.wants,tended.asked,?_⟩
  · have different : a ≠ b := by
      rintro rfl
      refine free (tended.sound.apart.only c .live a found ?_)
      rw [tended.live]; exact user
    have apart := (tended.apart laws room user found different).1
    refine if_neg ?_
    rintro ⟨j,short,same⟩
    omega
  · intro b user' i value wrote
    by_cases same : b = a
    · subst b
      dsimp only at wrote ⊢
      rw [Function.update_self] at wrote
      by_cases here : i = offset
      · subst i
        rw [Function.update_self] at wrote ⊢
        exact ⟨inside,Option.some.inj wrote⟩
      · rw [Function.update_of_ne here] at wrote
        rw [Function.update_of_ne (by omega)]
        exact tended.stored a user i value wrote
    · dsimp only at wrote ⊢
      rw [Function.update_of_ne same] at wrote
      obtain ⟨short,stored⟩ := tended.stored b user' i value wrote
      have found : b ∈ v.kept .live := by rw [tended.live]; exact user'
      have apart := (tended.apart laws room user found fun equal => same equal.symm).2 user'
      rw [Function.update_of_ne (by omega)]
      exact ⟨short,stored⟩

theorem links_kept {words : Nat → Option Nat} (laws : Laws d Good Ready Quiet Admits) (room : Room d Admits)
    (tiled : Heap.Tiled d s) (sound : Heap.Sound d Good Quiet s v) (later : Heap.Sound d Good Quiet next w)
    (effect : Heap.Effect d s next action.thread need) (stepped : s.step d action = some next) (found : b ∈ w.kept c) :
    (next.reread (s.Written next) fun y => if next.mem y = s.mem y then words y else next.mem y).mem b = next.mem b := by
  dsimp only [Heap.reread]
  split
  · rename_i touched
    obtain ⟨j,short,written⟩ := touched
    split
    · rename_i same
      exfalso
      obtain ⟨y,low,high,changed⟩ := Heap.written_iff.mp written
      have different : y ≠ b := by
        rintro rfl
        exact changed same
      have writable := Heap.step_writes laws sound stepped y changed
      obtain ⟨h,handed,block,cut⟩ := writable.later room tiled sound effect changed
      obtain ⟨k,handed',out',block',_⟩ := later.source c b found
      have cut' := (tiled.step sound later (Heap.step_section stepped) effect).cut room later handed' out'
      have apart := Heap.blocks_apart laws later.good handed handed' cut cut' block block' different
      have wide := cut.width
      have wide' := cut'.width
      omega
    · rfl
  · rfl

-- A user's block is the size of its request, also where the span has changed hands.
theorem Tended.fits (laws : Laws d Good Ready Quiet Admits) (tended : Tended d Good Quiet m v)
    (later : Heap.Sound d Good Quiet next w) (effect : Heap.Effect d m.heap next t need) (user : a ∈ next.live)
    (handed : h ∈ next.handed) (out : (w.stage h).Circulates) (block : a ∈ d.blocks (next.spanAt h)) :
    (if a ∈ m.heap.live then m.asked a else need) ≤ d.width (next.spanAt h) := by
  have page := later.inside handed out block
  split
  · rename_i before
    have live : a ∈ v.kept .live := by rw [tended.live]; exact before
    obtain ⟨k,old,out',block',_⟩ := tended.sound.source .live a live
    have settled : (m.heap.pcs t).unsettled ≠ some k := fun unsettled =>
      Heap.making_hidden (tended.sound.unsettled unsettled).2 out'
    by_cases known : h ∈ m.heap.handed
    · by_cases mine : (m.heap.pcs t).unsettled = some h
      · -- a span that has just been settled is not in circulation
        obtain ⟨size,num,at'⟩ := Pc.unsettled_of mine
        have stays := later.knows t
        simp only [Heap.Knows,(effect.settled size num h at').1] at stays
        exact absurd out (Heap.making_hidden stays.2.2.1)
      · have alike := effect.kept h handed known mine
        rw [alike.blocks] at block
        have extent : a / pageBytes ∈ (m.heap.spanAt h).extent := by
          rw [Span.extent,← alike.id,← alike.nPages]; exact page
        rw [alike.width]
        exact tended.asked a before h known (tended.sound.home laws live known extent).1 block
    · obtain ⟨fresh,others⟩ := effect.given h handed known
      have kept := others k old
      have alike := effect.kept k kept old settled
      have inside := tended.sound.inside old out' block'
      have extent : a / pageBytes ∈ (next.spanAt k).extent := by
        rw [Span.extent,alike.id,alike.nPages]; exact inside
      have same := laws.alone later.good handed kept page extent
      rw [same] at known
      exact absurd old known
  · rename_i new
    obtain ⟨k,handed',page',wide⟩ := effect.returns a user new
    rw [laws.alone later.good handed handed' page page']
    exact wide

theorem Tended.call {bytes : Nat → UInt8} {words : Nat → Option Nat} (laws : Laws d Good Ready Quiet Admits)
    (room : Room d Admits) (tended : Tended d Good Quiet m v) (guarded : Heap.Guard Ready Admits m.heap action)
    (stepped : m.step d (.call action bytes words) = some n) : ∃ w, Tended d Good Quiet n w := by
  obtain ⟨heap,taken,equal⟩ := Option.bind_eq_some_iff.mp stepped
  cases equal
  have needs : Heap.Needs d Admits m.heap (m.waits action action.thread) action := by
    cases action with
    | alloc t size page => exact ⟨guarded,(Function.update_self t size m.wants).symm⟩
    | free t ptr => trivial
    | next t page => exact fun size makes => ⟨tended.tiled.sizes t size makes,tended.wants t size makes⟩
  have effect := Heap.step_effect laws room tended.sound guarded needs taken
  obtain ⟨w,later⟩ := tended.sound.step laws guarded taken
  have own := Heap.step_section taken
  have tiled := tended.tiled.step tended.sound later own effect
  refine ⟨w,later.remember fun c _ b found => links_kept laws room tended.tiled tended.sound later effect taken found,
    tiled.remember,?_,?_,?_⟩
  · intro u size makes
    by_cases mine : u = action.thread
    · rw [mine] at makes ⊢
      exact (effect.sizes size makes).2
    · have still : m.waits action u = m.wants u := by
        cases action with
        | alloc t size page => exact Function.update_of_ne mine ..
        | _ => rfl
      have before : (m.heap.pcs u).makes = some size := by rw [← own.pcs u mine]; exact makes
      exact Nat.le_trans (Nat.le_of_eq still) (tended.wants u size before)
  · exact fun a user h handed out block => by
      have wide := tended.fits laws later effect user handed out block
      exact wide
  · intro a user i byte wrote
    dsimp only at wrote ⊢
    split at wrote
    · rename_i both
      obtain ⟨short,stored⟩ := tended.stored a both.1 i byte wrote
      rw [if_pos both.1]
      refine ⟨short,?_⟩
      rw [if_neg,stored]
      -- the allocator writes into blocks that no user has
      intro written
      obtain ⟨y,low,high,changed⟩ := Heap.written_iff.mp written
      have writable := Heap.step_writes laws tended.sound taken y changed
      have live : a ∈ v.kept .live := by rw [tended.live]; exact both.1
      obtain ⟨h,handed,out,block,apart⟩ := writable.unused laws room tended.tiled tended.sound live
      have wide := tended.asked a both.1 h handed out block
      omega
    · cases wrote

theorem Tended.step (laws : Laws d Good Ready Quiet Admits) (room : Room d Admits) (tended : Tended d Good Quiet m v)
    (guarded : m.Guard Ready Admits use) (stepped : m.step d use = some n) : ∃ w, Tended d Good Quiet n w := by
  cases use with
  | call action bytes words => exact tended.call laws room guarded stepped
  | store block offset byte words => exact ⟨v,tended.store laws room stepped⟩

-- What the users of the allocator can rely on: a block has room for the request,
-- inside of a span of its own, apart from all other users' blocks and from the
-- links of all free blocks; it holds what its user has stored in it; and the
-- allocator still finds all blocks where they are.
structure Served (d : Design) (m : Shared) : Prop where
  resident : m.heap.Resident d
  inside : ∀ a ∈ m.heap.live, ∃ h ∈ m.heap.handed, m.heap.cache.get (a / pageBytes) = some h ∧
    (m.heap.spanAt h).id * pageBytes ≤ a ∧
      a + m.asked a ≤ ((m.heap.spanAt h).id + (m.heap.spanAt h).nPages) * pageBytes
  apart : ∀ a ∈ m.heap.live, ∀ b ∈ m.heap.live, a ≠ b → a + m.asked a ≤ b ∨ b + m.asked b ≤ a
  unlinked : ∀ a ∈ m.heap.live, ∀ c b, c ≠ .live → m.heap.Keeps c b → a + m.asked a ≤ b ∨ b + wordBytes ≤ a
  stored : ∀ a ∈ m.heap.live, ∀ i byte, m.wrote a i = some byte → m.bytes (a+i) = byte

theorem Tended.served (laws : Laws d Good Ready Quiet Admits) (room : Room d Admits) (tended : Tended d Good Quiet m v) :
    Served d m := by
  refine ⟨tended.sound.resident laws,fun a user => ?_,fun a user b user' different => ?_,fun a user c b free keeps => ?_,
    fun a user i byte wrote => (tended.stored a user i byte wrote).2⟩
  · have live : a ∈ v.kept .live := by rw [tended.live]; exact user
    obtain ⟨h,handed,mapped,out,block,_⟩ := tended.sound.mapped laws live
    have inside := (tended.tiled.cut room tended.sound handed out).inside block
    have wide := tended.asked a user h handed out block
    refine ⟨h,handed,mapped,inside.1,?_⟩
    rw [Nat.add_mul]
    omega
  · have found : b ∈ v.kept .live := by rw [tended.live]; exact user'
    exact (tended.apart laws room user found different).2 user'
  · have found := (tended.sound.keeps.mp keeps).1
    have different : a ≠ b := by
      rintro rfl
      refine free (tended.sound.apart.only c .live a found ?_)
      rw [tended.live]; exact user
    exact (tended.apart laws room user found different).1

theorem tended_start (laws : Laws d Good Ready Quiet Admits) : ∃ v, Tended d Good Quiet {} v :=
  ⟨_,Heap.sound_start laws,Heap.tiled_start,nofun,nofun,nofun⟩

theorem run_served {uses : List Use} (laws : Laws d Good Ready Quiet Admits) (room : Room d Admits)
    (admitted : Machine.Throughout (step d) (Guard Ready Admits) {} uses) (ran : Machine.run (step d) {} uses = some m) :
    Served d m := by
  have tended : ∃ v, Tended d Good Quiet m v := by
    apply Machine.run_keeps (motive := fun m => ∃ v, Tended d Good Quiet m v) _ (tended_start laws) admitted ran
    rintro m use n ⟨v,tended⟩ guarded stepped
    exact tended.step laws room guarded stepped
  obtain ⟨v,tended⟩ := tended
  exact tended.served laws room

end Shared
end LinuxOS.Blocks
