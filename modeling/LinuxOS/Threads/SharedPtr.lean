import LinuxOS.Machine
import LinuxOS.Condition

namespace LinuxOS.Threads
open Function (update)
open Machine Census
variable {ι : Type}

-- Where a my_shared_ptr is in its life: the copy constructor wants the lock, has it, has
-- read the count, has written it; release wants the lock, has it, has found other pointers,
-- has read the count, or has found none and deletes the object and then the count.
inductive Place (ι : Type) where
  | absent
  | copying (source : ι)
  | locked (source : ι)
  | loaded (source : ι) (count : Nat)
  | raised (source : ι)
  | live
  | releasing
  | testing
  | lower
  | lowering (count : Nat)
  | deleting
  | dropping
  | leaving
  deriving DecidableEq, Repr

def Place.Holds : Place ι → Bool
  | .absent | .copying _ | .live | .releasing => false
  | _ => true

def Place.Counted : Place ι → Bool
  | .absent | .copying _ | .locked _ | .loaded .. | .leaving => false
  | _ => true

def Place.Outstanding : Place ι → Bool
  | .live | .releasing => true
  | _ => false

def Place.source : Place ι → Option ι
  | .copying source | .locked source | .loaded source _ | .raised source => some source
  | _ => none

-- The pointers to one object, which came from one call of my_shared_ptr(T*) by copying, with the
-- count and the mutex that they share. The last three fields are history; `misuse` counts
-- accesses to the count after `delete _ref_cnt`, to the object after `delete _ptr`, and
-- overflows of the int that the count is.
structure SharedPtr (ι : Type) where
  places : ι → Place ι
  mtx : Option ι := none
  refCnt : Nat := 1
  objectDeletes : Nat := 0
  countDeletes : Nat := 0
  misuse : Nat := 0

-- A copy takes the fields of `q` before it asks for the lock. `use` is operator->.
inductive SharedAction (ι : Type) where
  | copy (p q : ι)
  | release (p : ι)
  | next (p : ι)
  | use (p : ι)
  | size (p : ι)
  deriving DecidableEq, Repr

namespace SharedPtr
variable [DecidableEq ι]

def start (first : ι) : SharedPtr ι where
  places := update (fun _ => .absent) first .live

def move (s : SharedPtr ι) (p : ι) (place : Place ι) : SharedPtr ι := {s with places := update s.places p place}

def expect (s : SharedPtr ι) (sound : Bool) : SharedPtr ι := {s with misuse := if sound then s.misuse else s.misuse+1}

def counting (s : SharedPtr ι) : SharedPtr ι := s.expect (s.countDeletes = 0)

def advance (s : SharedPtr ι) (p : ι) : Place ι → Option (SharedPtr ι)
  | .absent | .live => none
  | .copying source => if s.mtx = none then some ({s with mtx := some p}.move p (.locked source)) else none
  | .locked source => some (s.counting.move p (.loaded source s.refCnt))
  | .loaded source count => some ({s.counting.expect (count + 1 < 2^31) with refCnt := count+1}.move p (.raised source))
  | .raised _ => some ({s with mtx := none}.move p .live)
  | .releasing => if s.mtx = none then some ({s with mtx := some p}.move p .testing) else none
  | .testing => some (s.counting.move p (if 1 < s.refCnt then .lower else .deleting))
  | .lower => some (s.counting.move p (.lowering s.refCnt))
  | .lowering count => some ({s.counting with refCnt := count-1}.move p .leaving)
  | .deleting => some ({s with objectDeletes := s.objectDeletes+1}.move p .dropping)
  | .dropping => some ({s with countDeletes := s.countDeletes+1}.move p .leaving)
  | .leaving => some ({s with mtx := none}.move p .absent)

def step (s : SharedPtr ι) : SharedAction ι → Option (SharedPtr ι)
  | .copy p q => if s.places p = .absent ∧ s.places q = .live then some (s.move p (.copying q)) else none
  | .release p => if s.places p = .live then some (s.move p .releasing) else none
  | .next p => s.advance p (s.places p)
  | .use p => if s.places p = .live then some (s.expect (s.objectDeletes = 0)) else none
  | .size p => if s.places p = .live then some s.counting else none

-- A pointer outlives the copies that are being made of it.
def Admitted (s : SharedPtr ι) : SharedAction ι → Prop
  | .release p => ∀ q, (s.places q).source ≠ some p
  | _ => True

instance [Fintype ι] (s : SharedPtr ι) : DecidablePred (Admitted s)
  | .release p => inferInstanceAs (Decidable (∀ q, (s.places q).source ≠ some p))
  | .copy .. | .next _ | .use _ | .size _ => .isTrue trivial

def Knows (count : Nat) : Place ι → Prop
  | .loaded _ seen => count = seen
  | .lower => 1 < count
  | .lowering seen => count = seen ∧ 1 < count
  | .deleting | .dropping => count = 1
  | _ => True

variable [Fintype ι] {s next : SharedPtr ι} {p q : ι} {place was : Place ι} {action : SharedAction ι} {count : Nat}

structure Sound (s : SharedPtr ι) : Prop where
  lock : ∀ p, (s.places p).Holds = true ↔ s.mtx = some p
  source : ∀ p q, (s.places p).source = some q → s.places q = .live
  knows : ∀ p, Knows s.refCnt (s.places p)
  counted : s.countDeletes = 0 → s.refCnt = census s.places (·.Counted = true) ∧ 0 < s.refCnt
  alive : (∀ p, s.places p ≠ .dropping) → s.objectDeletes = s.countDeletes
  dying : ∀ p, s.places p = .dropping → s.objectDeletes = 1 ∧ s.countDeletes = 0
  done : s.countDeletes ≠ 0 → s.countDeletes = 1 ∧ ∀ p, s.places p = .absent ∨ s.places p = .leaving
  safe : s.misuse = 0

theorem start_sound (first : ι) : Sound (start first) := by
  have places : ∀ p, (start first).places p = .absent ∨ p = first ∧ (start first).places p = .live := by
    intro p
    by_cases same : p = first
    · subst p; exact .inr ⟨rfl,by simp [start]⟩
    · exact .inl (by simp [start,same])
  refine ⟨?lock,?source,?knows,?counted,fun _ => rfl,?dying,fun gone => absurd rfl gone,rfl⟩
  case lock =>
    intro p
    rcases places p with at' | ⟨_,at'⟩ <;> rw [at'] <;> simp [Place.Holds,start]
  case source =>
    intro p q
    rcases places p with at' | ⟨_,at'⟩ <;> rw [at'] <;> nofun
  case knows =>
    intro p
    rcases places p with at' | ⟨_,at'⟩ <;> rw [at'] <;> trivial
  case counted =>
    intro _
    have none' : census (fun _ : ι => (.absent : Place ι)) (·.Counted = true) = 0 := census_eq_zero.mpr fun _ => nofun
    have one : census (start first).places (·.Counted = true) = _ := census_enter nofun rfl
    rw [none'] at one
    exact ⟨one.symm,Nat.one_pos⟩
  case dying =>
    intro p
    rcases places p with at' | ⟨_,at'⟩ <;> rw [at'] <;> nofun

omit [DecidableEq ι] [Fintype ι] in
theorem knows_outside (outside : place.Holds ≠ true) (count : Nat) : Knows count place := by
  cases place with
  | absent | copying _ | live | releasing => trivial
  | _ => exact absurd rfl outside

omit [DecidableEq ι] in
theorem Sound.alone (sound : Sound s) (held : (s.places p).Holds = true) (other : q ≠ p) : (s.places q).Holds ≠ true := by
  intro held'
  have same := ((sound.lock q).mp held').symm.trans ((sound.lock p).mp held)
  exact other (Option.some.inj same)

omit [Fintype ι] in
theorem forall_update {motive : ι → Place ι → Prop} {places : ι → Place ι} (mine : motive p place)
    (theirs : ∀ u, u ≠ p → motive u (places u)) (u : ι) : motive u (update places p place u) := by
  by_cases equal : u = p
  · subst u; rw [Function.update_self]; exact mine
  · rw [Function.update_of_ne equal]; exact theirs u equal

-- Most steps move one pointer, perhaps with the lock and the count, and delete nothing.
theorem Sound.quiet (sound : Sound s) {mtx : Option ι} {count : Nat}
    (own : place.Holds = true ↔ mtx = some p) (others : ∀ u, u ≠ p → (mtx = some u ↔ s.mtx = some u))
    (copied : ∀ q, place.source = some q → q ≠ p ∧ s.places q = .live)
    (kept : s.places p = .live → place = .live ∨ ∀ r, (s.places r).source ≠ some p)
    (knows : Knows count place) (same : count = s.refCnt ∨ (s.places p).Holds = true)
    (counted : s.countDeletes = 0 → count = census (update s.places p place) (·.Counted = true) ∧ 0 < count)
    (plain : place ≠ .dropping ∧ s.places p ≠ .dropping)
    (stays : s.countDeletes ≠ 0 → place = .absent ∨ place = .leaving) :
    Sound {s with places := update s.places p place, mtx := mtx, refCnt := count} := by
  refine ⟨?_,?_,?_,counted,?_,?_,?_,sound.safe⟩
  · exact forall_update (motive := fun u place => place.Holds = true ↔ mtx = some u) own
      fun u other => (sound.lock u).trans (others u other).symm
  · refine forall_update (motive := fun _ at' => ∀ q, at'.source = some q → update s.places p place q = .live) ?_ ?_
    · intro q from'
      obtain ⟨apart,live⟩ := copied q from'
      exact (Function.update_of_ne apart ..).trans live
    · intro u other q from'
      have live := sound.source u q from'
      by_cases equal : q = p
      · subst q
        rcases kept live with same | none'
        · exact (Function.update_self ..).trans same
        · exact absurd from' (none' u)
      · exact (Function.update_of_ne equal ..).trans live
  · refine forall_update (motive := fun _ at' => Knows count at') knows fun u other => ?_
    rcases same with rfl | held
    · exact sound.knows u
    · exact knows_outside (sound.alone held other) count
  · intro none'
    refine sound.alive fun u => ?_
    by_cases equal : u = p
    · rw [equal]; exact plain.2
    · exact fun at' => none' u ((Function.update_of_ne equal ..).trans at')
  · exact forall_update (motive := fun _ at' => at' = .dropping → s.objectDeletes = 1 ∧ s.countDeletes = 0)
      (fun here => absurd here plain.1) fun u _ => sound.dying u
  · intro gone
    exact ⟨(sound.done gone).1,forall_update (motive := fun _ at' => at' = .absent ∨ at' = .leaving) (stays gone)
      fun u _ => (sound.done gone).2 u⟩

omit [DecidableEq ι] in
theorem Sound.there (sound : Sound s) (place : s.places p ≠ .absent) (inside : s.places p ≠ .leaving) :
    s.countDeletes = 0 := by
  by_contra gone
  rcases (sound.done gone).2 p with at' | at'
  · exact place at'
  · exact inside at'

theorem Sound.sole (sound : Sound s) (there : s.countDeletes = 0) (one : s.refCnt = 1) (mine : (s.places p).Counted = true)
    (other : q ≠ p) : (s.places q).Counted ≠ true := by
  have exactly := (sound.counted there).1
  have rest : census (update s.places p .absent) (·.Counted = true) + 1 = _ := census_leave mine nofun
  rw [← exactly,one] at rest
  have none' := census_eq_zero.mp (Nat.add_right_cancel (rest.trans (Nat.zero_add 1).symm)) q
  rwa [Function.update_of_ne other] at none'

omit [DecidableEq ι] [Fintype ι] in
theorem counting_same (there : s.countDeletes = 0) : s.counting = s := by
  rw [counting,expect,if_pos (by simpa using there)]

omit [DecidableEq ι] in
theorem Sound.copied (sound : Sound s) (elsewhere : s.places p ≠ .live) (from' : (s.places p).source = some q) :
    q ≠ p ∧ s.places q = .live := by
  have live := sound.source p q from'
  exact ⟨fun same => elsewhere (same ▸ live),live⟩

omit [DecidableEq ι] in
theorem Sound.room (sound : Sound s) (small : Fintype.card ι < 2^31) (there : s.countDeletes = 0)
    (out : (s.places p).Counted ≠ true) : s.refCnt + 1 < 2^31 := by
  rw [(sound.counted there).1]
  have fewer : census s.places (·.Counted = true) < Fintype.card ι := by
    refine Finset.card_lt_univ_of_notMem (x := p) ?_
    simpa using out
  omega

theorem Sound.recount (sound : Sound s) (there : s.countDeletes = 0) (same : (s.places p).Counted = place.Counted) :
    s.refCnt = census (update s.places p place) (·.Counted = true) ∧ 0 < s.refCnt := by
  rw [census_stay (by rw [same])]
  exact sound.counted there

theorem Sound.inside (sound : Sound s) (at' : s.places p = was) (there : s.countDeletes = 0) (held : was.Holds = true)
    (stays : place.Holds = true) (from' : place.source = was.source) (same : was.Counted = place.Counted)
    (plain : place ≠ .dropping ∧ was ≠ .dropping) (knows : Knows s.refCnt place) : Sound (s.move p place) := by
  subst was
  have mine := (sound.lock p).mp held
  have elsewhere : s.places p ≠ .live := fun at' => by
    rw [at'] at held; cases held
  exact sound.quiet ⟨fun _ => mine,fun _ => stays⟩ (fun _ _ => Iff.rfl)
    (fun q source => sound.copied elsewhere (from' ▸ source)) (fun at' => absurd at' elsewhere) knows (.inl rfl)
    (fun there => sound.recount there same) plain (fun gone => absurd there gone)

theorem Sound.enter (sound : Sound s) (at' : s.places p = was) (there : s.countDeletes = 0) (free : s.mtx = none)
    (elsewhere : was ≠ .live) (stays : place.Holds = true) (from' : place.source = was.source) (same : was.Counted = place.Counted)
    (plain : place ≠ .dropping) (knows : Knows s.refCnt place) : Sound ({s with mtx := some p}.move p place) := by
  subst was
  have outside : s.places p ≠ .dropping := fun at' => by
    have held := (sound.lock p).mp (by rw [at']; rfl)
    rw [free] at held; cases held
  exact sound.quiet (by simp [stays]) (fun u other => by simp [free,Ne.symm other])
    (fun q source => sound.copied elsewhere (from' ▸ source)) (fun at' => absurd at' elsewhere) knows (.inl rfl)
    (fun there => sound.recount there same) ⟨plain,outside⟩ (fun gone => absurd there gone)

theorem Sound.leave (sound : Sound s) (at' : s.places p = was) (held : was.Holds = true) (inside : was ≠ .dropping)
    (outside : place.Holds ≠ true) (from' : place.source = none) (same : was.Counted = place.Counted)
    (gone : s.countDeletes ≠ 0 → place = .absent) : Sound ({s with mtx := none}.move p place) := by
  subst was
  have mine := (sound.lock p).mp held
  have elsewhere : s.places p ≠ .live := fun at' => by
    rw [at'] at held; cases held
  exact sound.quiet ⟨fun holds => absurd holds outside,fun locked => by cases locked⟩
    (fun u other => by simp [mine,Ne.symm other]) (fun q source => by rw [from'] at source; cases source)
    (fun at' => absurd at' elsewhere) (knows_outside outside _) (.inl rfl) (fun there => sound.recount there same)
    ⟨fun at' => outside (by rw [at']; rfl),inside⟩ (fun deleted => .inl (gone deleted))

theorem Sound.store (sound : Sound s) (at' : s.places p = was) (there : s.countDeletes = 0) (held : was.Holds = true)
    (stays : place.Holds = true) (from' : ∀ q, place.source = some q → was.source = some q)
    (plain : place ≠ .dropping ∧ was ≠ .dropping) (knows : Knows count place)
    (counted : count = census (update s.places p place) (·.Counted = true) ∧ 0 < count) :
    Sound ({s with refCnt := count}.move p place) := by
  subst was
  have mine := (sound.lock p).mp held
  have elsewhere : s.places p ≠ .live := fun at' => by
    rw [at'] at held; cases held
  exact sound.quiet ⟨fun _ => mine,fun _ => stays⟩ (fun _ _ => Iff.rfl) (fun q source => sound.copied elsewhere (from' q source))
    (fun at' => absurd at' elsewhere) knows (.inr held) (fun _ => counted) plain (fun gone => absurd there gone)

theorem deleting_sound (sound : Sound s) (at' : s.places p = .deleting) :
    Sound ({s with objectDeletes := s.objectDeletes+1}.move p .dropping) := by
  have there : s.countDeletes = 0 := sound.there (by rw [at']; nofun) (by rw [at']; nofun)
  have held : (s.places p).Holds = true := by rw [at']; rfl
  have last : Knows s.refCnt (s.places p) := sound.knows p
  rw [at'] at last
  have undeleted : ∀ u, s.places u ≠ .dropping := by
    intro u dropping
    by_cases same : u = p
    · rw [same,at'] at dropping; cases dropping
    · exact sound.alone held same (by rw [dropping]; rfl)
  have first : s.objectDeletes = 0 := (sound.alive undeleted).trans there
  refine ⟨?lock,?source,?knows,?counted,?alive,?dying,fun gone => absurd there gone,sound.safe⟩
  case lock =>
    refine forall_update (motive := fun u place => place.Holds = true ↔ s.mtx = some u) ?_ fun u _ => sound.lock u
    exact ⟨fun _ => (sound.lock p).mp held,fun _ => rfl⟩
  case source =>
    refine forall_update (motive := fun _ at' => ∀ q, at'.source = some q → update s.places p .dropping q = .live) nofun ?_
    intro u _ q from'
    have live := sound.source u q from'
    have apart : q ≠ p := fun same => by
      rw [same,at'] at live; cases live
    exact (Function.update_of_ne apart ..).trans live
  case knows => exact forall_update (motive := fun _ at' => Knows s.refCnt at') last fun u _ => sound.knows u
  case counted => exact fun _ => sound.recount there (by rw [at']; rfl)
  case alive =>
    intro none'
    exact absurd (Function.update_self ..) (none' p)
  case dying =>
    exact forall_update (motive := fun _ at' => at' = .dropping → s.objectDeletes + 1 = 1 ∧ s.countDeletes = 0)
      (fun _ => ⟨by rw [first],there⟩) fun u _ dropping => absurd dropping (undeleted u)

theorem dropping_sound (sound : Sound s) (at' : s.places p = .dropping) :
    Sound ({s with countDeletes := s.countDeletes+1}.move p .leaving) := by
  obtain ⟨once,there⟩ := sound.dying p at'
  have held : (s.places p).Holds = true := by rw [at']; rfl
  have last : Knows s.refCnt (s.places p) := sound.knows p
  rw [at'] at last
  have dead : ∀ q, s.places q ≠ .live := by
    intro q live
    have apart : q ≠ p := fun same => by
      rw [same,at'] at live; cases live
    exact sound.sole there last (by rw [at']; rfl) apart (by rw [live]; rfl)
  have others : ∀ u, u ≠ p → s.places u = .absent := by
    intro u apart
    have outside := sound.alone held apart
    have uncounted := sound.sole there last (by rw [at']; rfl) apart
    cases place : s.places u with
    | absent => rfl
    | copying q => exact absurd (sound.source u q (by rw [place]; rfl)) (dead q)
    | live | releasing => exact absurd (by rw [place]; rfl) uncounted
    | _ => exact absurd (by rw [place]; rfl) outside
  refine ⟨?lock,?source,?knows,?counted,?alive,?dying,?done,sound.safe⟩
  case lock =>
    refine forall_update (motive := fun u place => place.Holds = true ↔ s.mtx = some u) ?_ fun u _ => sound.lock u
    exact ⟨fun _ => (sound.lock p).mp held,fun _ => rfl⟩
  case source =>
    exact forall_update (motive := fun _ at' => ∀ q, at'.source = some q → update s.places p .leaving q = .live) nofun
      fun u _ q from' => absurd (sound.source u q from') (dead q)
  case knows => exact forall_update (motive := fun _ at' => Knows s.refCnt at') trivial fun u _ => sound.knows u
  case counted => exact fun none' => absurd none' (Nat.succ_ne_zero _)
  case alive => exact fun _ => once.trans (congrArg (· + 1) there).symm
  case dying =>
    refine forall_update (motive := fun _ at' => at' = .dropping → s.objectDeletes = 1 ∧ s.countDeletes + 1 = 0) nofun ?_
    intro u apart dropping
    rw [others u apart] at dropping; cases dropping
  case done =>
    exact fun _ => ⟨congrArg (· + 1) there,forall_update (motive := fun _ at' => at' = .absent ∨ at' = .leaving) (.inr rfl)
      fun u apart => .inl (others u apart)⟩

theorem advance_sound (small : Fintype.card ι < 2^31) (sound : Sound s) (at' : s.places p = place)
    (taken : s.advance p place = some next) : Sound next := by
  have there : place ≠ .absent → place ≠ .leaving → s.countDeletes = 0 := by rw [← at']; exact sound.there
  have knows : Knows s.refCnt place := by rw [← at']; exact sound.knows p
  cases place with
  | absent | live => cases taken
  | copying source =>
    rw [advance] at taken
    split at taken
    · rename_i free
      cases taken
      exact sound.enter at' (there nofun nofun) free nofun rfl rfl rfl nofun trivial
    · cases taken
  | locked source =>
    have here := there nofun nofun
    rw [advance,counting_same here] at taken
    cases taken
    exact sound.inside at' here rfl rfl rfl rfl ⟨nofun,nofun⟩ rfl
  | loaded source count =>
    have here := there nofun nofun
    have seen : s.refCnt = count := knows
    have room := sound.room small here (p := p) (by rw [at']; nofun)
    rw [advance,counting_same here,expect,if_pos (by rw [← seen]; simpa using room)] at taken
    cases taken
    refine sound.store at' here rfl rfl (fun q from' => from') ⟨nofun,nofun⟩ trivial ⟨?_,Nat.succ_pos _⟩
    have joined : census (update s.places p (.raised source)) (·.Counted = true) = _ := census_enter (by rw [at']; nofun) rfl
    rw [joined,← (sound.counted here).1,seen]
  | raised source =>
    cases taken
    exact sound.leave at' rfl nofun nofun rfl rfl fun gone => absurd (there nofun nofun) gone
  | releasing =>
    rw [advance] at taken
    split at taken
    · rename_i free
      cases taken
      exact sound.enter at' (there nofun nofun) free nofun rfl rfl rfl nofun trivial
    · cases taken
  | testing =>
    have here := there nofun nofun
    rw [advance,counting_same here] at taken
    cases taken
    split
    · rename_i several
      exact sound.inside at' here rfl rfl rfl rfl ⟨nofun,nofun⟩ several
    · rename_i last
      have some' := (sound.counted here).2
      exact sound.inside at' here rfl rfl rfl rfl ⟨nofun,nofun⟩ (show s.refCnt = 1 by omega)
  | lower =>
    have here := there nofun nofun
    rw [advance,counting_same here] at taken
    cases taken
    exact sound.inside at' here rfl rfl rfl rfl ⟨nofun,nofun⟩ ⟨rfl,knows⟩
  | lowering count =>
    have here := there nofun nofun
    obtain ⟨seen,several⟩ := knows
    rw [advance,counting_same here] at taken
    cases taken
    refine sound.store at' here rfl rfl nofun ⟨nofun,nofun⟩ trivial ⟨?_,by omega⟩
    have left : census (update s.places p .leaving) (·.Counted = true) + 1 = _ := census_leave (by rw [at']; rfl) nofun
    rw [← (sound.counted here).1] at left
    omega
  | deleting =>
    cases taken
    exact deleting_sound sound at'
  | dropping =>
    cases taken
    exact dropping_sound sound at'
  | leaving =>
    cases taken
    exact sound.leave at' rfl nofun nofun rfl rfl fun _ => rfl

theorem Sound.undeleted (sound : Sound s) (live : s.places p = .live) : s.objectDeletes = 0 := by
  have there := sound.there (by rw [live]; nofun) (by rw [live]; nofun)
  refine (sound.alive fun u dropping => ?_).trans there
  have last : Knows s.refCnt (s.places u) := sound.knows u
  rw [dropping] at last
  have apart : p ≠ u := fun same => by
    rw [same,dropping] at live; cases live
  exact sound.sole there last (by rw [dropping]; rfl) apart (by rw [live]; rfl)

theorem step_sound (small : Fintype.card ι < 2^31) (s : SharedPtr ι) (action : SharedAction ι) (next : SharedPtr ι)
    (sound : Sound s) (admitted : Admitted s action) (taken : step s action = some next) : Sound next := by
  cases action with
  | copy p q =>
    simp only [step,Option.ite_none_right_eq_some,Option.some.injEq] at taken
    obtain ⟨⟨absent,live⟩,rfl⟩ := taken
    have there := sound.there (by rw [live]; nofun) (by rw [live]; nofun)
    refine (sound.quiet ⟨nofun,fun mine => ?_⟩ (fun _ _ => Iff.rfl) ?_
      (by rw [absent]; nofun) trivial (.inl rfl) (fun there => sound.recount there (by rw [absent]; rfl))
      ⟨nofun,by rw [absent]; nofun⟩ (fun gone => absurd there gone) :
      Sound {s with places := update s.places p (.copying q), mtx := s.mtx, refCnt := s.refCnt})
    · have held := (sound.lock p).mpr mine
      rw [absent] at held; cases held
    · intro source same
      cases same
      have apart : q ≠ p := fun same => by
        rw [same,absent] at live; cases live
      exact ⟨apart,live⟩
  | release p =>
    simp only [step,Option.ite_none_right_eq_some,Option.some.injEq] at taken
    obtain ⟨live,rfl⟩ := taken
    have there := sound.there (by rw [live]; nofun) (by rw [live]; nofun)
    refine (sound.quiet ⟨nofun,fun mine => ?_⟩ (fun _ _ => Iff.rfl) nofun
      (fun _ => .inr admitted) trivial (.inl rfl) (fun there => sound.recount there (by rw [live]; rfl))
      ⟨nofun,by rw [live]; nofun⟩ (fun gone => absurd there gone) :
      Sound {s with places := update s.places p .releasing, mtx := s.mtx, refCnt := s.refCnt})
    have held := (sound.lock p).mpr mine
    rw [live] at held; cases held
  | next p => exact advance_sound small sound rfl taken
  | use p =>
    simp only [step,Option.ite_none_right_eq_some,Option.some.injEq] at taken
    obtain ⟨live,rfl⟩ := taken
    rw [expect,if_pos (by simpa using sound.undeleted live)]
    exact sound
  | size p =>
    simp only [step,Option.ite_none_right_eq_some,Option.some.injEq] at taken
    obtain ⟨live,rfl⟩ := taken
    rw [counting_same (sound.there (by rw [live]; nofun) (by rw [live]; nofun))]
    exact sound

structure Exact (s : SharedPtr ι) : Prop where
  safe : s.misuse = 0
  once : s.objectDeletes ≤ 1 ∧ s.countDeletes ≤ 1
  kept : (∃ p, s.places p = .live) → s.objectDeletes = 0 ∧ s.countDeletes = 0
  freed : (∀ p, s.places p = .absent) → s.objectDeletes = 1 ∧ s.countDeletes = 1
  counts : s.mtx = none → s.countDeletes = 0 → s.refCnt = census s.places (·.Outstanding = true)
  moves : (∃ p, s.places p ≠ .absent ∧ s.places p ≠ .live) → ∃ p next, s.step (.next p) = some next

omit [DecidableEq ι] in
theorem Sound.outside (sound : Sound s) (free : s.mtx = none) (p : ι) : (s.places p).Holds ≠ true := fun held => by
  have mine := (sound.lock p).mp held
  rw [free] at mine; cases mine

-- Whoever has the lock can go on; if nobody has it, whoever wants it can.
theorem Sound.moves (sound : Sound s) (busy : s.places p ≠ .absent ∧ s.places p ≠ .live) :
    ∃ p next, s.step (.next p) = some next := by
  cases lock : s.mtx with
  | some q =>
    refine ⟨q,?_⟩
    have held := (sound.lock q).mpr lock
    rw [step]
    cases place : s.places q with
    | absent | copying _ | live | releasing => rw [place] at held; cases held
    | _ => exact ⟨_,rfl⟩
  | none =>
    refine ⟨p,?_⟩
    have outside := sound.outside lock p
    rw [step]
    cases place : s.places p with
    | absent => exact absurd place busy.1
    | live => exact absurd place busy.2
    | copying _ | releasing => exact ⟨_,if_pos lock⟩
    | _ => exact absurd (by rw [place]; rfl) outside

theorem Sound.exact (sound : Sound s) : Exact s := by
  refine ⟨sound.safe,⟨?_,?_⟩,?_,?_,?_,fun ⟨p,busy⟩ => sound.moves busy⟩
  · by_cases dropping : ∃ p, s.places p = .dropping
    · obtain ⟨p,dropping⟩ := dropping
      exact Nat.le_of_eq (sound.dying p dropping).1
    · rw [sound.alive fun p at' => dropping ⟨p,at'⟩]
      by_cases there : s.countDeletes = 0
      · rw [there]; exact Nat.zero_le _
      · exact Nat.le_of_eq (sound.done there).1
  · by_cases there : s.countDeletes = 0
    · rw [there]; exact Nat.zero_le _
    · exact Nat.le_of_eq (sound.done there).1
  · rintro ⟨p,live⟩
    exact ⟨sound.undeleted live,sound.there (by rw [live]; nofun) (by rw [live]; nofun)⟩
  · intro gone
    have deleted : s.countDeletes ≠ 0 := fun there => by
      obtain ⟨exactly,some'⟩ := sound.counted there
      have none' : census s.places (·.Counted = true) = 0 := census_eq_zero.mpr fun p => by rw [gone p]; nofun
      omega
    have one := (sound.done deleted).1
    exact ⟨(sound.alive fun p => by rw [gone p]; nofun).trans one,one⟩
  · intro free there
    rw [(sound.counted there).1]
    refine congrArg Finset.card (Finset.filter_congr fun p _ => ?_)
    have outside := sound.outside free p
    cases place : s.places p with
    | absent | copying _ | live | releasing => simp [Place.Counted,Place.Outstanding]
    | _ => exact absurd (by rw [place]; rfl) outside

-- However the threads that copy, use and release the pointers take turns: the object and its count are
-- deleted once, by the last pointer, and nobody touches them afterwards; no state is stuck at the lock.
theorem shared_object_deleted_once (small : Fintype.card ι < 2^31) (first : ι) (actions : List (SharedAction ι)) (s : SharedPtr ι)
    (admitted : Throughout step Admitted (start first) actions) (ran : run step (start first) actions = some s) : Exact s :=
  (run_keeps (step_sound small) (start_sound first) admitted ran).exact

def pair : List (SharedAction Bool) := [.copy true false,.next true,.use false,.next true,.next true,.next true,
  .release false,.release true,.next false,.next false,.next false,.next false,.next false,
  .next true,.next true,.next true,.next true,.next true]

theorem shared_object_deleted_once_pair : ∃ s, run step (start false) pair = some s ∧ Exact s :=
  ⟨_,rfl,shared_object_deleted_once (by decide) false pair _ (by decide) rfl⟩

end SharedPtr
end LinuxOS.Threads
