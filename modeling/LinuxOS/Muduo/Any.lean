import LinuxOS.Exceptions
import LinuxOS.Machine
import Mathlib.Logic.Function.Basic

namespace LinuxOS.Muduo
open Function (update)
open Machine Exceptions

-- A PlaceHolder<T>: the type that GetType names, and the value.
structure PlaceHolder {Kind : Type} (Val : Kind → Type) where
  type : Kind
  val : Val type

-- The Any objects of a program with their `_holder`, a null pointer being none, and the
-- holders on the heap. `lent` is history: the pointers that GetValAddr returned on objects
-- that have not been assigned to or destroyed since.
structure AnyHeap {Kind : Type} (Val : Kind → Type) where
  holder : Nat → Option (Option Nat) := fun _ => none
  heap : Nat → Option (PlaceHolder Val) := fun _ => none
  lent : List (Nat × Kind × Nat) := []

namespace AnyHeap
variable {Kind : Type} {Val : Kind → Type}

inductive Failure where
  | badAlloc
  | undefined
  deriving DecidableEq

abbrev Call (Val : Kind → Type) := EStateM Failure (AnyHeap Val)

-- `new PlaceHolder<T>(val)`: `answer` is the memory that the allocator finds.
def newHolder (answer : Option Nat) (made : PlaceHolder Val) : Call Val Nat := fun s =>
  match answer with
  | none => .error .badAlloc s
  | some addr => .ok addr {s with heap := update s.heap addr (some made)}

def look (addr : Nat) : Call Val (PlaceHolder Val) := fun s =>
  match s.heap addr with
  | none => .error .undefined s
  | some found => .ok found s

def holderOf (name : Nat) : Call Val (Option Nat) := fun s =>
  match s.holder name with
  | none => .error .undefined s
  | some addr => .ok addr s

def clone (answer : Option Nat) (addr : Nat) : Call Val Nat := do
  newHolder answer (← look addr)

-- `delete _holder`
def destroyHolder : Option Nat → Call Val Unit
  | none => pure ()
  | some addr => do
    let _ ← look addr
    modify fun s => {s with heap := update s.heap addr none}

def empty : Call Val (Option Nat) := pure none

def ofValue (answer : Option Nat) (type : Kind) (val : Val type) : Call Val (Option Nat) :=
  some <$> newHolder answer ⟨type,val⟩

def ofAny (answer : Option Nat) (other : Nat) : Call Val (Option Nat) := do
  match ← holderOf other with
  | none => pure none
  | some addr => some <$> clone answer addr

-- Swap with an object that has no name: a temporary or a parameter.
def swap (name : Nat) (other : Option Nat) : Call Val (Option Nat) := do
  let own ← holderOf name
  modify fun s => {s with
    holder := update s.holder name (some other)
    lent := s.lent.filter (·.1 ≠ name)}
  return own

-- Both assignments: an object is made, swapped with this one and destroyed.
def assign (name : Nat) (make : Call Val (Option Nat)) : Call Val Unit := do
  destroyHolder (← swap name (← make))

def construct (name : Nat) (make : Call Val (Option Nat)) : Call Val Unit := do
  let made ← make
  modify fun s => {s with holder := update s.holder name (some made)}

def destruct (name : Nat) : Call Val Unit := do
  destroyHolder (← holderOf name)
  modify fun s => {s with
    holder := update s.holder name none
    lent := s.lent.filter (·.1 ≠ name)}

def getValAddr [DecidableEq Kind] (name : Nat) (type : Kind) : Call Val (Option Nat) := do
  match ← holderOf name with
  | none => return none
  | some addr =>
    let found ← look addr
    return if type = found.type then some addr else none

def lend [DecidableEq Kind] (name : Nat) (type : Kind) : Call Val Unit := do
  let addr ← getValAddr name type
  modify fun s => {s with lent := addr.toList.map (name,type,·) ++ s.lent}

def write [DecidableEq Kind] (addr : Nat) (type : Kind) (val : Val type) : Call Val Unit := do
  let found ← look addr
  if found.type = type then modify fun s => {s with heap := update s.heap addr (some ⟨type,val⟩)}
  else throw .undefined

inductive Action (Val : Kind → Type) where
  | make (name : Nat)
  | makeValue (name : Nat) (answer : Option Nat) (type : Kind) (val : Val type)
  | makeCopy (name : Nat) (answer : Option Nat) (other : Nat)
  | assignValue (name : Nat) (answer : Option Nat) (type : Kind) (val : Val type)
  | assignAny (name : Nat) (answer : Option Nat) (other : Nat)
  | getValAddr (name : Nat) (type : Kind)
  | write (name addr : Nat) (type : Kind) (val : Val type)
  | destroy (name : Nat)

def call [DecidableEq Kind] : Action Val → Call Val Unit
  | .make name => construct name empty
  | .makeValue name answer type val => construct name (ofValue answer type val)
  | .makeCopy name answer other => construct name (ofAny answer other)
  | .assignValue name answer type val => assign name (ofValue answer type val)
  | .assignAny name answer other => assign name (ofAny answer other)
  | .getValAddr name type => lend name type
  | .write _ addr type val => AnyHeap.write addr type val
  | .destroy name => destruct name

-- bad_alloc is caught by the program; after undefined behaviour there is no state.
def step [DecidableEq Kind] (s : AnyHeap Val) (action : Action Val) : Option (AnyHeap Val) :=
  match call action s with
  | .ok _ next => some next
  | .error .badAlloc next => some next
  | .error .undefined _ => none

-- What the language and the allocator see to: objects are used between construction and destruction,
-- `new` finds memory that is not in use, a pointer is used while it is good.
def Admitted (s : AnyHeap Val) : Action Val → Prop
  | .make name => s.holder name = none
  | .makeValue name answer _ _ => s.holder name = none ∧ ∀ addr ∈ answer, s.heap addr = none
  | .makeCopy name answer other => s.holder name = none ∧ (∀ addr ∈ answer, s.heap addr = none) ∧ s.holder other ≠ none
  | .assignValue name answer _ _ => s.holder name ≠ none ∧ ∀ addr ∈ answer, s.heap addr = none
  | .assignAny name answer other => s.holder name ≠ none ∧ (∀ addr ∈ answer, s.heap addr = none) ∧ s.holder other ≠ none
  | .getValAddr name _ => s.holder name ≠ none
  | .write name addr type _ => (name,type,addr) ∈ s.lent
  | .destroy name => s.holder name ≠ none

-- What an Any is for: each object has a value of its own, or none.
abbrev Values (Val : Kind → Type) := Nat → Option (Option (PlaceHolder Val))

def give (m : Values Val) (name : Nat) (answer : Option Nat) : Option (PlaceHolder Val) → Values Val
  | none => update m name (some none)
  | some value => if answer.isSome then update m name (some (some value)) else m

def follow (m : Values Val) : Action Val → Values Val
  | .make name => update m name (some none)
  | .makeValue name answer type val | .assignValue name answer type val => give m name answer (some ⟨type,val⟩)
  | .makeCopy name answer other | .assignAny name answer other => give m name answer ((m other).join)
  | .getValAddr _ _ => m
  | .write name _ type val => update m name (some (some ⟨type,val⟩))
  | .destroy name => update m name none

-- A holder belongs to one object, and every holder on the heap to some; the objects read as the values.
structure Represents (s : AnyHeap Val) (m : Values Val) : Prop where
  held : ∀ name addr, s.holder name = some (some addr) → s.heap addr ≠ none
  sole : ∀ name other addr, s.holder name = some (some addr) → s.holder other = some (some addr) → name = other
  owned : ∀ addr, s.heap addr ≠ none → ∃ name, s.holder name = some (some addr)
  lent : ∀ name type addr, (name,type,addr) ∈ s.lent → s.holder name = some (some addr) ∧
    ∃ val, s.heap addr = some ⟨type,val⟩
  reads : ∀ name, (s.holder name).map (·.bind s.heap) = m name

variable {s next : AnyHeap Val} {m : Values Val} {name other addr : Nat} {answer old : Option Nat} {type : Kind}
  {made : Option (Nat × PlaceHolder Val)} {make : Call Val (Option Nat)}

theorem start_represents : Represents ({} : AnyHeap Val) fun _ => none := by
  constructor <;> simp

def place (heap : Nat → Option (PlaceHolder Val)) : Option (Nat × PlaceHolder Val) → Nat → Option (PlaceHolder Val)
  | none => heap
  | some (addr,value) => update heap addr (some value)

def drop (heap : Nat → Option (PlaceHolder Val)) : Option Nat → Nat → Option (PlaceHolder Val)
  | none => heap
  | some addr => update heap addr none

def settle (s : AnyHeap Val) (name : Nat) (made : Option (Option (Nat × PlaceHolder Val))) : AnyHeap Val where
  holder := update s.holder name (made.map (·.map Prod.fst))
  heap := drop (place s.heap made.join) (s.holder name).join
  lent := s.lent.filter (·.1 ≠ name)

theorem placed_elsewhere (fresh : ∀ new ∈ made, s.heap new.1 = none) (there : s.heap addr ≠ none) :
    place s.heap made addr = s.heap addr := by
  cases made with
  | none => rfl
  | some new =>
    refine Function.update_of_ne ?_ ..
    rintro rfl
    exact there (fresh new rfl)

theorem dropped_elsewhere {heap : Nat → Option (PlaceHolder Val)} (apart : ∀ gone ∈ old, addr ≠ gone) :
    drop heap old addr = heap addr := by
  cases old with
  | none => rfl
  | some gone => exact Function.update_of_ne (apart gone rfl) ..

theorem Represents.elsewhere (represents : Represents s m) (apart : other ≠ name) (holds : s.holder other = some (some addr))
    {made : Option (Option (Nat × PlaceHolder Val))} (fresh : ∀ new ∈ made.join, s.heap new.1 = none) :
    (settle s name made).heap addr = s.heap addr := by
  refine (dropped_elsewhere fun gone member => ?_).trans (placed_elsewhere fresh (represents.held _ _ holds))
  rintro rfl
  exact apart (represents.sole _ _ _ holds (Option.join_eq_some_iff.mp member))

theorem Represents.newest (represents : Represents s m) {new : Nat × PlaceHolder Val} (fresh : s.heap new.1 = none) :
    (settle s name (some (some new))).heap new.1 = some new.2 := by
  refine (dropped_elsewhere fun gone member => ?_).trans (Function.update_self ..)
  rintro rfl
  exact represents.held _ _ (Option.join_eq_some_iff.mp member) fresh

theorem settle_represents (represents : Represents s m) (made : Option (Option (Nat × PlaceHolder Val)))
    (fresh : ∀ new ∈ made.join, s.heap new.1 = none) :
    Represents (settle s name made) (update m name (made.map (·.map Prod.snd))) := by
  have others : ∀ other, other ≠ name → (settle s name made).holder other = s.holder other := fun other apart =>
    Function.update_of_ne apart ..
  have own : (settle s name made).holder name = made.map (·.map Prod.fst) := Function.update_self ..
  -- the object itself has exactly what was made for it
  have mine : ∀ addr, (settle s name made).holder name = some (some addr) → ∃ value, made = some (some (addr,value)) := by
    intro addr holds
    rw [own] at holds
    match made,holds with
    | some (some (_,value)),rfl => exact ⟨value,rfl⟩
  refine ⟨?_,?_,?_,?_,?_⟩
  · intro other addr holds
    by_cases same : other = name
    · subst other
      obtain ⟨value,rfl⟩ := mine addr holds
      rw [represents.newest (fresh (addr,value) rfl)]
      nofun
    · rw [others other same] at holds
      rw [represents.elsewhere same holds fresh]
      exact represents.held other addr holds
  · intro one two addr first second
    by_cases same : one = name <;> by_cases same' : two = name
    · rw [same,same']
    · subst one
      obtain ⟨value,rfl⟩ := mine addr first
      rw [others two same'] at second
      exact absurd (fresh _ rfl) (represents.held two addr second)
    · subst two
      obtain ⟨value,rfl⟩ := mine addr second
      rw [others one same] at first
      exact absurd (fresh _ rfl) (represents.held one addr first)
    · rw [others one same] at first
      rw [others two same'] at second
      exact represents.sole one two addr first second
  · intro addr live
    by_cases gone : s.holder name = some (some addr)
    · exact absurd (by simp [settle,drop,gone]) live
    · have stays : (settle s name made).heap addr = place s.heap made.join addr :=
        dropped_elsewhere fun _ member same => gone (by rw [same]; exact Option.join_eq_some_iff.mp member)
      rw [stays] at live
      by_cases new : ∃ value, made = some (some (addr,value))
      · obtain ⟨value,rfl⟩ := new
        exact ⟨name,own⟩
      · have was : place s.heap made.join addr = s.heap addr := by
          match made,new with
          | none,_ | some none,_ => rfl
          | some (some (at',value)),new =>
            refine Function.update_of_ne ?_ ..
            rintro rfl
            exact new ⟨value,rfl⟩
        rw [was] at live
        obtain ⟨other,holds⟩ := represents.owned addr live
        have apart : other ≠ name := fun same => gone (same ▸ holds)
        exact ⟨other,(others other apart).trans holds⟩
  · intro other type addr member
    obtain ⟨member,apart⟩ := List.mem_filter.mp member
    have apart : other ≠ name := by simpa using apart
    obtain ⟨holds,val,reads⟩ := represents.lent other type addr member
    exact ⟨(others other apart).trans holds,val,(represents.elsewhere apart holds fresh).trans reads⟩
  · intro other
    by_cases same : other = name
    · subst other
      rw [own,Function.update_self]
      rcases made with _ | _ | ⟨addr,value⟩
      · rfl
      · rfl
      · show some ((settle s name _).heap addr) = some (some value)
        rw [represents.newest (fresh (addr,value) rfl)]
    · rw [others other same,Function.update_of_ne same,← represents.reads other]
      cases holds : s.holder other with
      | none => rfl
      | some addr =>
        cases addr with
        | none => rfl
        | some addr => exact congrArg some (represents.elsewhere same holds fresh)

def Makes (make : Call Val (Option Nat)) (s : AnyHeap Val) (made : Option (Option (Nat × PlaceHolder Val))) : Prop :=
  make s = match made with
    | none => .error .badAlloc s
    | some made => .ok (made.map Prod.fst) {s with heap := place s.heap made}

def offer (answer : Option Nat) : Option (PlaceHolder Val) → Option (Option (Nat × PlaceHolder Val))
  | none => some none
  | some value => answer.map fun addr => some (addr,value)

theorem empty_makes (s : AnyHeap Val) : Makes empty s (some none) := rfl

theorem ofValue_makes (s : AnyHeap Val) (answer : Option Nat) (type : Kind) (val : Val type) :
    Makes (ofValue answer type val) s (offer answer (some ⟨type,val⟩)) := by
  cases answer <;> rfl

theorem ofAny_makes (represents : Represents s m) (there : s.holder other ≠ none) (answer : Option Nat) :
    Makes (ofAny answer other) s (offer answer (m other).join) := by
  rw [← represents.reads other]
  cases holds : s.holder other with
  | none => exact absurd holds there
  | some addr =>
    have found : holderOf other s = .ok addr s := by rw [holderOf,holds]
    unfold Makes ofAny
    rw [bind_apply,found]
    cases addr with
    | none => rfl
    | some addr =>
      cases reads : s.heap addr with
      | none => exact absurd reads (represents.held other addr holds)
      | some value =>
        have looked : look addr s = .ok value s := by rw [look,reads]
        have cloned : clone answer addr s = newHolder answer value s := by rw [clone,bind_apply,looked]
        show EStateM.map some (clone answer addr) s = _
        rw [EStateM.map,cloned]
        simp only [Option.map_some,Option.bind_some,Option.join_some,reads]
        cases answer <;> rfl

def ends (s : AnyHeap Val) (name : Nat) : Option (Option (Nat × PlaceHolder Val)) → EStateM.Result Failure (AnyHeap Val) Unit
  | none => .error .badAlloc s
  | some made => .ok () (settle s name (some made))

theorem construct_run (represents : Represents s m) (new : s.holder name = none) {made : Option (Option (Nat × PlaceHolder Val))}
    (makes : Makes make s made) : construct name make s = ends s name made := by
  have unlent : s.lent.filter (·.1 ≠ name) = s.lent := by
    refine List.filter_eq_self.mpr fun ⟨other,type,addr⟩ member => ?_
    have holds := (represents.lent other type addr member).1
    have apart : other ≠ name := fun same => by
      rw [same,new] at holds; cases holds
    simpa using apart
  unfold construct
  rw [bind_apply,makes]
  cases made with
  | none => rfl
  | some made =>
    show EStateM.Result.ok () _ = EStateM.Result.ok () _
    rw [settle,unlent,new]
    rfl

theorem holderOf_run (holds : s.holder name = some old) : holderOf name s = .ok old s := by
  rw [holderOf,holds]

theorem destroyHolder_run (live : ∀ gone ∈ old, s.heap gone ≠ none) :
    destroyHolder old s = .ok () {s with heap := drop s.heap old} := by
  cases old with
  | none => rfl
  | some gone =>
    cases reads : s.heap gone with
    | none => exact absurd reads (live gone rfl)
    | some value =>
      have looked : look gone s = .ok value s := by rw [look,reads]
      unfold destroyHolder
      dsimp only
      rw [bind_apply,looked]; rfl

-- The old holder is still there when the temporary that has it by then is destroyed.
theorem assign_run (represents : Represents s m) (there : s.holder name ≠ none) {made : Option (Option (Nat × PlaceHolder Val))}
    (makes : Makes make s made) (fresh : ∀ new ∈ made.join, s.heap new.1 = none) : assign name make s = ends s name made := by
  obtain ⟨old,holds⟩ := Option.ne_none_iff_exists'.mp there
  unfold assign
  rw [bind_apply,makes]
  cases made with
  | none => rfl
  | some made =>
    have swapped : swap name (made.map Prod.fst) {s with heap := place s.heap made} = .ok old {
        holder := update s.holder name (some (made.map Prod.fst))
        heap := place s.heap made
        lent := s.lent.filter (·.1 ≠ name)} := by
      unfold swap
      rw [bind_apply,holderOf_run (s := {s with heap := place s.heap made}) holds]; rfl
    dsimp only
    rw [bind_apply,swapped]
    refine (destroyHolder_run fun gone member => ?_).trans ?_
    · show place s.heap made gone ≠ none
      have live := represents.held name gone (holds.trans (congrArg some member))
      have fresh : ∀ new ∈ made, s.heap new.1 = none := fresh
      rw [placed_elsewhere fresh live]
      exact live
    · rw [ends,settle,holds]; rfl

theorem destruct_run (represents : Represents s m) (there : s.holder name ≠ none) :
    destruct name s = .ok () (settle s name none) := by
  obtain ⟨old,holds⟩ := Option.ne_none_iff_exists'.mp there
  have gone : destroyHolder old s = .ok () {s with heap := drop s.heap old} :=
    destroyHolder_run fun gone member => represents.held name gone (holds.trans (congrArg some member))
  unfold destruct
  rw [bind_apply,holderOf_run holds]
  dsimp only
  rw [bind_apply,gone,settle,holds]; rfl

theorem give_offer (m : Values Val) (name : Nat) (answer : Option Nat) (value : Option (PlaceHolder Val)) :
    give m name answer value = match offer answer value with
      | none => m
      | some made => update m name (some (made.map Prod.snd)) := by
  cases value with
  | none => rfl
  | some value => cases answer <;> rfl

theorem offer_fresh {value : Option (PlaceHolder Val)} (unused : ∀ addr ∈ answer, s.heap addr = none) :
    ∀ new ∈ (offer answer value).join, s.heap new.1 = none := by
  intro new member
  cases value with
  | none => cases member
  | some value =>
    cases answer with
    | none => cases member
    | some addr => cases member; exact unused addr rfl

variable [DecidableEq Kind]

theorem getValAddr_run (represents : Represents s m) (there : s.holder name ≠ none) (type : Kind) :
    ∃ addr, getValAddr name type s = .ok addr s ∧
      (∀ at' ∈ addr, s.holder name = some (some at') ∧ ∃ val, s.heap at' = some ⟨type,val⟩) ∧
      (addr.isSome = true ↔ ∃ val, m name = some (some ⟨type,val⟩)) := by
  obtain ⟨holder,holds⟩ := Option.ne_none_iff_exists'.mp there
  have reads := represents.reads name
  rw [holds] at reads
  unfold getValAddr
  rw [bind_apply,holderOf_run holds]
  cases holder with
  | none =>
    refine ⟨none,rfl,nofun,?_⟩
    rw [← reads]
    simp
  | some addr =>
    cases found : s.heap addr with
    | none => exact absurd found (represents.held name addr holds)
    | some value =>
      have looked : look addr s = .ok value s := by rw [look,found]
      have reads : m name = some (some value) := by rw [← reads,← found]; rfl
      dsimp only
      rw [bind_apply,looked,reads]
      by_cases same : type = value.type
      · subst type
        exact ⟨some addr,by simp only [if_true]; rfl,fun at' member => by cases member; exact ⟨holds,value.val,found⟩,
          fun _ => ⟨value.val,rfl⟩,fun _ => rfl⟩
      · refine ⟨none,by simp only [if_neg same]; rfl,nofun,?_⟩
        simp only [Option.isSome_none,Bool.false_eq_true,Option.some.injEq,false_iff]
        rintro ⟨val,rfl⟩
        exact same rfl

theorem lend_represents (represents : Represents s m) (there : s.holder name ≠ none) (type : Kind) :
    ∃ next, lend name type s = .ok () next ∧ Represents next m := by
  obtain ⟨addr,ran,points,_⟩ := getValAddr_run represents there type
  refine ⟨{s with lent := addr.toList.map (name,type,·) ++ s.lent},by rw [lend,bind_apply,ran]; rfl,?_⟩
  refine ⟨represents.held,represents.sole,represents.owned,fun other type' at' member => ?_,represents.reads⟩
  rcases List.mem_append.mp member with new | old
  · obtain ⟨_,found,same⟩ := List.mem_map.mp new
    cases same
    exact points at' (by simpa using found)
  · exact represents.lent other type' at' old

theorem write_represents (represents : Represents s m) (good : (name,type,addr) ∈ s.lent) (val : Val type) :
    ∃ next, AnyHeap.write addr type val s = .ok () next ∧ Represents next (update m name (some (some ⟨type,val⟩))) := by
  obtain ⟨holds,was,reads⟩ := represents.lent name type addr good
  have looked : look addr s = .ok ⟨type,was⟩ s := by rw [look,reads]
  refine ⟨{s with heap := update s.heap addr (some ⟨type,val⟩)},?_,?_,represents.sole,?_,?_,?_⟩
  · unfold AnyHeap.write
    rw [bind_apply,looked]
    dsimp only
    rw [if_pos rfl]; rfl
  · intro other at' own
    by_cases same : at' = addr
    · subst at'; simp
    · simpa [same] using represents.held other at' own
  · intro at' live
    by_cases same : at' = addr
    · subst at'; exact ⟨name,holds⟩
    · exact represents.owned at' (by simpa [same] using live)
  · intro other type' at' member
    obtain ⟨own,val',found⟩ := represents.lent other type' at' member
    refine ⟨own,?_⟩
    by_cases same : at' = addr
    · subst at'
      rw [reads] at found
      cases found
      exact ⟨val,Function.update_self ..⟩
    · exact ⟨val',by simpa [same] using found⟩
  · intro other
    by_cases same : other = name
    · subst other
      rw [Function.update_self,holds]
      simp
    · rw [Function.update_of_ne same,← represents.reads other]
      cases own : s.holder other with
      | none => rfl
      | some at' =>
        cases at' with
        | none => rfl
        | some at' =>
          have apart : at' ≠ addr := fun equal => same (represents.sole other name addr (equal ▸ own) holds)
          simp [apart]

theorem made_represents (represents : Represents s m) {value : Option (PlaceHolder Val)} {action : Action Val}
    (unused : ∀ addr ∈ answer, s.heap addr = none)
    (ran : call action s = ends s name (offer answer value)) :
    ∃ next, step s action = some next ∧ Represents next (give m name answer value) := by
  have fresh : ∀ new ∈ (offer answer value).join, s.heap new.1 = none := offer_fresh unused
  rw [step,ran,give_offer]
  cases made : offer answer value with
  | none => exact ⟨s,rfl,represents⟩
  | some made' =>
    rw [made] at fresh
    exact ⟨_,rfl,settle_represents represents (some made') fresh⟩

theorem step_represents (s : AnyHeap Val) (m : Values Val) (action : Action Val) (represents : Represents s m)
    (admitted : Admitted s action) : ∃ next, step s action = some next ∧ Represents next (follow m action) := by
  cases action with
  | make name =>
    have ran : call (.make name) s = .ok () (settle s name (some none)) := construct_run represents admitted (empty_makes s)
    exact ⟨_,by rw [step,ran],settle_represents represents (some none) nofun⟩
  | makeValue name answer type val =>
    have ran : call (.makeValue name answer type val) s = _ := construct_run represents admitted.1 (ofValue_makes s answer type val)
    exact made_represents represents admitted.2 ran
  | makeCopy name answer other =>
    obtain ⟨new,unused,there⟩ := admitted
    exact made_represents represents unused (construct_run represents new (ofAny_makes represents there answer))
  | assignValue name answer type val =>
    have ran : call (.assignValue name answer type val) s = _ :=
      assign_run represents admitted.1 (ofValue_makes s answer type val) (offer_fresh admitted.2)
    exact made_represents represents admitted.2 ran
  | assignAny name answer other =>
    obtain ⟨old,unused,there⟩ := admitted
    exact made_represents represents unused
      (assign_run represents old (ofAny_makes represents there answer) (offer_fresh unused))
  | getValAddr name type =>
    obtain ⟨next,ran,kept⟩ := lend_represents represents admitted type
    exact ⟨next,by rw [step,call,ran],kept⟩
  | write name addr type val =>
    obtain ⟨next,ran,kept⟩ := write_represents represents admitted val
    exact ⟨next,by rw [step,call,ran],kept⟩
  | destroy name =>
    exact ⟨_,by rw [step,call,destruct_run represents admitted],settle_represents represents none nofun⟩

-- However objects are built, copied, assigned, written through and destroyed: each keeps a value of its own, no
-- holder is used or deleted after its end, none is left over, and GetValAddr tells the type of the value.
theorem any_values (actions : List (Action Val)) (admitted : Throughout step Admitted ({} : AnyHeap Val) actions) :
    ∃ s, run step {} actions = some s ∧ Represents s (actions.foldl follow fun _ => none) ∧
      ∀ name type, s.holder name ≠ none → ((∃ addr, getValAddr name type s = .ok (some addr) s) ↔
        ∃ val, actions.foldl follow (fun _ => none) name = some (some ⟨type,val⟩)) := by
  obtain ⟨s,ran,represents⟩ := run_simulates step_represents start_represents admitted
  refine ⟨s,ran,represents,fun name type there => ?_⟩
  obtain ⟨addr,found,_,exactly⟩ := getValAddr_run represents there type
  rw [found,← exactly]
  constructor
  · rintro ⟨_,same⟩
    cases same; rfl
  · intro some_addr
    obtain ⟨_,rfl⟩ := Option.isSome_iff_exists.mp some_addr
    exact ⟨_,rfl⟩

instance (s : AnyHeap Val) : DecidablePred (Admitted s)
  | .make name => inferInstanceAs (Decidable (s.holder name = none))
  | .makeValue name answer _ _ => inferInstanceAs (Decidable (s.holder name = none ∧ ∀ addr ∈ answer, s.heap addr = none))
  | .makeCopy name answer other =>
    inferInstanceAs (Decidable (s.holder name = none ∧ (∀ addr ∈ answer, s.heap addr = none) ∧ ¬s.holder other = none))
  | .assignValue name answer _ _ => inferInstanceAs (Decidable (¬s.holder name = none ∧ ∀ addr ∈ answer, s.heap addr = none))
  | .assignAny name answer other =>
    inferInstanceAs (Decidable (¬s.holder name = none ∧ (∀ addr ∈ answer, s.heap addr = none) ∧ ¬s.holder other = none))
  | .getValAddr name _ | .destroy name => inferInstanceAs (Decidable (¬s.holder name = none))
  | .write name addr type _ => inferInstanceAs (Decidable ((name,type,addr) ∈ s.lent))

def copied : List (Action fun numeric : Bool => if numeric then Nat else List Nat) :=
  [.makeValue 1 (some 100) true (7 : Nat),.makeCopy 2 (some 200) 1,.getValAddr 2 true,.write 2 200 true (8 : Nat),
    .assignValue 1 (some 300) false [7],.assignAny 1 none 2,.destroy 2]

theorem any_values_copied : ∃ s, run step {} copied = some s ∧ Represents s (copied.foldl follow fun _ => none) ∧
    (∃ addr, getValAddr 1 false s = .ok (some addr) s) := by
  obtain ⟨s,ran,represents,answers⟩ := any_values copied (by decide)
  have there : s.holder 1 ≠ none := fun gone => by
    have reads := represents.reads 1
    rw [gone] at reads
    cases reads
  exact ⟨s,ran,represents,(answers 1 false there).mpr ⟨[7],rfl⟩⟩

end AnyHeap
end LinuxOS.Muduo
