import Mathlib.Data.List.Infix
import LinuxOS.Bytes

namespace LinuxOS.Paths
variable {name : Bytes} {s : Bytes} {dir base extra names : List Bytes}

def segments : Bytes → List Bytes
  | [] => [[]]
  | c :: rest =>
    if c = 47 then [] :: segments rest
    else
      match segments rest with
      | [] => [[c]]
      | s :: more => (c :: s) :: more

-- A name as the system is given it: c_str() ends at the first zero.
def cStr (name : Bytes) : Bytes := name.takeWhile (· ≠ 0)

def firstSegment (name : Bytes) : Bytes := (segments name).headD []
def lastSegment (name : Bytes) : Bytes := (segments name).getLastD []

-- Lexical resolution from a directory, given as the names on the way to it.
-- The parent of the root is the root.
def walk : List Bytes → List Bytes → List Bytes
  | dir,[] => dir
  | dir,s :: rest =>
    if s = [] ∨ s = [46] then walk dir rest
    else if s = [46,46] then walk dir.dropLast rest
    else walk (dir ++ [s]) rest

def start (cwd : List Bytes) (name : Bytes) : List Bytes := if name.head? = some 47 then [] else cwd

def resolve (cwd : List Bytes) (name : Bytes) : List Bytes := walk (start cwd name) (segments name)

def Inside (cwd : List Bytes) (base name : Bytes) : Prop := resolve cwd base <+: resolve cwd name

instance (cwd : List Bytes) (base name : Bytes) : Decidable (Inside cwd base name) := by
  unfold Inside; infer_instance

def Proper (s : Bytes) : Prop := s ≠ [] ∧ s ≠ [46] ∧ s ≠ [46,46]

def Descends : Nat → List Bytes → Prop
  | _,[] => True
  | level,s :: rest =>
    if s = [] ∨ s = [46] then Descends level rest
    else if s = [46,46] then 0 < level ∧ Descends (level - 1) rest
    else Descends (level + 1) rest

theorem cStr_append {x : Bytes} (clean : 0 ∉ x) (y : Bytes) : cStr (x ++ y) = x ++ cStr y :=
  List.takeWhile_append_of_pos fun _ member => decide_eq_true fun zero => clean (zero ▸ member)

theorem cStr_whole (clean : 0 ∉ name) : cStr name = name := by
  have whole := cStr_append clean []
  rwa [List.append_nil,show cStr [] = [] from rfl,List.append_nil] at whole

theorem cStr_zero {x : Bytes} (clean : 0 ∉ x) (y : Bytes) : cStr (x ++ 0 :: y) = x := by
  rw [cStr_append clean]; simp [cStr]

theorem cStr_split (zero : 0 ∈ name) : ∃ back, name = cStr name ++ 0 :: back := by
  obtain ⟨front,back,shape,clean⟩ := List.eq_append_cons_of_mem zero
  exact ⟨back,by rw [shape,cStr_zero clean]⟩

theorem cStr_cut (zero : 0 ∈ name) (more : Bytes) : cStr (name ++ more) = cStr name := by
  obtain ⟨front,back,shape,clean⟩ := List.eq_append_cons_of_mem zero
  rw [shape,List.append_assoc,List.cons_append,cStr_zero clean,cStr_zero clean]

theorem segments_cons (name : Bytes) : segments name = firstSegment name :: (segments name).tail := by
  have nonempty : segments name ≠ [] := by
    cases name with
    | nil => simp [segments]
    | cons c rest =>
      rw [segments]
      split
      · simp
      · split <;> simp
  unfold firstSegment
  cases split : segments name with
  | nil => exact absurd split nonempty
  | cons => rfl

theorem segments_single (single : 47 ∉ name) : segments name = [name] := by
  induction name with
  | nil => rfl
  | cons c rest ih =>
    simp only [List.mem_cons,not_or] at single
    rw [segments,if_neg (Ne.symm single.1),ih single.2]

-- Where two names are written one after the other, the last piece of the first
-- and the first piece of the second become one.
theorem segments_append (x y : Bytes) : segments (x ++ y) =
    (segments x).dropLast ++ (lastSegment x ++ firstSegment y) :: (segments y).tail := by
  induction x with
  | nil => exact segments_cons y
  | cons c x ih =>
    rw [List.cons_append,segments,ih]
    by_cases slash : c = 47
    · have rest := segments_cons x
      rw [if_pos slash]
      simp only [lastSegment,segments,if_pos slash]
      rw [rest]
      rfl
    · rw [if_neg slash]
      simp only [lastSegment,segments,if_neg slash]
      cases pieces : segments x with
      | nil => rw [segments_cons] at pieces; cases pieces
      | cons s more => cases more <;> rfl

theorem segments_last (x : Bytes) : (segments x).dropLast ++ [lastSegment x] = segments x := by
  have whole := segments_append x []
  simp only [List.append_nil] at whole
  conv_rhs => rw [whole]
  simp [firstSegment,segments]

theorem segments_slash (x y : Bytes) : segments (x ++ 47 :: y) = segments x ++ segments y := by
  have rooted : segments (47 :: y) = [] :: segments y := by rw [segments,if_pos rfl]
  have empty : firstSegment (47 :: y) = [] := by rw [firstSegment,rooted]; rfl
  rw [segments_append,empty,rooted,List.append_nil,List.tail_cons,← List.singleton_append,← List.append_assoc,
    segments_last]

theorem firstSegment_slash (x y : Bytes) : firstSegment (x ++ 47 :: y) = firstSegment x := by
  rw [firstSegment,segments_slash,segments_cons x]
  rfl

theorem firstSegment_empty : firstSegment name = [] ↔ name = [] ∨ name.head? = some 47 := by
  cases name with
  | nil => simp [firstSegment,segments]
  | cons c rest =>
    rw [firstSegment,segments]
    split
    · rename_i slash; simp [slash]
    · rename_i other
      split <;> simp [other]

theorem walk_append (dir front back : List Bytes) : walk dir (front ++ back) = walk (walk dir front) back := by
  induction front generalizing dir with
  | nil => rfl
  | cons s front ih =>
    simp only [List.cons_append,walk]
    split
    · exact ih dir
    · split
      · exact ih dir.dropLast
      · exact ih (dir ++ [s])

theorem walk_proper (proper : Proper s) : walk dir (s :: names) = walk (dir ++ [s]) names := by
  rw [walk,if_neg (by simp [proper.1,proper.2.1]),if_neg proper.2.2]

theorem walk_skip (skipped : s = [] ∨ s = [46]) : walk dir (s :: names) = walk dir names := by
  rw [walk,if_pos skipped]

theorem walk_up : walk dir ([46,46] :: names) = walk dir.dropLast names := by
  rw [walk,if_neg (by simp),if_pos rfl]

-- A descending walk that starts deep enough leaves the directories above alone.
theorem walk_below (base extra : List Bytes) (level : Nat) (descends : Descends level names) (deep : level ≤ extra.length) :
    walk (base ++ extra) names = base ++ walk extra names := by
  induction names generalizing level extra with
  | nil => rfl
  | cons s names ih =>
    unfold Descends at descends
    unfold walk
    split at descends
    · rename_i skipped
      rw [if_pos skipped,if_pos skipped]
      exact ih extra level descends deep
    · rename_i other
      rw [if_neg other,if_neg other]
      split at descends
      · rename_i up
        rw [if_pos up,if_pos up]
        have some_extra : extra ≠ [] := List.ne_nil_of_length_pos (by omega)
        rw [List.dropLast_append_of_ne_nil some_extra]
        exact ih extra.dropLast (level - 1) descends.2 (by rw [List.length_dropLast]; omega)
      · rename_i down
        rw [if_neg down,if_neg down,List.append_assoc]
        exact ih (extra ++ [s]) (level + 1) descends (by simp; omega)

theorem descends_deeper (level : Nat) (descends : Descends level names) : Descends (level + 1) names := by
  induction names generalizing level with
  | nil => trivial
  | cons s names ih =>
    unfold Descends at descends ⊢
    split
    · rename_i skipped
      rw [if_pos skipped] at descends
      exact ih level descends
    · rename_i other
      rw [if_neg other] at descends
      split
      · rename_i up
        rw [if_pos up] at descends
        obtain ⟨positive,below⟩ := descends
        have level_eq : level + 1 - 1 = level - 1 + 1 := by omega
        rw [level_eq]
        exact ⟨by omega,ih _ below⟩
      · rename_i down
        rw [if_neg down] at descends
        exact ih _ descends

theorem start_append (named : name ≠ []) (more : Bytes) : start cwd (name ++ more) = start cwd name := by
  cases name with
  | nil => exact absurd rfl named
  | cons => rfl

theorem resolve_below (named : name ≠ []) (more : Bytes) :
    resolve cwd (name ++ 47 :: more) = walk (resolve cwd name) (segments more) := by
  rw [resolve,start_append named,segments_slash,walk_append]
  rfl

theorem segments_clean (name : Bytes) : ∀ s ∈ segments name, 47 ∉ s := by
  induction name with
  | nil => simp [segments]
  | cons c rest ih =>
    rw [segments]
    split
    · simpa using ih
    · rename_i other
      split
      · simpa using Ne.symm other
      · rename_i s more pieces
        rw [pieces] at ih
        intro piece member
        rcases List.mem_cons.mp member with rfl | later
        · simpa [Ne.symm other] using ih s List.mem_cons_self
        · exact ih piece (List.mem_cons_of_mem _ later)

theorem segments_lastSegment (name : Bytes) : segments (lastSegment name) = [lastSegment name] := by
  apply segments_single
  apply segments_clean name
  rw [← segments_last name]
  exact List.mem_append_right _ List.mem_cons_self

theorem prefix_snoc {w : List Bytes} : dir ++ [s] <+: dir ++ w ↔ w.head? = some s := by
  rw [List.prefix_append_right_inj]
  cases w with
  | nil => simp
  | cons a w => simp [List.cons_prefix_cons,eq_comm]

theorem prefix_dropLast {w : List Bytes} : dir <+: dir.dropLast ++ w ↔ dir = [] ∨ w.head? = dir.getLast? := by
  rcases List.eq_nil_or_concat dir with empty | ⟨front,s,shape⟩
  · simp [empty]
  · rw [List.concat_eq_append] at shape
    subst shape
    rw [List.dropLast_concat,prefix_snoc]
    simp

theorem descends_front (level : Nat) (descends : Descends level (dir ++ names)) : Descends level dir := by
  induction dir generalizing level with
  | nil => trivial
  | cons s dir ih =>
    simp only [List.cons_append,Descends] at descends ⊢
    split at descends
    · rename_i skipped
      rw [if_pos skipped]; exact ih level descends
    · rename_i other
      rw [if_neg other]
      split at descends
      · rename_i up
        rw [if_pos up]; exact ⟨descends.1,ih _ descends.2⟩
      · rename_i down
        rw [if_neg down]; exact ih _ descends

-- A walk that one piece more takes too high stands where it began.
theorem descends_spent (extra : List Bytes) (level : Nat) (deep : extra.length = level) (descends : Descends level names)
    (refused : ¬Descends level (names ++ [s])) : s = [46,46] ∧ walk extra names = [] := by
  induction names generalizing level extra with
  | nil =>
    simp only [List.nil_append,Descends] at refused
    split at refused
    · exact absurd trivial refused
    · split at refused
      · rename_i up
        have top : level = 0 := by
          by_contra positive
          exact refused ⟨by omega,trivial⟩
        exact ⟨up,List.length_eq_zero_iff.mp (deep.trans top)⟩
      · exact absurd trivial refused
  | cons t names ih =>
    simp only [List.cons_append,Descends,walk] at descends refused ⊢
    split at descends
    · rename_i skipped
      rw [if_pos skipped] at refused ⊢
      exact ih extra level deep descends refused
    · rename_i other
      rw [if_neg other] at refused ⊢
      split at descends
      · rename_i up
        rw [if_pos up] at refused ⊢
        exact ih extra.dropLast (level - 1) (by rw [List.length_dropLast,deep]) descends.2 fun more => refused ⟨descends.1,more⟩
      · rename_i down
        rw [if_neg down] at refused ⊢
        exact ih (extra ++ [t]) (level + 1) (by rw [List.length_append,deep]; rfl) descends refused

theorem descends_empty (level : Nat) : Descends level (names ++ [[]]) ↔ Descends level names := by
  induction names generalizing level with
  | nil => simp [Descends]
  | cons s names ih => simp only [List.cons_append,Descends,ih]

theorem descends_proper (proper : Proper s) (level : Nat) : Descends level (names ++ [s]) ↔ Descends level names := by
  induction names generalizing level with
  | nil => simp [Descends,proper.1,proper.2.1,proper.2.2]
  | cons t names ih => simp only [List.cons_append,Descends,ih]

-- When a name is appended to a base directory without a slash between them, the
-- base's own last piece decides what the result names.
def Joins (cwd : List Bytes) (base name : Bytes) : Prop :=
  firstSegment name = [] ∨ lastSegment base = [] ∨ lastSegment base = [46,46] ∨
  (lastSegment base = [46] ∧ firstSegment name ≠ [46]) ∨ resolve cwd base = [] ∨
  (walk [] (segments (lastSegment base ++ name))).head? = (resolve cwd base).getLast?

instance (cwd : List Bytes) (base name : Bytes) : Decidable (Joins cwd base name) := by
  unfold Joins; infer_instance

variable {base name f : Bytes} {rest : List Bytes}

theorem descends_swallowed (descends : Descends 0 (f :: rest)) : Descends 1 rest := by
  unfold Descends at descends
  split at descends
  · exact descends_deeper 0 descends
  · split at descends
    · exact absurd descends.1 (by omega)
    · exact descends

theorem walk_swallowed (descends : Descends 0 (f :: rest)) (proper : Proper s) :
    walk dir (s :: rest) = dir ++ walk [s] rest := by
  rw [walk_proper proper]
  exact walk_below dir [s] 1 (descends_swallowed descends) (by simp)

theorem proper_swallowed (last : Bytes) (some_name : f ≠ []) (some_last : last ≠ [])
    (other : last = [46] → f ≠ [46]) : Proper (last ++ f) := by
  cases last with
  | nil => exact absurd rfl some_last
  | cons a last =>
    cases f with
    | nil => exact absurd rfl some_name
    | cons b f =>
      refine ⟨by simp,by simp,?_⟩
      intro dots
      cases last with
      | nil =>
        simp only [List.cons_append,List.nil_append,List.cons.injEq] at dots
        exact other (by rw [dots.1]) (by rw [dots.2.1,dots.2.2])
      | cons c last => simpa using congrArg List.length dots

-- The four shapes of the base's last piece; the first piece of the name is not empty.
theorem joined_inside (some_name : f ≠ []) (last : Bytes) (dir : List Bytes) (descends : Descends 0 (f :: rest)) :
    walk dir [last] <+: walk dir ((last ++ f) :: rest) ↔
      last = [] ∨ last = [46,46] ∨ (last = [46] ∧ f ≠ [46]) ∨ walk dir [last] = [] ∨
      (walk [] ((last ++ f) :: rest)).head? = (walk dir [last]).getLast? := by
  by_cases none_last : last = []
  · subst none_last
    have below := walk_below dir [] 0 descends (by simp)
    rw [List.append_nil] at below
    rw [List.nil_append,below,walk_skip (.inl rfl)]
    simp [walk]
  by_cases here : last = [46]
  · subst here
    have own : walk dir [[46]] = dir := walk_skip (.inr rfl)
    by_cases dot : f = [46]
    · subst dot
      have level : Descends 0 rest := by simpa [Descends] using descends
      have below := walk_below dir.dropLast [] 0 level (by simp)
      rw [List.append_nil] at below
      rw [own,show [46] ++ [46] = ([46,46] : Bytes) from rfl,walk_up,walk_up,below,prefix_dropLast]
      simp
    · have proper := proper_swallowed [46] some_name (by simp) (fun _ => dot)
      rw [own,walk_swallowed descends proper]
      simp [dot]
  by_cases up : last = [46,46]
  · subst up
    have proper := proper_swallowed [46,46] some_name (by simp) (by simp)
    rw [walk_up,walk_swallowed descends proper]
    have inside : walk dir.dropLast [] <+: dir ++ walk [[46,46] ++ f] rest :=
      (List.dropLast_prefix dir).trans (List.prefix_append _ _)
    exact ⟨fun _ => .inr (.inl rfl),fun _ => inside⟩
  · have proper := proper_swallowed last some_name none_last (fun same => absurd same here)
    have own : walk dir [last] = dir ++ [last] := walk_proper ⟨none_last,here,up⟩
    rw [own,walk_swallowed descends proper,prefix_snoc,walk_proper proper]
    simp [none_last,here,up]

theorem append_walks (cwd : List Bytes) (named : base ≠ []) (pieces : segments name = firstSegment name :: rest) :
    ∃ dir, resolve cwd base = walk dir [lastSegment base] ∧
      resolve cwd (base ++ name) = walk dir ((lastSegment base ++ firstSegment name) :: rest) := by
  refine ⟨walk (start cwd base) (segments base).dropLast,?_,?_⟩
  · rw [resolve,← segments_last base,walk_append,segments_last]
  · rw [resolve,start_append named,segments_append,walk_append,pieces]
    rfl

theorem append_inside (named : base ≠ []) (descends : Descends 0 (segments name)) :
    Inside cwd base (base ++ name) ↔ Joins cwd base name := by
  obtain ⟨rest,pieces⟩ : ∃ rest, segments name = firstSegment name :: rest := ⟨_,segments_cons name⟩
  obtain ⟨dir,own,joined⟩ := append_walks cwd named pieces
  have alone : segments (lastSegment base ++ name) = (lastSegment base ++ firstSegment name) :: rest := by
    have same : lastSegment (lastSegment base) = lastSegment base := by
      show (segments (lastSegment base)).getLastD [] = _
      rw [segments_lastSegment]
      rfl
    rw [segments_append,segments_lastSegment,pieces,same]
    rfl
  rw [pieces] at descends
  rw [Inside,Joins,joined,alone,own]
  by_cases some_name : firstSegment name = []
  · rw [some_name] at descends ⊢
    have level : Descends 0 rest := by simpa [Descends] using descends
    have below := walk_below (walk dir [lastSegment base]) [] 0 level (by simp)
    rw [List.append_nil] at below
    have split : walk dir (lastSegment base :: rest) = walk (walk dir [lastSegment base]) rest :=
      walk_append dir [lastSegment base] rest
    rw [List.append_nil,split,below]
    simp
  · rw [joined_inside some_name _ dir descends]
    simp [some_name]

theorem prefix_up : dir <+: dir.dropLast ↔ dir = [] := by
  have above : dir <+: dir.dropLast ++ [] ↔ _ := prefix_dropLast
  rw [List.append_nil] at above
  rw [above]
  simp [eq_comm]

theorem walk_spent (descends : Descends 0 (f :: rest)) (refused : ¬Descends 0 (f :: rest ++ [[46,46]])) (some_name : f ≠ [])
    (x : Bytes) : (f = [46] ∧ walk [x] rest = [x]) ∨ (f ≠ [46] ∧ walk [x] rest = []) := by
  simp only [List.cons_append,Descends] at descends refused
  by_cases here : f = [46]
  · rw [if_pos (.inr here)] at descends refused
    have spent := (descends_spent [] 0 rfl descends refused).2
    have below := walk_below [x] [] 0 descends (Nat.le_refl 0)
    rw [List.append_nil,spent] at below
    exact .inl ⟨here,below⟩
  · have other : ¬(f = [] ∨ f = [46]) := not_or.mpr ⟨some_name,here⟩
    rw [if_neg other] at descends refused
    split at descends
    · exact absurd descends.1 (Nat.lt_irrefl 0)
    · rename_i down
      rw [if_neg down] at refused
      exact .inr ⟨here,(descends_spent [x] 1 rfl descends refused).2⟩

theorem spent_inside (some_name : f ≠ []) (last : Bytes) (dir : List Bytes) (descends : Descends 0 (f :: rest))
    (refused : ¬Descends 0 (f :: rest ++ [[46,46]])) :
    walk dir [last] <+: (walk dir ((last ++ f) :: rest)).dropLast ↔ walk dir [last] = [] ∨ last = [46,46] := by
  by_cases none_last : last = []
  · subst none_last
    have spent := (descends_spent [] 0 rfl descends refused).2
    have below := walk_below dir [] 0 descends (Nat.le_refl 0)
    rw [List.append_nil,spent,List.append_nil] at below
    rw [List.nil_append,below,walk_skip (.inl rfl)]
    simpa [walk] using prefix_up
  by_cases here : last = [46]
  · subst here
    have own : walk dir [[46]] = dir := walk_skip (.inr rfl)
    rw [own]
    rcases walk_spent descends refused some_name ([46] ++ f) with ⟨dot,kept⟩ | ⟨other,kept⟩
    · subst dot
      have level : Descends 0 rest := by simpa [Descends] using descends
      have refused : ¬Descends 0 (rest ++ [[46,46]]) := by simpa [Descends] using refused
      have below := walk_below dir.dropLast [] 0 level (Nat.le_refl 0)
      rw [List.append_nil,(descends_spent [] 0 rfl level refused).2,List.append_nil] at below
      rw [show [46] ++ [46] = ([46,46] : Bytes) from rfl,walk_up,below]
      constructor
      · intro inside
        exact .inl (prefix_up.mp (inside.trans (List.dropLast_prefix _)))
      · rintro (rfl | impossible)
        · exact List.nil_prefix
        · cases impossible
    · have proper := proper_swallowed [46] some_name (by simp) (fun _ => other)
      rw [walk_swallowed descends proper,kept,List.append_nil]
      simpa using prefix_up
  have proper := proper_swallowed last some_name none_last (fun same => absurd same here)
  rw [walk_swallowed descends proper]
  by_cases up : last = [46,46]
  · subst up
    refine iff_of_true ?_ (.inr rfl)
    rw [walk_up]
    rcases walk_spent descends refused some_name ([46,46] ++ f) with ⟨_,kept⟩ | ⟨_,kept⟩
    · rw [kept,List.dropLast_concat]; exact List.dropLast_prefix dir
    · rw [kept,List.append_nil]; exact List.prefix_refl _
  · have own : walk dir [last] = dir ++ [last] := walk_proper ⟨none_last,here,up⟩
    rw [own]
    refine iff_of_false (fun inside => ?_) (by simp [up])
    have short := inside.length_le
    rcases walk_spent descends refused some_name (last ++ f) with ⟨_,kept⟩ | ⟨_,kept⟩
    · rw [kept,List.dropLast_concat,List.length_append,List.length_singleton] at short; omega
    · rw [kept,List.append_nil,List.length_dropLast,List.length_append,List.length_singleton] at short; omega

theorem dots_inside (last : Bytes) (dir : List Bytes) :
    walk dir [last] <+: walk dir [last ++ [46,46]] ↔ walk dir [last] = [] ∨ last = [46,46] ∨ last = [46] := by
  by_cases none_last : last = []
  · subst none_last
    rw [List.nil_append,walk_up,walk_skip (.inl rfl)]
    simpa [walk] using prefix_up
  have proper : Proper (last ++ [46,46]) := proper_swallowed last (by simp) none_last (fun _ => by simp)
  have grown : walk dir [last ++ [46,46]] = dir ++ [last ++ [46,46]] := walk_proper proper
  rw [grown]
  by_cases here : last = [46]
  · subst here
    rw [walk_skip (.inr rfl)]
    exact iff_of_true (List.prefix_append ..) (.inr (.inr rfl))
  by_cases up : last = [46,46]
  · subst up
    rw [walk_up]
    exact iff_of_true ((List.dropLast_prefix dir).trans (List.prefix_append ..)) (.inr (.inl rfl))
  · have own : walk dir [last] = dir ++ [last] := walk_proper ⟨none_last,here,up⟩
    rw [own,prefix_snoc]
    simp [here,up]

-- A name that ends in a ".." that leads above it: only a first piece that was swallowed
-- can make up for that.
theorem append_escaping {front : List Bytes} (named : base ≠ []) (pieces : segments name = front ++ [[46,46]])
    (descends : Descends 0 front) (refused : ¬Descends 0 (segments name)) :
    Inside cwd base (base ++ name) ↔ resolve cwd base = [] ∨ (lastSegment base = [46,46] ∧ firstSegment name ≠ []) ∨
      (lastSegment base = [46] ∧ firstSegment name = [46,46]) := by
  rw [Inside]
  cases front with
  | nil =>
    have first : firstSegment name = [46,46] := by rw [firstSegment,pieces]; rfl
    have pieces : segments name = firstSegment name :: [] := by rw [pieces,first]; rfl
    obtain ⟨dir,own,joined⟩ := append_walks cwd named pieces
    rw [joined,own,first,dots_inside]
    simp
  | cons f rest =>
    have first : firstSegment name = f := by rw [firstSegment,pieces]; rfl
    have shape : segments name = firstSegment name :: (rest ++ [[46,46]]) := by rw [pieces,first]; rfl
    obtain ⟨dir,own,joined⟩ := append_walks cwd named shape
    have notDots : f ≠ [46,46] := by
      rintro rfl
      exact absurd descends.1 (Nat.lt_irrefl 0)
    rw [pieces] at refused
    have up : walk dir ((lastSegment base ++ f) :: (rest ++ [[46,46]])) = (walk dir ((lastSegment base ++ f) :: rest)).dropLast := by
      rw [← List.cons_append,walk_append,walk_up]; rfl
    rw [joined,own,first,up]
    by_cases some_name : f = []
    · subst some_name
      have level : Descends 0 rest := by simpa [Descends] using descends
      have refused : ¬Descends 0 (rest ++ [[46,46]]) := by simpa [Descends] using refused
      have below := walk_below (walk dir [lastSegment base]) [] 0 level (Nat.le_refl 0)
      rw [List.append_nil,(descends_spent [] 0 rfl level refused).2,List.append_nil] at below
      have split : walk dir (lastSegment base :: rest) = walk (walk dir [lastSegment base]) rest :=
        walk_append dir [lastSegment base] rest
      rw [List.append_nil,split,below]
      simpa using prefix_up
    · rw [spent_inside some_name _ dir descends refused]
      simp [some_name,notDots]

end LinuxOS.Paths
