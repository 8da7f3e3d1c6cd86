import LinuxOS.CStrings
import LinuxOS.Machine

namespace LinuxOS.Processes
open Machine

-- What GetUserCommand leaves in `command`: a C string that fits.
structure Line where
  text : Bytes
  terminated : 0 ∉ text
  fits : text.length ≤ 510

inductive RedirType where
  | noneRedir | inputRedir | otputRedir | appendRedir
  deriving DecidableEq, Repr

-- An element of argv: null, a word of this line, or a pointer that an earlier line left
-- and that now points somewhere into this one.
inductive Slot where
  | null
  | word (text : Bytes)
  | stale
  deriving DecidableEq, Repr

def Slot.aged : Slot → Slot
  | .null => .null
  | _ => .stale

structure MyShell where
  argv : List Slot := List.replicate 512 .null
  filename : Bytes := []
  redirtype : RedirType := .noneRedir

-- What the loop derives from a line: argv[0] and argv[1], whether argv[2] is set (all
-- that CheckBuiltin asks of it), whether the command is a built-in one (none where
-- CheckBuiltin dereferences a null pointer), and what an external one is redirected to.
structure Results where
  argv0 : Slot
  argv1 : Slot
  argv2 : Bool
  builtin : Option Bool
  redirection : Option (RedirType × Bytes)
  deriving DecidableEq

namespace MyShell

def skipSpace (redir : Bytes) : Bytes := redir.dropWhile (· = 32)

-- The first redirection of a line: the command before it, its type and its file.
def findRedir : Bytes → Option (Bytes × RedirType × Bytes)
  | [] => none
  | 60 :: redir => some ([],.inputRedir,skipSpace redir)
  | 62 :: 62 :: redir => some ([],.appendRedir,skipSpace redir)
  | 62 :: redir => some ([],.otputRedir,skipSpace redir)
  | c :: redir => (findRedir redir).map fun found => (c :: found.1,found.2)

-- strtok at blanks.
def words (command : Bytes) : List Bytes := (command.splitOn 32).filter (· ≠ [])

variable (s : MyShell)

def slot (i : Nat) : Slot := s.argv.getD i .null

-- The new line takes the place of the one that argv points into.
def getUserCommand : MyShell := {s with argv := s.argv.map Slot.aged}

def checkRedir (command : Bytes) : Bytes × MyShell :=
  match findRedir command with
  | none => (command,s)
  | some (before,type,name) => (before,{s with filename := name, redirtype := type})

-- argv is written up to the null pointer that ends it; the second strtok is called
-- even if the first one found nothing.
def splitCommand (command : Bytes) : MyShell :=
  let written := match words command with
    | [] => [.null,.null]
    | found => found.map .word ++ [.null]
  {s with argv := written ++ s.argv.drop written.length}

def checkBuiltin : Option Bool :=
  match s.slot 0 with
  | .word name =>
    if name = ascii "cd" then some true
    else if name = ascii "echo" then
      match s.slot 1 with
      | .null => none
      | _ => some true
    else some false
  | _ => none

def read (l : Line) : MyShell :=
  let (command,s) := s.getUserCommand.checkRedir l.text
  s.splitCommand command

def redirected : Option (RedirType × Bytes) :=
  if s.redirtype = .noneRedir then none else some (s.redirtype,s.filename)

def results (l : Line) : Results :=
  let s := s.read l
  {argv0 := s.slot 0, argv1 := s.slot 1, argv2 := s.slot 2 ≠ .null, builtin := s.checkBuiltin
   redirection := if s.checkBuiltin = some false then s.redirected else none}

-- One turn of the main loop: a built-in command goes on with the next line, and
-- ExcuteCommand resets the redirection.
def turn (l : Line) : Option MyShell :=
  let s := s.read l
  match s.checkBuiltin with
  | none => none
  | some true => some s
  | some false => some {s with redirtype := .noneRedir}

end MyShell

open MyShell
namespace Line
variable (l : Line)

def command : Bytes := ((findRedir l.text).map Prod.fst).getD l.text

def redirection : Option (RedirType × Bytes) := (findRedir l.text).map Prod.snd

def argv : List Bytes := words l.command

def builtin : Option Bool :=
  match l.argv with
  | [] => none
  | name :: rest =>
    if name = ascii "cd" then some true
    else if name = ascii "echo" then if rest = [] then none else some true
    else some false

end Line

-- What earlier lines leave behind: a third word, if the last of them with two words or
-- more had one; and the last redirection of the built-in lines after the last external one.
def staleThird : List Line → Bool
  | [] => false
  | l :: older => if 2 ≤ l.argv.length then 3 ≤ l.argv.length else staleThird older

def leftover : List Line → Option (RedirType × Bytes)
  | [] => none
  | l :: older => if l.builtin = some false then none else l.redirection.or (leftover older)

variable {s next : MyShell} {l : Line} {older lines : List Line} {command : Bytes}

theorem findRedir_type {before name : Bytes} {type : RedirType} (text : Bytes)
    (found : findRedir text = some (before,type,name)) : type ≠ .noneRedir := by
  induction text generalizing before with
  | nil => cases found
  | cons c redir ih =>
    unfold findRedir at found
    split at found
    · cases found
    · cases found; decide
    · cases found; decide
    · cases found; decide
    · rename_i equal
      cases equal
      obtain ⟨⟨front,kind,file⟩,later,equal⟩ := Option.map_eq_some_iff.mp found
      cases equal
      exact ih later

theorem words_tokens (command : Bytes) : words command = CStrings.tokens [32] command := by
  have same : (fun c : UInt8 => c == 32) = fun c => decide (c ∈ [32]) := by
    funext c
    simp [Bool.beq_eq_decide_eq]
  rw [words,CStrings.tokens,List.splitOn_eq_splitOnP,same]

theorem words_calls (back : Bytes) (whole : 0 ∉ command) : ∃ line places stop,
    CStrings.Calls [32] (command ++ 0 :: back) 0 places (line ++ 0 :: back) stop ∧
      places.map (CStrings.stringAt (line ++ 0 :: back)) = (words command).map some := by
  obtain ⟨line,places,stop,calls,_,strings⟩ := CStrings.calls_tokens [32] [] back whole
  rw [← words_tokens] at strings
  exact ⟨line,places,stop,calls,strings⟩

theorem splitCommand_slot (s : MyShell) (command : Bytes) : (s.splitCommand command).slot 2 =
    if 2 ≤ (words command).length then ((words command)[2]?.map Slot.word).getD .null else s.slot 2 := by
  unfold splitCommand slot
  match found : words command with
  | [] => simp
  | [a] => simp
  | [a,b] => simp
  | a :: b :: c :: rest => simp

theorem splitCommand_first (s : MyShell) (command : Bytes) :
    (s.splitCommand command).slot 0 = ((words command)[0]?.map Slot.word).getD .null ∧
      (s.splitCommand command).slot 1 = ((words command)[1]?.map Slot.word).getD .null := by
  unfold splitCommand slot
  match found : words command with
  | [] => simp
  | [a] => simp
  | a :: b :: rest => simp

theorem checkRedir_line (s : MyShell) (l : Line) : (s.checkRedir l.text).1 = l.command ∧
    (s.checkRedir l.text).2.argv = s.argv ∧ (s.checkRedir l.text).2.redirected = l.redirection.or s.redirected := by
  unfold checkRedir Line.command Line.redirection
  cases found : findRedir l.text with
  | none => exact ⟨rfl,rfl,rfl⟩
  | some parts =>
    obtain ⟨before,type,name⟩ := parts
    refine ⟨rfl,rfl,?_⟩
    rw [redirected,if_neg (findRedir_type l.text found)]
    rfl

theorem aged_null {place : Slot} : place.aged = .null ↔ place = .null := by
  cases place <;> simp [Slot.aged]

theorem getUserCommand_slot (s : MyShell) (i : Nat) : s.getUserCommand.slot i = .null ↔ s.slot i = .null := by
  unfold getUserCommand slot
  simp only [List.getD_eq_getElem?_getD,List.getElem?_map]
  cases s.argv[i]? with
  | none => simp
  | some place => simp [aged_null]

theorem read_line (s : MyShell) (l : Line) :
    (s.read l).slot 0 = (l.argv[0]?.map Slot.word).getD .null ∧ (s.read l).slot 1 = (l.argv[1]?.map Slot.word).getD .null ∧
    ((s.read l).slot 2 ≠ .null ↔ if 2 ≤ l.argv.length then 3 ≤ l.argv.length else s.slot 2 ≠ .null) ∧
    (s.read l).redirected = l.redirection.or s.redirected := by
  obtain ⟨command,argv,redirected⟩ := checkRedir_line s.getUserCommand l
  have first := splitCommand_first (s.getUserCommand.checkRedir l.text).2 l.command
  have third := splitCommand_slot (s.getUserCommand.checkRedir l.text).2 l.command
  have whole : s.read l = (s.getUserCommand.checkRedir l.text).2.splitCommand l.command := by rw [← command]; rfl
  have kept : (s.getUserCommand.checkRedir l.text).2.slot 2 = .null ↔ s.slot 2 = .null := by
    rw [slot,argv]
    exact getUserCommand_slot s 2
  rw [whole]
  refine ⟨first.1,first.2,?_,redirected⟩
  rw [third]
  show (if 2 ≤ l.argv.length then (l.argv[2]?.map Slot.word).getD .null else _) ≠ Slot.null ↔ _
  split
  · cases found : l.argv[2]? with
    | none =>
      have short := List.getElem?_eq_none_iff.mp found
      simp
      omega
    | some word =>
      have long := (List.getElem?_eq_some_iff.mp found).1
      simp
      omega
  · exact not_congr kept

theorem checkBuiltin_line (s : MyShell) (l : Line) : (s.read l).checkBuiltin = l.builtin := by
  obtain ⟨zero,one,_,_⟩ := read_line s l
  unfold checkBuiltin Line.builtin
  rw [zero,one]
  cases l.argv with
  | nil => rfl
  | cons name rest =>
    cases rest with
    | nil => simp
    | cons word rest => simp

structure Left (s : MyShell) (older : List Line) : Prop where
  third : s.slot 2 ≠ .null ↔ staleThird older = true
  redirected : s.redirected = leftover older

theorem start_left : Left {} [] := by
  have empty : ({} : MyShell).slot 2 = .null := rfl
  refine ⟨⟨fun set => absurd empty set,fun stale => ?_⟩,rfl⟩
  cases stale

theorem Left.turn (left : Left s older) (turned : s.turn l = some next) : Left next (l :: older) := by
  obtain ⟨_,_,third,redirected⟩ := read_line s l
  have slot2 : (s.read l).slot 2 ≠ .null ↔ staleThird (l :: older) = true := by
    rw [third,staleThird]
    split
    · exact decide_eq_true_iff.symm
    · exact left.third
  simp only [MyShell.turn,checkBuiltin_line] at turned
  cases kind : l.builtin with
  | none => rw [kind] at turned; cases turned
  | some inner =>
    rw [kind] at turned
    cases inner with
    | true =>
      cases turned
      exact ⟨slot2,by rw [redirected,left.redirected,leftover,if_neg (by simp [kind])]⟩
    | false =>
      cases turned
      exact ⟨slot2,by rw [leftover,if_pos kind]; rfl⟩

theorem run_left (left : Left s older) (ran : run MyShell.turn s lines = some next) : Left next (lines.reverse ++ older) := by
  induction lines generalizing s older with
  | nil => cases ran; exact left
  | cons l lines ih =>
    obtain ⟨middle,turned,rest⟩ := Option.bind_eq_some_iff.mp ran
    have later := ih (left.turn turned) rest
    rwa [List.reverse_cons,List.append_assoc]

theorem results_line (s : MyShell) (l : Line) : s.results l =
    {argv0 := (l.argv[0]?.map Slot.word).getD .null, argv1 := (l.argv[1]?.map Slot.word).getD .null
     argv2 := if 2 ≤ l.argv.length then 3 ≤ l.argv.length else s.slot 2 ≠ .null
     builtin := l.builtin
     redirection := if l.builtin = some false then l.redirection.or s.redirected else none} := by
  obtain ⟨zero,one,third,redirected⟩ := read_line s l
  have set : decide ((s.read l).slot 2 ≠ .null) =
      if 2 ≤ l.argv.length then decide (3 ≤ l.argv.length) else decide (s.slot 2 ≠ .null) := by
    split at third
    · rename_i two
      rw [if_pos two]
      exact decide_eq_decide.mpr third
    · rename_i fewer
      rw [if_neg fewer]
      exact decide_eq_decide.mpr third
  show Results.mk _ _ _ _ _ = _
  rw [zero,one,set,checkBuiltin_line,redirected]

-- After which histories the loop makes the same of a line: a line with fewer than two
-- words finds the third slot as they left it, and an external command without a
-- redirection of its own finds theirs.
theorem results_same (first second : List Line) (l : Line) {s t : MyShell} (ran : run MyShell.turn {} first = some s)
    (ran' : run MyShell.turn {} second = some t) :
    s.results l = t.results l ↔
      (l.argv.length < 2 → staleThird first.reverse = staleThird second.reverse) ∧
      (l.builtin = some false → l.redirection = none → leftover first.reverse = leftover second.reverse) := by
  have left := run_left start_left ran
  have left' := run_left start_left ran'
  rw [List.append_nil] at left left'
  have third : decide (s.slot 2 ≠ .null) = staleThird first.reverse := by
    rw [Bool.eq_iff_iff,decide_eq_true_iff]
    exact left.third
  have third' : decide (t.slot 2 ≠ .null) = staleThird second.reverse := by
    rw [Bool.eq_iff_iff,decide_eq_true_iff]
    exact left'.third
  rw [results_line,results_line,left.redirected,left'.redirected,third,third']
  simp only [Results.mk.injEq,true_and]
  refine and_congr ?_ ?_
  · by_cases two : 2 ≤ l.argv.length
    · simp [two,Nat.not_lt.mpr two]
    · simp [two,Nat.lt_of_not_le two]
  · by_cases external : l.builtin = some false
    · cases l.redirection with
      | none => simp [external]
      | some own => simp
    · simp [external]

theorem results_same_cd : ∃ s t : MyShell, run MyShell.turn {} [⟨ascii "cd /tmp",by decide,by decide⟩] = some s ∧
    run MyShell.turn {} [] = some t ∧
    s.results ⟨ascii "ls",by decide,by decide⟩ = t.results ⟨ascii "ls",by decide,by decide⟩ :=
  ⟨_,_,rfl,rfl,(results_same [⟨ascii "cd /tmp",by decide,by decide⟩] [] ⟨ascii "ls",by decide,by decide⟩ rfl rfl).mpr
    ⟨fun _ => by decide,fun _ _ => by decide⟩⟩

-- After `cd /tmp > out`, which is not an external command, `ls` writes to `out`.
theorem results_redirected : ¬∀ (first second : List Line) (l : Line) (s t : MyShell),
    run MyShell.turn {} first = some s → run MyShell.turn {} second = some t → s.results l = t.results l := by
  intro same
  have equal := same [⟨ascii "cd /tmp > out",by decide,by decide⟩] [] ⟨ascii "ls",by decide,by decide⟩ _ _ rfl rfl
  have sent := congrArg Results.redirection equal
  revert sent
  decide

end LinuxOS.Processes
