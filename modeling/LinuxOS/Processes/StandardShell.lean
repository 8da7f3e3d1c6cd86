import LinuxOS.CStrings

namespace LinuxOS.Processes
open CStrings

inductive StandardShell.RedirType where
  | noneRedir | inputRedir | appRedir | outputRedir
  deriving DecidableEq, Repr

def StandardShell.maxsize : Nat := 128
def StandardShell.maxargs : Nat := 32

-- The line that main reads into, the table of pointers into it with their number, the
-- redirection, and the pointer that strtok keeps between its calls.
structure StandardShell where
  commandline : Bytes := List.replicate StandardShell.maxsize 0
  gargv : List (Option Nat) := List.replicate StandardShell.maxargs none
  gargc : Nat := 0
  redirType : StandardShell.RedirType := .noneRedir
  filename : Option Nat := none
  saved : Nat := 0
  deriving DecidableEq

namespace StandardShell

def gsep : Bytes := ascii " "

-- The characters that fgets takes: no further than a newline and no more than there is room for.
def fgets : Nat → Bytes → Bytes
  | room+1,c :: stdin => if c = 10 then [c] else c :: fgets room stdin
  | _,_ => []

-- TrimSpace from `start` on, where the array goes on with `cells`.
def trimSpace : Bytes → Nat → Option Nat
  | [],_ => none
  | c :: cells,start => if isspace c then trimSpace cells (start+1) else some start

section
variable (s : StandardShell)

-- What GetCommand returns, and what is left of the input. none is an access outside the array,
-- here and below: of commandline[-1] if fgets has read a zero first.
def getCommand (size : Nat) (stdin : Bytes) : Option (Nat × StandardShell × Bytes) :=
  if stdin = [] then some (0,s,stdin)
  else
    let taken := fgets (size-1) stdin
    (s.commandline.store 0 (taken ++ [0])).bind fun cells =>
      (stringAt cells 0).bind fun text =>
        if text = [] then none
        else (cells.store (text.length-1) [0]).bind fun cells =>
          (stringAt cells 0).map fun text => (text.length,{s with commandline := cells},stdin.drop taken.length)

-- An operator of `width` characters at `start` ends the command; the file's name comes after
-- the white space behind it.
def redirect (start width : Nat) (type : RedirType) : Option StandardShell :=
  (s.commandline.store start (List.replicate width 0)).bind fun cells =>
    (trimSpace (cells.drop (start+width)) (start+width)).map fun name =>
      {s with commandline := cells, redirType := type, filename := some name}

-- The loop of ParseRedir, with as many characters left as there are from `start` to `end`.
def findRedir (start : Nat) : Nat → Option StandardShell
  | 0 => some s
  | left+1 => s.commandline[start]?.bind fun c =>
    if c = 62 then s.commandline[start+1]?.bind fun next =>
      if next = 62 then s.redirect start 2 .appRedir else s.redirect start 1 .outputRedir
    else if c = 60 then s.redirect start 1 .inputRedir
    else findRedir (start+1) left

def parseRedir : Option StandardShell :=
  (stringAt s.commandline 0).bind fun text => findRedir {s with redirType := .noneRedir, filename := none} 0 text.length

end

def put (s : StandardShell) (place : Option Nat) : StandardShell :=
  {s with gargc := s.gargc+1, gargv := s.gargv.set (s.gargc+1) place}

-- The loop of ParseCommand, with as many elements of gargv left as there are after gargv[gargc]:
-- with none left the next pointer is written past the table.
def fillGargv (s : StandardShell) : Nat → Option StandardShell
  | 0 => none
  | room+1 => (strtok gsep s.commandline s.saved).bind fun next =>
    let s := {s.put next.place with commandline := next.cells, saved := next.saved}
    if next.place = none then some s else fillGargv s room

def parseCommand (s : StandardShell) : Option StandardShell :=
  (strtok gsep s.commandline 0).bind fun first =>
    fillGargv {s with commandline := first.cells, saved := first.saved, gargc := 0
                      gargv := (List.replicate maxargs none).set 0 first.place} (maxargs-1)

def parse (s : StandardShell) : Option StandardShell := s.parseRedir.bind parseCommand

def line (s : StandardShell) : Bytes := (stringAt s.commandline 0).getD []

def arguments (s : StandardShell) : List (Option (Option Bytes)) := s.gargv.map fun slot => slot.map (stringAt s.commandline)

def file (s : StandardShell) : Option (Option Bytes) := s.filename.map (stringAt s.commandline)

def ordinary (c : UInt8) : Bool := c ≠ 62 ∧ c ≠ 60

def command (line : Bytes) : Bytes := line.takeWhile ordinary

def redirection (line : Bytes) : Option (RedirType × Bytes) :=
  match line.dropWhile ordinary with
  | [] => none
  | 62 :: 62 :: name => some (.appRedir,name.dropWhile isspace)
  | 62 :: name => some (.outputRedir,name.dropWhile isspace)
  | _ :: name => some (.inputRedir,name.dropWhile isspace)

-- The parsed state says what the line says. The table holds the words and then null pointers,
-- one at least.
structure Parsed (line : Bytes) (s : StandardShell) : Prop where
  arguments : s.arguments = (tokens gsep (command line)).map (some ∘ some) ++
    none :: List.replicate (maxargs - 1 - (tokens gsep (command line)).length) none
  count : s.gargc = (tokens gsep (command line)).length
  type : s.redirType = ((redirection line).map Prod.fst).getD .noneRedir
  file : s.file = (redirection line).map (some ∘ Prod.snd)

variable {s held next : StandardShell} {text name back front rest cells after : Bytes} {places : List Nat}
  {room count start stop place : Nat}

theorem fgets_length (room : Nat) (stdin : Bytes) : (fgets room stdin).length ≤ room := by
  fun_induction fgets room stdin with
  | case1 room stdin => exact Nat.succ_le_succ (Nat.zero_le room)
  | case2 room c stdin other ih => exact Nat.succ_le_succ ih
  | case3 => exact Nat.zero_le _

theorem fgets_line (whole : 10 ∉ text) (room : text.length < size) (more : Bytes) :
    fgets size (text ++ 10 :: more) = text ++ [10] := by
  induction text generalizing size with
  | nil =>
    cases size with
    | zero => cases room
    | succ size => rfl
  | cons c rest ih =>
    cases size with
    | zero => cases room
    | succ size =>
      have other : c ≠ 10 := fun newline => whole (newline ▸ List.mem_cons_self ..)
      have later := ih (fun member => whole (List.mem_cons_of_mem _ member)) (Nat.lt_of_succ_lt_succ room)
      rw [List.cons_append,fgets,if_neg other,later]
      rfl

theorem cut_last (last : UInt8) (back : Bytes) (whole : 0 ∉ text) :
    Bytes.store ((text ++ [last]) ++ 0 :: back) ((text ++ [last]).length-1) [0] = some (text ++ 0 :: 0 :: back) ∧
      stringAt (text ++ 0 :: 0 :: back) 0 = some text := by
  constructor
  · rw [List.length_append,List.length_singleton,Nat.add_sub_cancel,List.append_assoc]
    exact Bytes.store_between text [last] [0] (0 :: back) rfl
  · exact stringAt_start (0 :: back) whole

theorem getCommand_line {stdin : Bytes} (read : s.getCommand maxsize stdin = some (count,held,rest)) (accepted : 0 < count) :
    ∃ text back, held.commandline = text ++ 0 :: back ∧ 0 ∉ text ∧ text.length = count ∧ count ≤ 126 := by
  unfold getCommand at read
  split at read
  · cases read
    cases accepted
  · obtain ⟨cells,stored,read⟩ := Option.bind_eq_some_iff.mp read
    obtain ⟨text,string,read⟩ := Option.bind_eq_some_iff.mp read
    split at read
    · cases read
    · rename_i some_letter
      obtain ⟨cells',cut,read⟩ := Option.bind_eq_some_iff.mp read
      obtain ⟨text',string',read⟩ := Option.map_eq_some_iff.mp read
      cases read
      rw [Bytes.store_front] at stored
      have taken := Option.some.inj (Option.ite_none_right_eq_some.mp stored).2
      have bound : text.length ≤ 127 := by
        rw [← taken,stringAt,List.drop_zero,List.append_assoc] at string
        exact Nat.le_trans (untilZero_length string) (fgets_length _ _)
      obtain ⟨back,shape,whole⟩ := untilZero_shape string
      obtain ⟨front,last,rfl⟩ : ∃ front last, text = front ++ [last] :=
        ⟨_,_,(List.dropLast_append_getLast some_letter).symm⟩
      have inner : 0 ∉ front := fun member => whole (List.mem_append_left _ member)
      obtain ⟨shorter,string⟩ := cut_last last back inner
      rw [List.drop_zero] at shape
      rw [shape,shorter] at cut
      cases cut
      obtain rfl : front = text' := Option.some.inj (string.symm.trans string')
      rw [List.length_append,List.length_singleton] at bound
      exact ⟨front,0 :: back,rfl,inner,rfl,Nat.le_of_succ_le_succ bound⟩

theorem getCommand_accepts (sized : s.commandline.length = maxsize) (whole : 0 ∉ text) (one_line : 10 ∉ text)
    (fits : text.length ≤ 126) (more : Bytes) : ∃ back,
      s.getCommand maxsize (text ++ 10 :: more) = some (text.length,{s with commandline := text ++ 0 :: back},more) := by
  have taken : fgets (maxsize-1) (text ++ 10 :: more) = text ++ [10] :=
    fgets_line one_line (show text.length < 127 by omega) more
  have room : (text ++ [10] ++ [0]).length ≤ s.commandline.length := by
    rw [sized]
    show _ ≤ 128
    simp; omega
  have newline : 0 ∉ text ++ [10] := by simp [whole]
  obtain ⟨shorter,string⟩ := cut_last 10 (s.commandline.drop (text ++ [10] ++ [0]).length) whole
  refine ⟨0 :: s.commandline.drop (text ++ [10] ++ [0]).length,?_⟩
  rw [getCommand,if_neg (by simp)]
  simp only [taken]
  rw [Bytes.store_front,if_pos room,Option.bind_some,List.append_assoc (text ++ [10]),List.singleton_append]
  rw [stringAt_start _ newline,Option.bind_some,if_neg (by simp),shorter,Option.bind_some,string,Option.map_some]
  simp

theorem trimSpace_text (whole : 0 ∉ name) (back : Bytes) (start : Nat) :
    trimSpace (name ++ 0 :: back) start = some (start + (name.takeWhile isspace).length) := by
  induction name generalizing start with
  | nil => rfl
  | cons c rest ih =>
    rw [List.cons_append,trimSpace,List.takeWhile_cons]
    split
    · rw [ih (fun member => whole (List.mem_cons_of_mem _ member)),List.length_cons,Nat.add_assoc,Nat.add_comm 1]
    · rfl

theorem redirect_text {op : Bytes} (shape : s.commandline = front ++ (op ++ (name ++ 0 :: back))) (whole : 0 ∉ name)
    (type : RedirType) :
    s.redirect front.length op.length type =
      some {s with commandline := front ++ (List.replicate op.length 0 ++ (name ++ 0 :: back)), redirType := type
                   filename := some (front.length + op.length + (name.takeWhile isspace).length)} := by
  have ended := Bytes.store_between front op (List.replicate op.length 0) (name ++ 0 :: back) (List.length_replicate ..).symm
  have behind : (front ++ (List.replicate op.length 0 ++ (name ++ 0 :: back))).drop (front.length + op.length) =
      name ++ 0 :: back := by
    rw [List.drop_length_add_append]
    exact List.drop_left' (List.length_replicate ..)
  rw [redirect,shape,ended,Option.bind_some,behind,trimSpace_text whole,Option.map_some]

theorem findRedir_skip (clean : ∀ c ∈ text, ordinary c = true) (shape : s.commandline = front ++ (text ++ rest))
    (left : Nat) :
    s.findRedir front.length (text.length + left) = s.findRedir (front.length + text.length) left := by
  induction text generalizing front with
  | nil => simp
  | cons c text ih =>
    obtain ⟨mine,later⟩ := List.forall_mem_cons.mp clean
    have other : c ≠ 62 ∧ c ≠ 60 := of_decide_eq_true mine
    have here : s.commandline[front.length]? = some c := by rw [shape]; simp
    have next := ih later (show s.commandline = (front ++ [c]) ++ (text ++ rest) by rw [shape]; simp)
    rw [List.length_append,List.length_singleton] at next
    rw [List.length_cons,Nat.succ_add,findRedir,here,Option.bind_some,if_neg other.1,if_neg other.2,next,Nat.add_assoc,
      Nat.add_comm 1]

theorem findRedir_operator (s : StandardShell) (left : Nat) (operator : ordinary c = false)
    (shape : s.commandline = front ++ (c :: (rest ++ 0 :: back))) (found : text.dropWhile ordinary = c :: rest) :
    ∃ op name type, c :: rest = op ++ name ∧ 0 < op.length ∧ redirection text = some (type,name.dropWhile isspace) ∧
      s.findRedir front.length (left+1) = s.redirect front.length op.length type := by
  have here : s.commandline[front.length]? = some c := by rw [shape]; simp
  have next : s.commandline[front.length+1]? = some (rest.headD 0) := by
    rw [shape]
    cases rest <;> simp
  have which : c = 62 ∨ c = 60 := by
    simpa [ordinary,or_iff_not_imp_left] using operator
  unfold redirection
  rw [found,findRedir,here,Option.bind_some,next,Option.bind_some]
  rcases which with rfl | rfl
  · cases rest with
    | nil => exact ⟨[62],[],.outputRedir,rfl,Nat.succ_pos _,rfl,rfl⟩
    | cons d name =>
      by_cases double : d = 62
      · subst double
        exact ⟨[62,62],name,.appRedir,rfl,Nat.succ_pos _,rfl,rfl⟩
      · refine ⟨[62],d :: name,.outputRedir,rfl,Nat.succ_pos _,?_,?_⟩
        · split <;> simp_all
        · rw [if_pos rfl,List.headD_cons,if_neg double]
          rfl
  · exact ⟨[60],rest,.inputRedir,rfl,Nat.succ_pos _,rfl,rfl⟩

theorem file_text (front back : Bytes) (whole : 0 ∉ name) :
    stringAt (front ++ (name ++ 0 :: back)) (front.length + (name.takeWhile isspace).length) = some (name.dropWhile isspace) := by
  have parts : name.takeWhile isspace ++ name.dropWhile isspace = name := List.takeWhile_append_dropWhile
  have inner : 0 ∉ name.dropWhile isspace := fun member => whole (List.dropWhile_subset _ member)
  have string := stringAt_text (front ++ name.takeWhile isspace) back inner
  rwa [List.length_append,List.append_assoc,← List.append_assoc (name.takeWhile isspace),parts] at string

-- ParseRedir ends the command at the first operator; the file's name lies behind that end.
theorem parseRedir_line (shape : s.commandline = text ++ 0 :: back) (whole : 0 ∉ text) : ∃ behind, ∃ place : Option Nat,
    s.parseRedir = some {s with commandline := command text ++ 0 :: behind
                                redirType := ((redirection text).map Prod.fst).getD .noneRedir
                                filename := place.map ((command text).length + ·)} ∧
      place.map (stringAt (0 :: behind)) = (redirection text).map (some ∘ Prod.snd) := by
  have string : stringAt s.commandline 0 = some text := by rw [shape,stringAt_start back whole]
  have parts : command text ++ text.dropWhile ordinary = text := List.takeWhile_append_dropWhile
  have clean : ∀ c ∈ command text, ordinary c = true := List.all_eq_true.mp List.all_takeWhile
  have stop := List.head?_dropWhile_not ordinary text
  have length := congrArg List.length parts
  have cells : s.commandline = command text ++ (text.dropWhile ordinary ++ 0 :: back) := by rw [shape,← List.append_assoc,parts]
  have skip := findRedir_skip (s := {s with redirType := .noneRedir, filename := none}) clean
    (show s.commandline = [] ++ (command text ++ (text.dropWhile ordinary ++ 0 :: back)) from cells) (text.dropWhile ordinary).length
  rw [List.length_append] at length
  rw [List.length_nil,Nat.zero_add] at skip
  rw [parseRedir,string,Option.bind_some,← length,skip]
  cases tail : text.dropWhile ordinary with
  | nil =>
    rw [tail,List.nil_append] at cells
    have nothing : redirection text = none := by rw [redirection,tail]
    refine ⟨back,none,?_,by rw [nothing]; rfl⟩
    rw [nothing,← cells]
    rfl
  | cons c rest =>
    rw [tail] at cells stop
    obtain ⟨op,name,type,split,some_letter,found,taken⟩ := findRedir_operator
      {s with redirType := .noneRedir, filename := none} rest.length stop cells tail
    have inner : 0 ∉ name := by
      rw [← parts,tail,split] at whole
      exact fun member => whole (List.mem_append_right _ (List.mem_append_right _ member))
    rw [split,List.append_assoc] at cells
    have redirected := redirect_text (s := {s with redirType := .noneRedir, filename := none}) cells inner type
    have file := file_text (List.replicate op.length 0) back inner
    obtain ⟨width,op_length⟩ := Nat.exists_eq_succ_of_ne_zero (Nat.ne_of_gt some_letter)
    have ended : List.replicate op.length 0 ++ (name ++ 0 :: back) = 0 :: (List.replicate width 0 ++ (name ++ 0 :: back)) := by
      rw [op_length]
      rfl
    refine ⟨List.replicate width 0 ++ (name ++ 0 :: back),some (op.length + (name.takeWhile isspace).length),?_,?_⟩
    · rw [List.length_cons,taken,redirected,found,ended]
      simp only [Option.map_some,Option.getD_some,Nat.add_assoc]
    · rw [List.length_replicate,ended] at file
      rw [found,Option.map_some,file]
      rfl

def table (places : List Nat) : List (Option Nat) := places.map some ++ List.replicate (maxargs - places.length) none

theorem table_set (places : List Nat) (room : places.length < maxargs) (place : Nat) :
    (table places).set places.length (some place) = table (places ++ [place]) := by
  have split : maxargs - places.length = (maxargs - (places ++ [place]).length) + 1 := by simp; omega
  rw [table,table,split,List.replicate_succ,List.set_append_right _ _ (by simp),List.length_map,Nat.sub_self,
    List.set_cons_zero,List.map_append,List.append_assoc]
  rfl

theorem table_null (places : List Nat) : (table places).set places.length none = table places := by
  rw [table,List.set_append_right _ _ (by simp),List.length_map,Nat.sub_self]
  cases maxargs - places.length <;> rfl

theorem fillGargv_token (s : StandardShell) (called : strtok gsep cells start = some ⟨some place,after,stop⟩) (room : Nat) :
    fillGargv {s with commandline := cells, saved := start} (room+1) =
      fillGargv {s.put (some place) with commandline := after, saved := stop} room := by
  rw [fillGargv,called,Option.bind_some]
  exact if_neg (Option.some_ne_none _)

theorem fillGargv_null (s : StandardShell) (called : strtok gsep cells start = some ⟨none,after,stop⟩) (room : Nat) :
    fillGargv {s with commandline := cells, saved := start} (room+1) =
      some {s.put none with commandline := after, saved := stop} := by
  rw [fillGargv,called,Option.bind_some]
  exact if_pos rfl

-- The loop stays inside the table only if it finds fewer tokens than there are elements left.
theorem fillGargv_room (calls : Calls gsep cells start places after stop)
    (filled : fillGargv {s with commandline := cells, saved := start} room = some next) : places.length < room := by
  induction calls generalizing s room with
  | done called =>
    cases room with
    | zero => cases filled
    | succ room => exact Nat.succ_pos _
  | @token cells next after start place saved stop places called later ih =>
    cases room with
    | zero => cases filled
    | succ room =>
      rw [fillGargv_token s called] at filled
      exact Nat.succ_lt_succ (ih (s := s.put (some place)) filled)

theorem fillGargv_grows (filled : fillGargv s room = some next) : s.gargc < next.gargc := by
  induction room generalizing s with
  | zero => cases filled
  | succ room ih =>
    obtain ⟨token,_,filled⟩ := Option.bind_eq_some_iff.mp filled
    dsimp only at filled
    split at filled
    · cases filled
      exact Nat.lt_succ_self _
    · exact Nat.lt_of_succ_lt (ih filled)

theorem fillGargv_calls (calls : Calls gsep cells start places after stop) {filled : List Nat}
    (count : s.gargc + 1 = filled.length) (held : s.gargv = table filled) (fits : filled.length + places.length < maxargs) :
    fillGargv {s with commandline := cells, saved := start} (maxargs - filled.length) =
      some {s with commandline := after, saved := stop, gargc := (filled ++ places).length, gargv := table (filled ++ places)} := by
  have split : maxargs - filled.length = (maxargs - (filled.length+1)) + 1 := by omega
  induction calls generalizing s filled with
  | done called => rw [split,fillGargv_null s called,put,count,held,table_null,List.append_nil]
  | @token cells next after start place saved stop places called later ih =>
    have room : filled.length + (places.length + 1) < maxargs := fits
    have set := table_set filled (by omega) place
    have length : (filled ++ [place]).length = filled.length + 1 := by simp
    have count' : (s.put (some place)).gargc + 1 = (filled ++ [place]).length := by rw [length,put,count]
    have held' : (s.put (some place)).gargv = table (filled ++ [place]) := by rw [put,count,held,set]
    have more := ih count' held' (by omega) (by omega)
    rw [split,fillGargv_token s called,← length]
    refine more.trans ?_
    rw [List.append_assoc]
    rfl

theorem read_length {strings : List Bytes} (read : places.map (stringAt cells) = strings.map some) :
    places.length = strings.length := by
  rw [← List.length_map (stringAt cells),read,List.length_map]

theorem table_first (place : Nat) : (List.replicate maxargs none).set 0 (some place) = table [place] := rfl

theorem parseCommand_token (called : strtok gsep s.commandline 0 = some ⟨some place,after,stop⟩) :
    s.parseCommand = fillGargv {s with commandline := after, saved := stop, gargc := 0, gargv := table [place]} (maxargs - 1) := by
  rw [parseCommand,called,Option.bind_some,table_first]

theorem parseCommand_words (shape : s.commandline = text ++ 0 :: back) (whole : 0 ∉ text) : ∃ line places stop,
    line.length = text.length ∧ places.map (stringAt (line ++ 0 :: back)) = (tokens gsep text).map some ∧
    (1 ≤ places.length → places.length < maxargs → s.parseCommand = some {s with
      commandline := line ++ 0 :: back, saved := stop, gargc := places.length, gargv := table places}) ∧
    (∀ next, s.parseCommand = some next → 1 ≤ next.gargc ∧ places.length < maxargs) := by
  obtain ⟨line,places,stop,calls,length,strings⟩ := calls_tokens gsep [] back whole
  rw [List.nil_append,List.nil_append,← shape,List.length_nil] at calls
  rw [List.nil_append] at strings
  refine ⟨line,places,stop,length,strings,fun some_word fits => ?_,fun next parsed => ?_⟩
  all_goals cases calls
  case refine_1.done => cases some_word
  case refine_1.token next place saved places called later =>
    have fits : [place].length + places.length < maxargs := by
      rw [Nat.add_comm]
      exact fits
    have filled := fillGargv_calls (s := {s with gargc := 0, gargv := table [place]}) later rfl rfl fits
    rw [List.length_singleton,List.singleton_append] at filled
    rw [parseCommand_token called]
    exact filled
  case refine_2.done called =>
    rw [parseCommand,called,Option.bind_some] at parsed
    exact ⟨fillGargv_grows parsed,by decide⟩
  case refine_2.token next' place saved places called later =>
    rw [parseCommand_token called] at parsed
    have room := fillGargv_room (s := {s with gargc := 0, gargv := table [place]}) later parsed
    exact ⟨fillGargv_grows parsed,Nat.succ_lt_succ room⟩

-- The two ways in which it goes wrong: with too many words it writes past gargv, and without one it
-- counts the null pointer that it writes into gargv[1].
theorem parseCommand_crowded (shape : s.commandline = text ++ 0 :: back) (whole : 0 ∉ text)
    (crowded : maxargs ≤ (tokens gsep text).length) : s.parseCommand = none := by
  obtain ⟨line,places,stop,_,strings,_,only⟩ := parseCommand_words shape whole
  have same := read_length strings
  cases parsed : s.parseCommand with
  | none => rfl
  | some next => exact absurd (only next parsed).2 (Nat.not_lt.mpr (same ▸ crowded))

theorem parseCommand_blank (shape : s.commandline = text ++ 0 :: back) (whole : 0 ∉ text) (blank : ∀ c ∈ text, c ∈ gsep) :
    s.parseCommand = some {s with saved := text.length, gargc := 1, gargv := List.replicate maxargs none} := by
  have first := strtok_none [] back blank whole
  have second := strtok_none text back (List.forall_mem_nil (· ∈ gsep)) List.not_mem_nil
  rw [List.nil_append,← shape,List.length_nil,Nat.zero_add] at first
  rw [List.nil_append,← shape,List.length_nil,Nat.add_zero] at second
  have filled := fillGargv_null {s with gargc := 0, gargv := List.replicate maxargs none} second (maxargs-2)
  rw [parseCommand,first,Option.bind_some]
  exact filled

theorem table_strings {strings : List Bytes} (read : places.map (stringAt cells) = strings.map some)
    (fits : strings.length < maxargs) :
    (table places).map (fun slot => slot.map (stringAt cells)) =
      strings.map (some ∘ some) ++ none :: List.replicate (maxargs - 1 - strings.length) none := by
  have same := read_length read
  have split : maxargs - strings.length = (maxargs - 1 - strings.length) + 1 := by omega
  have words : (places.map some).map (fun slot => slot.map (stringAt cells)) = strings.map (some ∘ some) := by
    calc
      _ = (places.map (stringAt cells)).map some := by
        rw [List.map_map,List.map_map]
        rfl
      _ = _ := by rw [read,List.map_map]
  rw [table,List.map_append,words,List.map_replicate,same,split,List.replicate_succ]
  rfl

theorem parse_line (shape : s.commandline = text ++ 0 :: back) (whole : 0 ∉ text) :
    (∃ parsed, s.parse = some parsed ∧ Parsed text parsed) ↔
      1 ≤ (tokens gsep (command text)).length ∧ (tokens gsep (command text)).length < maxargs := by
  obtain ⟨behind,place,redirected,file⟩ := parseRedir_line shape whole
  have inner : 0 ∉ command text := fun member => whole (List.takeWhile_subset _ member)
  obtain ⟨line,places,stop,length,strings,parses,only⟩ := parseCommand_words (s := {s with
    commandline := command text ++ 0 :: behind, redirType := ((redirection text).map Prod.fst).getD .noneRedir
    filename := place.map ((command text).length + ·)}) rfl inner
  have same := read_length strings
  rw [parse,redirected,Option.bind_some,← same]
  refine ⟨fun ⟨parsed,ran,tells⟩ => ?_,fun ⟨some_word,fits⟩ => ⟨_,parses some_word fits,?_⟩⟩
  · obtain ⟨some_word,fits⟩ := only parsed ran
    rw [tells.count,← same] at some_word
    exact ⟨some_word,fits⟩
  have name : stringAt (line ++ 0 :: behind) ∘ ((command text).length + ·) = stringAt (0 :: behind) := by
    funext k
    rw [Function.comp_apply,← length,stringAt_append]
  refine ⟨table_strings strings (same ▸ fits),same,rfl,?_⟩
  rw [StandardShell.file,Option.map_map,name,file]

theorem standardShell_parses (s : StandardShell) {held : StandardShell} {stdin rest : Bytes} {count : Nat}
    (read : s.getCommand maxsize stdin = some (count,held,rest)) (accepted : 0 < count) :
    (∃ parsed, held.parse = some parsed ∧ Parsed held.line parsed) ↔
      1 ≤ (tokens gsep (command held.line)).length ∧ (tokens gsep (command held.line)).length < maxargs := by
  obtain ⟨text,back,shape,whole,_,_⟩ := getCommand_line read accepted
  have line : held.line = text := by
    rw [StandardShell.line,shape,stringAt_start back whole]
    rfl
  rw [line]
  exact parse_line shape whole

theorem standardShell_parses_ls : ∃ (held parsed : StandardShell) (rest : Bytes),
    ({} : StandardShell).getCommand maxsize (ascii "ls  -a >> out.txt\n") = some (17,held,rest) ∧
      held.parse = some parsed ∧ Parsed held.line parsed := by
  refine ⟨{commandline := ascii "ls  -a >> out.txt" ++ List.replicate 111 0},?_⟩
  have read : ({} : StandardShell).getCommand maxsize (ascii "ls  -a >> out.txt\n") =
    some (17,{commandline := ascii "ls  -a >> out.txt" ++ List.replicate 111 0},[]) := by decide +kernel
  obtain ⟨parsed,ran,tells⟩ := (standardShell_parses {} read (by decide)).mpr (by decide +kernel)
  exact ⟨parsed,[],read,ran,tells⟩

-- A line of 64 characters has room for one word more than gargv has for pointers to words.
theorem standardShell_crowded : ¬∀ (s held : StandardShell) (stdin rest : Bytes) (count : Nat),
    s.getCommand maxsize stdin = some (count,held,rest) → 0 < count → (∃ c ∈ held.line, c ≠ 32) →
      (∀ c ∈ held.line.head?, c ≠ 62 ∧ c ≠ 60) → ∃ parsed, held.parse = some parsed ∧ Parsed held.line parsed := by
  intro all
  have read : ({} : StandardShell).getCommand maxsize ((List.replicate 32 (ascii "a ")).flatten ++ [10]) =
    some (64,{commandline := (List.replicate 32 (ascii "a ")).flatten ++ List.replicate 64 0},[]) := by decide +kernel
  obtain ⟨parsed,ran,_⟩ := all _ _ _ _ _ read (by decide) (by decide +kernel) (by decide +kernel)
  have past : StandardShell.parse {commandline := (List.replicate 32 (ascii "a ")).flatten ++ List.replicate 64 0} = none := by
    decide +kernel
  cases past.symm.trans ran

end StandardShell
end LinuxOS.Processes
