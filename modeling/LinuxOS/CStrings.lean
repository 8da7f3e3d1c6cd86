import LinuxOS.Bytes

namespace LinuxOS.CStrings
variable {seps cells front back text blanks token more : Bytes} {sep : UInt8} {start : Nat}

-- The C string that begins at a place; none if no zero ends it inside the array.
def untilZero : Bytes → Option Bytes
  | [] => none
  | c :: rest => if c = 0 then some [] else (untilZero rest).map (c :: ·)

def stringAt (cells : Bytes) (start : Nat) : Option Bytes := untilZero (cells.drop start)

-- What a call of strtok returns, the array after it, and where the next call with a
-- null pointer goes on.
structure Token where
  place : Option Nat
  cells : Bytes
  saved : Nat
  deriving DecidableEq

-- strtok from `start`: separators are skipped, and the separator after the token is overwritten
-- by the zero that ends it. Without a token the next call goes on at the end of the string.
def strtok (seps cells : Bytes) (start : Nat) : Option Token :=
  (stringAt cells start).bind fun text =>
    let place := start + (text.takeWhile (· ∈ seps)).length
    let token := (text.dropWhile (· ∈ seps)).takeWhile (· ∉ seps)
    let stop := place + token.length
    if token = [] then some ⟨none,cells,place⟩
    else if stop = start + text.length then some ⟨some place,cells,stop⟩
    else (cells.store stop [0]).map fun cells => ⟨some place,cells,stop+1⟩

def tokens (seps text : Bytes) : List Bytes := (text.splitOnP (· ∈ seps)).filter (· ≠ [])

inductive Tokenized (seps : Bytes) : Bytes → List Bytes → Prop
  | none {blanks : Bytes} (blank : ∀ c ∈ blanks, c ∈ seps) : Tokenized seps blanks []
  | last {blanks token : Bytes} (blank : ∀ c ∈ blanks, c ∈ seps) (clean : ∀ c ∈ token, c ∉ seps) (some_letter : token ≠ []) :
      Tokenized seps (blanks ++ token) [token]
  | next {blanks token more : Bytes} {sep : UInt8} {found : List Bytes} (blank : ∀ c ∈ blanks, c ∈ seps)
      (clean : ∀ c ∈ token, c ∉ seps) (some_letter : token ≠ []) (ended : sep ∈ seps) (later : Tokenized seps more found) :
      Tokenized seps (blanks ++ (token ++ sep :: more)) (token :: found)

inductive Calls (seps : Bytes) : Bytes → Nat → List Nat → Bytes → Nat → Prop
  | done {cells after : Bytes} {start saved : Nat} (called : strtok seps cells start = some ⟨none,after,saved⟩) :
      Calls seps cells start [] after saved
  | token {cells next after : Bytes} {start place saved stop : Nat} {places : List Nat}
      (called : strtok seps cells start = some ⟨some place,next,saved⟩) (later : Calls seps next saved places after stop) :
      Calls seps cells start (place :: places) after stop

theorem untilZero_text (back : Bytes) (whole : 0 ∉ text) : untilZero (text ++ 0 :: back) = some text := by
  induction text with
  | nil => rfl
  | cons c rest ih =>
    have other : c ≠ 0 := fun zero => whole (zero ▸ List.mem_cons_self ..)
    rw [List.cons_append,untilZero,if_neg other,ih fun member => whole (List.mem_cons_of_mem _ member)]
    rfl

theorem untilZero_shape (read : untilZero cells = some text) : ∃ back, cells = text ++ 0 :: back ∧ 0 ∉ text := by
  induction cells generalizing text with
  | nil => cases read
  | cons c rest ih =>
    rw [untilZero] at read
    split at read
    · rename_i zero
      cases read
      exact ⟨rest,by rw [zero]; rfl,List.not_mem_nil⟩
    · rename_i other
      obtain ⟨tail,later,rfl⟩ := Option.map_eq_some_iff.mp read
      obtain ⟨back,shape,whole⟩ := ih later
      refine ⟨back,by rw [shape]; rfl,fun member => ?_⟩
      rcases List.mem_cons.mp member with zero | found
      · exact other zero.symm
      · exact whole found

theorem untilZero_length (read : untilZero (front ++ 0 :: back) = some text) : text.length ≤ front.length := by
  induction front generalizing text with
  | nil => cases read; exact Nat.le_refl _
  | cons c rest ih =>
    rw [List.cons_append,untilZero] at read
    split at read
    · cases read; exact Nat.zero_le _
    · obtain ⟨tail,later,rfl⟩ := Option.map_eq_some_iff.mp read
      exact Nat.succ_le_succ (ih later)

theorem stringAt_append (front rest : Bytes) (k : Nat) : stringAt (front ++ rest) (front.length + k) = stringAt rest k := by
  rw [stringAt,stringAt,List.drop_length_add_append]

theorem stringAt_start (back : Bytes) (whole : 0 ∉ text) : stringAt (text ++ 0 :: back) 0 = some text :=
  untilZero_text back whole

theorem stringAt_text (front back : Bytes) (whole : 0 ∉ text) :
    stringAt (front ++ (text ++ 0 :: back)) front.length = some text := by
  rw [stringAt,List.drop_left,untilZero_text back whole]

theorem tokens_skip (blank : ∀ c ∈ blanks, c ∈ seps) (text : Bytes) : tokens seps (blanks ++ text) = tokens seps text := by
  induction blanks with
  | nil => rfl
  | cons c rest ih =>
    obtain ⟨first,later⟩ := List.forall_mem_cons.mp blank
    rw [← ih later]
    unfold tokens
    rw [List.cons_append,List.splitOnP_cons_eq_if_modifyHead,if_pos (decide_eq_true first)]
    rfl

theorem splitOnP_clean (clean : ∀ c ∈ token, c ∉ seps) : token.splitOnP (· ∈ seps) = [token] :=
  List.splitOnP_eq_singleton fun c member => decide_eq_false (clean c member)

theorem Tokenized.tokens (tokenized : Tokenized seps text found) : tokens seps text = found := by
  induction tokenized with
  | @none blanks blank =>
    rw [← List.append_nil blanks,tokens_skip blank]
    rfl
  | last blank clean some_letter =>
    rw [tokens_skip blank,CStrings.tokens,splitOnP_clean clean]
    exact List.filter_cons_of_pos (decide_eq_true some_letter)
  | @next blanks token more sep found blank clean some_letter ended later ih =>
    have ended : decide (sep ∈ seps) = true := decide_eq_true ended
    rw [tokens_skip blank,CStrings.tokens,List.splitOnP_append_cons token more ended,splitOnP_clean clean,
      List.singleton_append,← ih]
    exact List.filter_cons_of_pos (decide_eq_true some_letter)

theorem cut (p : UInt8 → Bool) (text : Bytes) :
    ∃ front rest, text = front ++ rest ∧ (∀ c ∈ front, p c = true) ∧ ∀ c after, rest = c :: after → p c = false := by
  refine ⟨text.takeWhile p,text.dropWhile p,List.takeWhile_append_dropWhile.symm,
    List.all_eq_true.mp List.all_takeWhile,fun c after shape => ?_⟩
  have stop := List.head?_dropWhile_not p text
  rw [shape] at stop
  simpa using stop

theorem tokenized_exists (seps text : Bytes) : ∃ found, Tokenized seps text found := by
  obtain ⟨blanks,rest,rfl,blank,stop⟩ := cut (· ∈ seps) text
  obtain ⟨token,rest,rfl,clean,stop'⟩ := cut (· ∉ seps) rest
  simp only [decide_eq_true_eq] at blank clean
  by_cases empty : token = []
  · subst empty
    cases rest with
    | nil => exact ⟨[],by simpa using Tokenized.none blank⟩
    | cons c after =>
      have other : c ∉ seps := of_decide_eq_false (stop c after rfl)
      have same : c ∈ seps := by simpa using stop' c after rfl
      exact absurd same other
  · cases rest with
    | nil => exact ⟨[token],by simpa using Tokenized.last blank clean empty⟩
    | cons sep more =>
      have ended : sep ∈ seps := by simpa using stop' sep more rfl
      have shorter : more.length < (blanks ++ (token ++ sep :: more)).length := by simp; omega
      obtain ⟨found,later⟩ := tokenized_exists seps more
      exact ⟨token :: found,.next blank clean empty ended later⟩
termination_by text.length

theorem tokenized (seps text : Bytes) : Tokenized seps text (tokens seps text) := by
  obtain ⟨found,read⟩ := tokenized_exists seps text
  exact read.tokens ▸ read

theorem takeWhile_stop {p : UInt8 → Bool} {rest : Bytes} (all : ∀ c ∈ front, p c = true)
    (stop : ∀ c after, rest = c :: after → p c = false) :
    (front ++ rest).takeWhile p = front ∧ (front ++ rest).dropWhile p = rest := by
  rw [List.takeWhile_append_of_pos all,List.dropWhile_append_of_pos all]
  cases rest with
  | nil => simp
  | cons c after => simp [stop c after rfl]

theorem read_parts (token more : Bytes) (blank : ∀ c ∈ blanks, c ∈ seps) (clean : ∀ c ∈ token, c ∉ seps)
    (stop : ∀ c after, more = c :: after → c ∈ seps) (some_letter : token = [] → more = []) :
    (blanks ++ (token ++ more)).takeWhile (· ∈ seps) = blanks ∧
      ((blanks ++ (token ++ more)).dropWhile (· ∈ seps)).takeWhile (· ∉ seps) = token := by
  have first : ∀ c after, token ++ more = c :: after → decide (c ∈ seps) = false := by
    intro c after shape
    cases token with
    | nil => rw [some_letter rfl] at shape; cases shape
    | cons d rest =>
      cases shape
      exact decide_eq_false (clean c (List.mem_cons_self ..))
  have second : ∀ c after, more = c :: after → decide (c ∉ seps) = false := fun c after shape =>
    decide_eq_false (not_not_intro (stop c after shape))
  obtain ⟨taken,left⟩ := takeWhile_stop (fun c member => decide_eq_true (blank c member)) first
  refine ⟨taken,?_⟩
  rw [left]
  exact (takeWhile_stop (fun c member => decide_eq_true (clean c member)) second).1

theorem strtok_none (front back : Bytes) (blank : ∀ c ∈ blanks, c ∈ seps) (whole : 0 ∉ blanks) :
    strtok seps (front ++ (blanks ++ 0 :: back)) front.length =
      some ⟨none,front ++ (blanks ++ 0 :: back),front.length + blanks.length⟩ := by
  obtain ⟨taken,name⟩ := read_parts [] [] blank nofun nofun fun _ => rfl
  simp only [List.append_nil] at taken name
  rw [strtok,stringAt_text front back whole,Option.bind_some,taken,name,if_pos rfl]

theorem strtok_last (front back : Bytes) (blank : ∀ c ∈ blanks, c ∈ seps) (clean : ∀ c ∈ token, c ∉ seps)
    (some_letter : token ≠ []) (whole : 0 ∉ blanks ++ token) :
    strtok seps (front ++ ((blanks ++ token) ++ 0 :: back)) front.length =
      some ⟨some (front.length + blanks.length),front ++ ((blanks ++ token) ++ 0 :: back),
        front.length + (blanks ++ token).length⟩ := by
  obtain ⟨taken,name⟩ := read_parts token [] blank clean nofun fun empty => absurd empty some_letter
  rw [List.append_nil] at taken name
  rw [strtok,stringAt_text front back whole,Option.bind_some,taken,name,if_neg some_letter,List.length_append,
    ← Nat.add_assoc,if_pos rfl]

theorem strtok_next (front back : Bytes) (blank : ∀ c ∈ blanks, c ∈ seps) (clean : ∀ c ∈ token, c ∉ seps)
    (some_letter : token ≠ []) (ended : sep ∈ seps) (whole : 0 ∉ blanks ++ (token ++ sep :: more)) :
    strtok seps (front ++ ((blanks ++ (token ++ sep :: more)) ++ 0 :: back)) front.length =
      some ⟨some (front.length + blanks.length),(front ++ (blanks ++ (token ++ [0]))) ++ (more ++ 0 :: back),
        (front ++ (blanks ++ (token ++ [0]))).length⟩ := by
  have stop : ∀ c after, sep :: more = c :: after → c ∈ seps := by
    rintro c after shape
    cases shape
    exact ended
  obtain ⟨taken,name⟩ := read_parts token (sep :: more) blank clean stop fun empty => absurd empty some_letter
  have ends := Bytes.store_between (front ++ (blanks ++ token)) [sep] [0] (more ++ 0 :: back) rfl
  have place : front.length + blanks.length + token.length = (front ++ (blanks ++ token)).length := by
    simp only [List.length_append,Nat.add_assoc]
  have shape : front ++ ((blanks ++ (token ++ sep :: more)) ++ 0 :: back) =
      (front ++ (blanks ++ token)) ++ ([sep] ++ (more ++ 0 :: back)) := by simp
  rw [strtok,stringAt_text front back whole,Option.bind_some,taken,name,if_neg some_letter,
    if_neg (by simp; omega),shape,place,ends,Option.map_some]
  simp [Nat.add_assoc]

-- The calls return the tokens in order, each ended by a zero; nothing before and after the string
-- is written.
theorem calls_tokens (seps front back : Bytes) (whole : 0 ∉ text) : ∃ line places saved,
    Calls seps (front ++ (text ++ 0 :: back)) front.length places (front ++ (line ++ 0 :: back)) saved ∧
      line.length = text.length ∧ places.map (stringAt (front ++ (line ++ 0 :: back))) = (tokens seps text).map some := by
  have read := tokenized seps text
  generalize tokens seps text = found at read
  induction read generalizing front with
  | @none blanks blank => exact ⟨blanks,[],_,.done (strtok_none front back blank whole),rfl,rfl⟩
  | @last blanks token blank clean some_letter =>
    have first := strtok_last front back blank clean some_letter whole
    have second := strtok_none (front ++ (blanks ++ token)) back (List.forall_mem_nil (· ∈ seps)) List.not_mem_nil
    have string := stringAt_text (front ++ blanks) back fun member => whole (List.mem_append_right blanks member)
    rw [List.nil_append,List.append_assoc front,List.length_append] at second
    rw [List.length_append] at string
    exact ⟨blanks ++ token,[front.length + blanks.length],_,.token first (.done second),rfl,by
      rw [List.map_singleton,List.append_assoc blanks,← List.append_assoc front,string]; rfl⟩
  | @next blanks token more sep found blank clean some_letter ended later ih =>
    have first := strtok_next front back blank clean some_letter ended whole
    have rest : 0 ∉ more := fun member => whole (by simp [member])
    have mine : 0 ∉ token := fun member => whole (by simp [member])
    obtain ⟨line,places,saved,calls,length,strings⟩ := ih (front ++ (blanks ++ (token ++ [0]))) rest
    have shape : front ++ (blanks ++ (token ++ [0])) ++ (line ++ 0 :: back) =
        front ++ ((blanks ++ (token ++ 0 :: line)) ++ 0 :: back) := by simp
    have string := stringAt_text (front ++ blanks) (line ++ 0 :: back) mine
    rw [shape] at calls strings
    refine ⟨blanks ++ (token ++ 0 :: line),(front.length + blanks.length) :: places,saved,.token first calls,
      by simp [length],?_⟩
    rw [List.map_cons,strings,List.map_cons]
    congr 1
    rw [← string,List.length_append]
    simp

end LinuxOS.CStrings
