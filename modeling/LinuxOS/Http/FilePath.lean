import LinuxOS.Paths
import LinuxOS.Http.Server
import LinuxOS.Http.Splitting

namespace LinuxOS.Http
open Paths
variable {path base_dir : Bytes} {cwd names : List Bytes}

-- IsValidPath counts levels as Descends does; Split drops only an empty piece
-- at the end, which neither looks at.
theorem validFrom_descends (level : Nat) (names : List Bytes) :
    Util.validFrom level names = true ↔ Descends level names := by
  induction names generalizing level with
  | nil => simp [Util.validFrom,Descends]
  | cons s names ih =>
    simp only [Util.validFrom,Descends]
    split
    · exact ih level
    · split
      · cases level with
        | zero => simp
        | succ level =>
          have back : ((level + 1 : Nat) : Int) - 1 = level := by omega
          rw [back,if_neg (by omega),ih level]
          simp
      · exact ih (level + 1)

theorem segments_scanned (name : Bytes) : Separators.Scanned [47] name (segments name) := by
  obtain ⟨pieces,scanned⟩ := Separators.scanned_exists (List.cons_ne_nil 47 []) name
  have same : pieces = segments name := by
    induction scanned with
    | last clean => rw [segments_single (mt (List.singleton_infix_iff ..).mpr clean)]
    | @next front rest pieces first later ih =>
      have single : 47 ∉ front := mt (List.singleton_infix_iff ..).mpr (first.clean (List.cons_ne_nil 47 []))
      rw [List.singleton_append,segments_slash,segments_single single,ih]
      rfl
  exact same ▸ scanned

theorem split_trimmed (src : Bytes) : Util.split src [47] = trimmed (segments src) :=
  split_scanned (List.cons_ne_nil 47 []) (segments_scanned src)

theorem isValidPath_descends : Util.isValidPath path = true ↔ Descends 0 (segments path) := by
  have level : Util.isValidPath path = true ↔ Descends 0 (Util.split path [47]) := validFrom_descends 0 _
  rw [level,split_trimmed]
  rcases trimmed_cases (segments path) with whole | ended
  · rw [← whole]
  · conv_rhs => rw [ended,descends_empty]

def indexed (path : Bytes) : Bytes := if path.getLast? = some 47 then path ++ ascii "index.html" else path

-- The condition on a base directory and a request path. stat and ifstream see the path up
-- to its first zero. A path without a leading slash is glued to the base's last piece: that
-- is harmless where this piece is empty, "..", or "." before a piece other than "."; else
-- only where the walk comes back to the base's own name. Where the zero hides that the path
-- ends too high, only a glued "." or ".." makes up for it.
def Contained (cwd : List Bytes) (base_dir path : Bytes) : Prop :=
  let last := lastSegment (HttpServer.normalizeBase base_dir)
  let seen := cStr path
  0 ∈ base_dir ∨ resolve cwd base_dir = [] ∨
  if Util.isValidPath seen = true then
    seen = [] ∨ seen.head? = some 47 ∨ last = [] ∨ last = [46,46] ∨ (last = [46] ∧ firstSegment seen ≠ [46]) ∨
    (walk [] (segments (last ++ cStr (indexed path)))).head? = (resolve cwd base_dir).getLast?
  else (last = [46,46] ∧ firstSegment seen ≠ []) ∨ (last = [46] ∧ firstSegment seen = [46,46])

instance (cwd : List Bytes) (base_dir path : Bytes) : Decidable (Contained cwd base_dir path) := by
  unfold Contained; infer_instance

theorem normalizePath_indexed (some_path : path ≠ []) :
    HttpServer.normalizePath path = if path = [47] then ascii "/index.html" else indexed path := by
  have last : (ascii "/index.html").getLast? ≠ some 47 := by decide
  simp only [HttpServer.normalizePath,if_neg some_path,indexed]
  by_cases root : path = [47]
  · rw [if_pos root,if_neg last,if_pos root]
  · rw [if_neg root,if_neg root]

theorem index_proper : Proper (ascii "index.html") := by unfold Proper; decide

theorem indexed_cases (path : Bytes) : (∃ front, path = front ++ [47] ∧ indexed path = front ++ 47 :: ascii "index.html") ∨
    indexed path = path := by
  rw [indexed]
  split
  · rename_i ended
    obtain ⟨front,shape⟩ := List.getLast?_eq_some_iff.mp ended
    exact .inl ⟨front,shape,by rw [shape,List.append_assoc]; rfl⟩
  · exact .inr rfl

theorem indexed_descends (descends : Descends 0 (segments path)) : Descends 0 (segments (indexed path)) := by
  rcases indexed_cases path with ⟨front,shape,named⟩ | same
  · have name : segments (ascii "index.html") = [ascii "index.html"] := segments_single (by decide)
    rw [shape,segments_slash] at descends
    rw [named,segments_slash,name,descends_proper index_proper]
    exact (descends_empty 0).mp descends
  · rwa [same]

theorem indexed_first (path : Bytes) : firstSegment (indexed path) = firstSegment path := by
  rcases indexed_cases path with ⟨front,shape,index⟩ | same
  · rw [index,firstSegment_slash,shape,firstSegment_slash]
  · rw [same]

theorem normalizePath_descends (valid : Util.isValidPath path = true) :
    Descends 0 (segments (HttpServer.normalizePath path)) := by
  have index : Descends 0 (segments (ascii "/index.html")) := by
    have pieces : segments (ascii "/index.html") = [[]] ++ [ascii "index.html"] := by decide
    rw [pieces,descends_proper index_proper]
    simp [Descends]
  by_cases some_path : path = []
  · subst some_path
    exact index
  · rw [normalizePath_indexed some_path]
    split
    · exact index
    · exact indexed_descends (isValidPath_descends.mp valid)

theorem normalizeBase_named : HttpServer.normalizeBase base_dir ≠ [] := by
  intro empty
  simp only [HttpServer.normalizeBase] at empty
  by_cases trimmed : (if base_dir.getLast? = some 47 then base_dir.dropLast else base_dir) = []
  · rw [if_pos trimmed] at empty
    cases empty
  · rw [if_neg trimmed] at empty
    exact trimmed empty

-- The constructor keeps the directory, except that it takes "/" for ".".
theorem normalizeBase_resolve (other : base_dir ≠ [47]) :
    resolve cwd (HttpServer.normalizeBase base_dir) = resolve cwd base_dir := by
  unfold HttpServer.normalizeBase
  by_cases ended : base_dir.getLast? = some 47
  · obtain ⟨front,shape⟩ := List.getLast?_eq_some_iff.mp ended
    have some_front : front ≠ [] := by
      rintro rfl
      exact other shape
    have trimmed : base_dir.dropLast = front := by rw [shape,List.dropLast_concat]
    rw [if_pos ended,trimmed]
    simp only [if_neg some_front]
    rw [shape,resolve_below some_front]
    simp [segments,walk]
  · rw [if_neg ended]
    dsimp only
    split
    · rename_i none_given
      subst none_given
      simp [resolve,start,segments,walk]
    · rfl

theorem normalizeBase_clean (clean : 0 ∉ base_dir) : 0 ∉ HttpServer.normalizeBase base_dir := by
  have shorter : 0 ∉ (if base_dir.getLast? = some 47 then base_dir.dropLast else base_dir) := by
    split
    · exact fun zero => clean (List.dropLast_subset _ zero)
    · exact clean
  simp only [HttpServer.normalizeBase]
  by_cases trimmed : (if base_dir.getLast? = some 47 then base_dir.dropLast else base_dir) = []
  · rw [if_pos trimmed]; simp
  · rw [if_neg trimmed]; exact shorter

theorem normalizeBase_seen (zero : 0 ∈ base_dir) :
    0 ∈ HttpServer.normalizeBase base_dir ∧ cStr (HttpServer.normalizeBase base_dir) = cStr base_dir := by
  have some_name : base_dir ≠ [] := List.ne_nil_of_mem zero
  simp only [HttpServer.normalizeBase]
  by_cases ended : base_dir.getLast? = some 47
  · obtain ⟨front,shape⟩ := List.getLast?_eq_some_iff.mp ended
    have inside : 0 ∈ front := by
      rw [shape] at zero
      rcases List.mem_append.mp zero with front | last
      · exact front
      · cases List.mem_singleton.mp last
    have trimmed : base_dir.dropLast = front := by rw [shape,List.dropLast_concat]
    rw [if_pos ended,trimmed,if_neg (List.ne_nil_of_mem inside),shape]
    exact ⟨inside,(cStr_cut inside [47]).symm⟩
  · rw [if_neg ended,if_neg some_name]
    exact ⟨zero,rfl⟩

-- The name in front of the zero is all that is looked up, whatever is appended.
theorem normalizePath_seen (zero : 0 ∈ path) : cStr (HttpServer.normalizePath path) = cStr path := by
  have notRoot : path ≠ [47] := by rintro rfl; simp at zero
  rw [normalizePath_indexed (List.ne_nil_of_mem zero),if_neg notRoot,indexed]
  split
  · exact cStr_cut zero _
  · rfl

theorem indexed_seen (zero : 0 ∈ path) : cStr (indexed path) = cStr path := by
  unfold indexed
  split
  · exact cStr_cut zero _
  · rfl

theorem indexed_clean (clean : 0 ∉ path) : cStr (indexed path) = indexed path := by
  apply cStr_whole
  unfold indexed
  split
  · exact fun zero => (List.mem_append.mp zero).elim clean (by decide)
  · exact clean

theorem normalizePath_clean (clean : 0 ∉ path) : cStr (HttpServer.normalizePath path) = HttpServer.normalizePath path := by
  by_cases some_path : path = []
  · subst some_path; decide
  · rw [normalizePath_indexed some_path]
    split
    · decide
    · exact indexed_clean clean

theorem realPath_inside (server : HttpServer) (named : server.baseDir ≠ []) :
    (∀ isDirectory, Inside cwd base_dir (cStr (server.realPath isDirectory path))) ↔
      Inside cwd base_dir (cStr (server.buildFilePath path)) := by
  constructor
  · intro always
    exact always fun _ => false
  · intro inside isDirectory
    unfold HttpServer.realPath
    dsimp only
    split
    · by_cases zero : 0 ∈ server.buildFilePath path
      · rw [cStr_cut zero]; exact inside
      · have some_name : server.buildFilePath path ≠ [] := by simp [HttpServer.buildFilePath,named]
        have name : segments (ascii "index.html") = [ascii "index.html"] := segments_single (by decide)
        have index : cStr (ascii "/index.html") = 47 :: ascii "index.html" := by decide
        rw [cStr_whole zero] at inside
        rw [cStr_append zero,index,Inside,resolve_below some_name,name,walk_proper index_proper]
        exact inside.trans (List.prefix_append _ _)
    · exact inside

theorem base_zero_inside (zero : 0 ∈ base_dir) :
    cStr ((HttpServer.create base_dir).buildFilePath path) = cStr base_dir := by
  obtain ⟨inside,same⟩ := normalizeBase_seen zero
  exact (cStr_cut inside _).trans same

-- What IsValidPath refuses only without the bytes behind the zero ends in a ".." that they made
-- another name.
theorem hidden_dots (valid : Util.isValidPath path = true) (refused : ¬Util.isValidPath (cStr path) = true) :
    ∃ front, segments (cStr path) = front ++ [[46,46]] ∧ Descends 0 front := by
  have zero : 0 ∈ path := by
    by_contra clean
    rw [cStr_whole clean] at refused
    exact refused valid
  obtain ⟨back,shape⟩ := cStr_split zero
  have descends := isValidPath_descends.mp valid
  rw [shape,segments_append] at descends
  have front := descends_front 0 descends
  rw [isValidPath_descends,← segments_last] at refused
  obtain ⟨dots,_⟩ := descends_spent [] 0 rfl front refused
  exact ⟨_,by rw [← dots,segments_last],front⟩

theorem seen_descends (valid : Util.isValidPath (cStr path) = true) :
    Descends 0 (segments (cStr (HttpServer.normalizePath path))) := by
  by_cases zero : 0 ∈ path
  · rw [normalizePath_seen zero]; exact isValidPath_descends.mp valid
  · rw [cStr_whole zero] at valid
    rw [normalizePath_clean zero]; exact normalizePath_descends valid

theorem rooted_first (rooted : cStr path = [] ∨ (cStr path).head? = some 47) :
    firstSegment (cStr (HttpServer.normalizePath path)) = [] := by
  by_cases zero : 0 ∈ path
  · rw [normalizePath_seen zero]
    exact firstSegment_empty.mpr rooted
  · rw [cStr_whole zero] at rooted
    rw [normalizePath_clean zero]
    by_cases some_path : path = []
    · subst some_path; decide
    · rw [normalizePath_indexed some_path]
      split
      · decide
      · rw [indexed_first]
        exact firstSegment_empty.mpr rooted

theorem glued_first (named : ¬(cStr path = [] ∨ (cStr path).head? = some 47)) :
    cStr (HttpServer.normalizePath path) = cStr (indexed path) ∧ firstSegment (cStr (indexed path)) = firstSegment (cStr path) := by
  by_cases zero : 0 ∈ path
  · rw [normalizePath_seen zero,indexed_seen zero]
    exact ⟨rfl,rfl⟩
  · rw [cStr_whole zero] at named ⊢
    obtain ⟨some_path,notSlash⟩ := not_or.mp named
    have notRoot : path ≠ [47] := by rintro rfl; exact notSlash rfl
    rw [normalizePath_indexed some_path,if_neg notRoot,indexed_clean zero]
    exact ⟨rfl,indexed_first path⟩

theorem joins_contained (other : base_dir ≠ [47]) (clean : 0 ∉ base_dir) (valid : Util.isValidPath (cStr path) = true) :
    Joins cwd (HttpServer.normalizeBase base_dir) (cStr (HttpServer.normalizePath path)) ↔ Contained cwd base_dir path := by
  rw [Joins,Contained,normalizeBase_resolve other]
  simp only [if_pos valid,clean,false_or]
  by_cases rooted : cStr path = [] ∨ (cStr path).head? = some 47
  · refine iff_of_true (.inl (rooted_first rooted)) ?_
    rcases rooted with none_seen | slash
    · exact .inr (.inl none_seen)
    · exact .inr (.inr (.inl slash))
  · obtain ⟨same,first⟩ := glued_first rooted
    obtain ⟨some_seen,notSlash⟩ := not_or.mp rooted
    have some_first : firstSegment (cStr path) ≠ [] := fun empty => rooted (firstSegment_empty.mp empty)
    rw [same,first]
    simp only [some_first,some_seen,notSlash,false_or]
    tauto

theorem escaping_contained (other : base_dir ≠ [47]) (clean : 0 ∉ base_dir) (valid : Util.isValidPath path = true)
    (refused : ¬Util.isValidPath (cStr path) = true) :
    Inside cwd (HttpServer.normalizeBase base_dir) (HttpServer.normalizeBase base_dir ++ cStr path) ↔
      Contained cwd base_dir path := by
  obtain ⟨front,pieces,descends⟩ := hidden_dots valid refused
  rw [append_escaping normalizeBase_named pieces descends (mt isValidPath_descends.mpr refused),Contained,
    normalizeBase_resolve other]
  simp only [if_neg refused,clean,false_or]

theorem served_inside_iff (cwd : List Bytes) (base_dir path : Bytes) (valid : Util.isValidPath path = true) :
    (∀ isDirectory, Inside cwd (cStr base_dir) (cStr ((HttpServer.create base_dir).realPath isDirectory path))) ↔
      Contained cwd base_dir path := by
  rw [realPath_inside _ normalizeBase_named]
  by_cases zero : 0 ∈ base_dir
  · rw [base_zero_inside zero]
    exact iff_of_true (List.prefix_refl _) (.inl zero)
  have seen : cStr ((HttpServer.create base_dir).buildFilePath path) =
      HttpServer.normalizeBase base_dir ++ cStr (HttpServer.normalizePath path) := cStr_append (normalizeBase_clean zero) _
  rw [cStr_whole zero,seen]
  by_cases root : base_dir = [47]
  · have top : resolve cwd base_dir = [] := by
      rw [root]
      simp [resolve,start,segments,walk]
    simp [Inside,Contained,top]
  have same : Inside cwd base_dir = Inside cwd (HttpServer.normalizeBase base_dir) := by
    funext name
    rw [Inside,Inside,normalizeBase_resolve root]
  rw [same]
  by_cases shown : Util.isValidPath (cStr path) = true
  · rw [append_inside normalizeBase_named (seen_descends shown)]
    exact joins_contained root zero shown
  · have hidden : 0 ∈ path := by
      by_contra none_hidden
      exact shown (by rw [cStr_whole none_hidden]; exact valid)
    rw [normalizePath_seen hidden]
    exact escaping_contained root zero valid shown

theorem served_inside_www :
    (∀ isDirectory, Inside [] (cStr (ascii "./www"))
      (cStr ((HttpServer.create (ascii "./www")).realPath isDirectory (ascii "/a/../b/")))) ↔
      Contained [] (ascii "./www") (ascii "/a/../b/") :=
  served_inside_iff [] (ascii "./www") (ascii "/a/../b/") (by decide)

-- The zero hides the rest of the path from stat, not from IsValidPath.
example : Util.isValidPath (ascii "/.." ++ [0]) = true ∧ ¬Contained [] (ascii "./www") (ascii "/.." ++ [0]) := by decide

-- A request target need not begin with a slash, so it can extend the name of
-- the base directory itself.
theorem target_extends_base : ¬ ∀ (cwd : List Bytes) (base_dir req_line : Bytes) (before r : HttpRequest)
    (isDirectory : Bytes → Bool), HttpContext.parseReqLine before req_line = (true,r) →
    Util.isValidPath r.path = true → Inside cwd (cStr base_dir) (cStr ((HttpServer.create base_dir).realPath isDirectory r.path)) := by
  intro always
  obtain ⟨line,given⟩ : ∃ line, line = ascii "GET -private/key HTTP/1.1\r\n" := ⟨_,rfl⟩
  obtain ⟨r,parsed,path⟩ : ∃ r, HttpContext.parseReqLine {} line = (true,r) ∧ r.path = ascii "-private/key" := by
    refine ⟨(HttpContext.parseReqLine {} line).2,Prod.ext ?_ rfl,?_⟩ <;> rw [given] <;> decide
  have inside := always [] (ascii "/srv/www") line {} r (fun _ => false) parsed (by rw [path]; decide)
  rw [path] at inside
  exact absurd inside (by decide)

end LinuxOS.Http
