import LinuxOS.Http.FilePath
import LinuxOS.Http.UrlEncoding

namespace LinuxOS.Http
namespace HttpServer

def matchRouteInto (pattern path : Bytes) (params : Dict) : Bool × Dict :=
  let pattern_segments := Util.split pattern [47]
  let path_segments := Util.split path [47]
  if pattern_segments.length ≠ path_segments.length then (false,params)
  else
    match matchSegments pattern_segments path_segments ∅ with
    | none => (false,params)
    | some matched => (true,matched)

end HttpServer

open Util Paths HttpServer
variable {pattern path pieces : List Bytes} {matched result assignment : Dict} {s t key : Bytes} {i : Nat}

def isParameter (segment : Bytes) : Bool := 1 < segment.length ∧ segment.head? = some 58

def names (pieces : List Bytes) : List Bytes := (pieces.filter isParameter).map List.tail

def fill (assignment : Dict) (segment : Bytes) : Bytes :=
  if isParameter segment then urlEncode false ((assignment.lookup segment.tail).getD []) else segment

def buildPath (assignment : Dict) (pattern : Bytes) : Bytes :=
  [47].intercalate ((segments pattern).map (fill assignment))

theorem isParameter_shape : isParameter s = true ↔ ∃ name, name ≠ [] ∧ s = 58 :: name := by
  cases s with
  | nil => simp [isParameter]
  | cons c name => simp [isParameter,List.length_pos_iff,and_comm]

theorem names_parameter (parameter : isParameter s = true) : names (s :: pieces) = s.tail :: names pieces := by
  simp [names,parameter]

theorem names_static (static : isParameter s = false) : names (s :: pieces) = names pieces := by
  simp [names,static]

theorem mem_names (found : s ∈ pieces) (parameter : isParameter s = true) : s.tail ∈ names pieces :=
  List.mem_map.mpr ⟨s,List.mem_filter.mpr ⟨found,parameter⟩,rfl⟩

theorem names_trimmed (pieces : List Bytes) : names (trimmed pieces) = names pieces := by
  rcases trimmed_cases pieces with whole | ended
  · rw [← whole]
  · conv_rhs => rw [ended]
    simp [names,isParameter]

theorem matchSegments_parameter (parameter : isParameter s = true) : matchSegments (s :: pattern) (t :: path) matched =
    matchSegments pattern path (matched.insert s.tail (urlDecode false t)) := by
  have shape : 1 < s.length ∧ s.head? = some 58 := by simpa [isParameter] using parameter
  rw [matchSegments,if_pos shape]

theorem matchSegments_static (static : isParameter s = false) : matchSegments (s :: pattern) (t :: path) matched =
    if s = t then matchSegments pattern path matched else none := by
  have shape : ¬(1 < s.length ∧ s.head? = some 58) := by simpa [isParameter] using static
  rw [matchSegments,if_neg shape]
  by_cases same : s = t <;> simp [same]

theorem matchSegments_agree (accepted : matchSegments pattern path matched = some result) :
    List.Forall₂ (fun s t => isParameter s = false → s = t) pattern path := by
  induction pattern generalizing path matched with
  | nil =>
    cases path with
    | nil => exact .nil
    | cons t path => cases accepted
  | cons s pattern ih =>
    cases path with
    | nil => cases accepted
    | cons t path =>
      cases parameter : isParameter s with
      | true =>
        rw [matchSegments_parameter parameter] at accepted
        refine .cons ?_ (ih accepted)
        rw [parameter]
        intro static
        cases static
      | false =>
        rw [matchSegments_static parameter] at accepted
        split at accepted
        · rename_i same
          exact .cons (fun _ => same) (ih accepted)
        · cases accepted

theorem matchSegments_absent (accepted : matchSegments pattern path matched = some result) (absent : key ∉ names pattern) :
    result.lookup key = matched.lookup key := by
  induction pattern generalizing path matched with
  | nil =>
    cases path with
    | nil => cases accepted; rfl
    | cons t path => cases accepted
  | cons s pattern ih =>
    cases path with
    | nil => cases accepted
    | cons t path =>
      cases parameter : isParameter s with
      | true =>
        rw [matchSegments_parameter parameter] at accepted
        rw [names_parameter parameter,List.mem_cons,not_or] at absent
        rw [ih accepted absent.2,Finmap.lookup_insert_of_ne _ absent.1]
      | false =>
        rw [matchSegments_static parameter] at accepted
        rw [names_static parameter] at absent
        split at accepted
        · exact ih accepted absent
        · cases accepted

theorem matchSegments_given (accepted : matchSegments pattern path matched = some result)
    (distinct : (names pattern).Nodup) (here : pattern[i]? = some s) (parameter : isParameter s = true) :
    ∃ t, path[i]? = some t ∧ result.lookup s.tail = some (urlDecode false t) := by
  induction pattern generalizing path matched i with
  | nil => cases here
  | cons first pattern ih =>
    cases path with
    | nil => cases accepted
    | cons t path =>
      cases kind : isParameter first with
      | true =>
        rw [matchSegments_parameter kind] at accepted
        rw [names_parameter kind,List.nodup_cons] at distinct
        cases i with
        | zero =>
          cases here
          exact ⟨t,rfl,by rw [matchSegments_absent accepted distinct.1,Finmap.lookup_insert]⟩
        | succ i =>
          have later := ih accepted distinct.2 here
          exact later
      | false =>
        rw [matchSegments_static kind] at accepted
        rw [names_static kind] at distinct
        split at accepted
        · cases i with
          | zero =>
            cases here
            rw [kind] at parameter
            cases parameter
          | succ i =>
            have later := ih accepted distinct here
            exact later
        · cases accepted

theorem matchSegments_filled (assignment matched : Dict) (pattern : List Bytes)
    (named : ∀ name ∈ names pattern, name ∈ assignment) :
    ∃ result, matchSegments pattern (pattern.map (fill assignment)) matched = some result ∧
      ∀ key, result.lookup key = if key ∈ names pattern then assignment.lookup key else matched.lookup key := by
  induction pattern generalizing matched with
  | nil => exact ⟨matched,rfl,fun key => by simp [names]⟩
  | cons s pattern ih =>
    cases parameter : isParameter s with
    | true =>
      rw [names_parameter parameter] at named ⊢
      obtain ⟨value,assigned⟩ := Finmap.mem_iff.mp (named s.tail List.mem_cons_self)
      have decoded : urlDecode false (fill assignment s) = value := by
        rw [fill,if_pos parameter,assigned,urlDecode_urlEncode]
        rfl
      obtain ⟨result,accepted,holds⟩ := ih (matched.insert s.tail value) fun name found => named name (List.mem_cons_of_mem _ found)
      refine ⟨result,?_,?_⟩
      · rw [List.map_cons,matchSegments_parameter parameter,decoded,accepted]
      · intro key
        rw [holds key]
        by_cases later : key ∈ names pattern
        · rw [if_pos later,if_pos (List.mem_cons_of_mem _ later)]
        · by_cases here : key = s.tail
          · rw [if_neg later,here,Finmap.lookup_insert,if_pos List.mem_cons_self,assigned]
          · rw [if_neg later,Finmap.lookup_insert_of_ne _ here,if_neg (by simp [here,later])]
    | false =>
      rw [names_static parameter] at named ⊢
      obtain ⟨result,accepted,holds⟩ := ih matched named
      have same : fill assignment s = s := by rw [fill,parameter]; rfl
      exact ⟨result,by rw [List.map_cons,matchSegments_static parameter,same,if_pos rfl,accepted],holds⟩

theorem segments_intercalate (pieces : List Bytes) (some_piece : pieces ≠ []) (clean : ∀ s ∈ pieces, 47 ∉ s) :
    segments ([47].intercalate pieces) = pieces := by
  induction pieces with
  | nil => exact absurd rfl some_piece
  | cons s pieces ih =>
    have single : segments s = [s] := segments_single (clean s List.mem_cons_self)
    cases pieces with
    | nil => rw [List.intercalate_singleton,single]
    | cons t pieces =>
      have later := ih (List.cons_ne_nil _ _) fun s found => clean s (List.mem_cons_of_mem _ found)
      have joined : [47].intercalate (s :: t :: pieces) = s ++ 47 :: [47].intercalate (t :: pieces) := by
        simp [List.intercalate_cons_cons]
      rw [joined,segments_slash,single,later]
      rfl

theorem trimmed_map (f : Bytes → Bytes) (pieces : List Bytes) (same : ∀ s ∈ pieces, f s = [] ↔ s = []) :
    trimmed (pieces.map f) = (trimmed pieces).map f := by
  induction pieces with
  | nil => rfl
  | cons s pieces ih =>
    have later := ih fun s found => same s (List.mem_cons_of_mem _ found)
    cases pieces with
    | nil =>
      have only := same s List.mem_cons_self
      simp only [trimmed,List.map_cons,List.map_nil,List.getLast?_singleton,Option.some.injEq,only]
      split <;> rfl
    | cons t pieces =>
      rw [List.map_cons,trimmed_cons (f s) (by simp),later,trimmed_cons s (List.cons_ne_nil _ _)]
      rfl

theorem fill_clean (assignment : Dict) (clean : 47 ∉ s) : 47 ∉ fill assignment s := by
  unfold fill
  split
  · exact urlEncode_absent _ (by decide)
  · exact clean

theorem fill_empty (assigned : isParameter s = true → s.tail ∈ assignment)
    (values : ∀ name value, assignment.lookup name = some value → value ≠ []) : fill assignment s = [] ↔ s = [] := by
  cases parameter : isParameter s with
  | true =>
    obtain ⟨value,found⟩ := Finmap.mem_iff.mp (assigned parameter)
    obtain ⟨name,_,shape⟩ := isParameter_shape.mp parameter
    have written : urlEncode false value ≠ [] := urlEncode_nonempty (values s.tail value found)
    rw [fill,if_pos parameter,found,Option.getD_some,shape]
    simp [written]
  | false => rw [fill,parameter]; rfl

theorem split_buildPath (pattern : Bytes) (named : ∀ name ∈ names (segments pattern), name ∈ assignment)
    (values : ∀ name value, assignment.lookup name = some value → value ≠ []) :
    split (buildPath assignment pattern) [47] = (split pattern [47]).map (fill assignment) := by
  have clean : ∀ s ∈ (segments pattern).map (fill assignment), 47 ∉ s := by
    intro s found
    obtain ⟨piece,listed,rfl⟩ := List.mem_map.mp found
    exact fill_clean assignment (segments_clean pattern piece listed)
  have some_piece : (segments pattern).map (fill assignment) ≠ [] := by rw [segments_cons]; simp
  have empty : ∀ s ∈ segments pattern, fill assignment s = [] ↔ s = [] := fun s found =>
    fill_empty (fun parameter => named _ (mem_names found parameter)) values
  rw [split_trimmed,split_trimmed,buildPath,segments_intercalate _ some_piece clean,trimmed_map _ _ empty]

theorem matchRouteInto_some (pattern path : Bytes) (params : Dict) : matchRouteInto pattern path params =
    match matchRoute pattern path with
    | none => (false,params)
    | some matched => (true,matched) := by
  simp only [matchRouteInto,matchRoute]
  by_cases lengths : (split pattern [47]).length ≠ (split path [47]).length
  · rw [if_pos lengths,if_pos lengths]
  · rw [if_neg lengths,if_neg lengths]

theorem matchRoute_segments {pattern path : Bytes} (accepted : matchRoute pattern path = some result) :
    matchSegments (split pattern [47]) (split path [47]) ∅ = some result := by
  simp only [matchRoute] at accepted
  split at accepted
  · cases accepted
  · exact accepted

theorem matchRoute_buildPath (pattern : Bytes) (named : ∀ name, name ∈ assignment ↔ name ∈ names (segments pattern))
    (values : ∀ name value, assignment.lookup name = some value → value ≠ []) :
    matchRoute pattern (buildPath assignment pattern) = some assignment := by
  have same : names (split pattern [47]) = names (segments pattern) := by rw [split_trimmed,names_trimmed]
  obtain ⟨result,accepted,holds⟩ := matchSegments_filled assignment ∅ (split pattern [47]) fun name found =>
    (named name).mpr (same ▸ found)
  have whole : result = assignment := by
    apply Finmap.ext_lookup
    intro key
    rw [holds key,same]
    by_cases member : key ∈ names (segments pattern)
    · rw [if_pos member]
    · have absent : key ∉ assignment := fun found => member ((named key).mp found)
      rw [if_neg member,Finmap.lookup_empty,Finmap.lookup_eq_none.mpr absent]
  have pieces := split_buildPath pattern (fun name found => (named name).mpr found) values
  simp only [matchRoute,pieces,List.length_map]
  rw [if_neg (by simp),accepted,whole]

theorem matchRoute_inverts (pattern path : Bytes) (assignment params : Dict) :
    ((∀ name, name ∈ assignment ↔ name ∈ names (segments pattern)) →
      (∀ name value, assignment.lookup name = some value → value ≠ []) →
      matchRouteInto pattern (buildPath assignment pattern) params = (true,assignment)) ∧
    ((matchRouteInto pattern path params).1 = true →
      (split pattern [47]).length = (split path [47]).length ∧
      ∀ (i : Nat) (s : Bytes), (split pattern [47])[i]? = some s → isParameter s = false → (split path [47])[i]? = some s) ∧
    ((matchRouteInto pattern path params).1 = false → (matchRouteInto pattern path params).2 = params) := by
  refine ⟨?_,?_,?_⟩
  · intro named values
    rw [matchRouteInto_some,matchRoute_buildPath pattern named values]
  · intro accepted
    rw [matchRouteInto_some] at accepted
    cases found : matchRoute pattern path with
    | none => rw [found] at accepted; cases accepted
    | some result =>
      have agree := matchSegments_agree (matchRoute_segments found)
      refine ⟨agree.length_eq,?_⟩
      intro i s here static
      obtain ⟨inside,rfl⟩ := List.getElem?_eq_some_iff.mp here
      have reaches : i < (split path [47]).length := agree.length_eq ▸ inside
      have same : (split pattern [47])[i] = (split path [47])[i] := agree.get inside reaches static
      rw [List.getElem?_eq_getElem reaches,same]
  · intro refused
    rw [matchRouteInto_some] at refused ⊢
    cases found : matchRoute pattern path with
    | none => rfl
    | some result => rw [found] at refused; cases refused

theorem matchRoute_inverts_user : matchRouteInto (ascii "/users/:id/") (ascii "/users/a%2F%3Ab/") ∅ =
    (true,Finmap.singleton (ascii "id") (ascii "a/:b")) :=
  (matchRoute_inverts (ascii "/users/:id/") [] (Finmap.singleton (ascii "id") (ascii "a/:b")) ∅).1
    (by simp [show names (segments (ascii "/users/:id/")) = [ascii "id"] by decide])
    (by
      intro name value found
      by_cases here : name = ascii "id"
      · subst here
        rw [Finmap.lookup_singleton_eq] at found
        cases found
        decide
      · rw [Finmap.lookup_eq_none.mpr (by simpa using here)] at found
        cases found)

end LinuxOS.Http
