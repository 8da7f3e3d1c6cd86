import LinuxOS.Http.RouteMatching

namespace LinuxOS.Http
open Util Paths
namespace HttpServer

-- The route whose callback Dispatcher invokes, with the request it is given.
def selectMatched (req : HttpRequest) : RouteTable → Option (RouteItem × HttpRequest)
  | [] => none
  | route :: rest =>
    if 58 ∉ route.pattern then selectMatched req rest
    else
      match matchRoute route.pattern req.path with
      | none => selectMatched req rest
      | some params => some (route,{req with pathParams := params ∪ req.pathParams})

def selected (req : HttpRequest) (routes : RouteTable) : Option (RouteItem × HttpRequest) :=
  match routes.find? (fun route => route.pattern = req.path) with
  | some route => some (route,req)
  | none => selectMatched req routes

end HttpServer

open HttpServer
variable {result matched : Dict}
variable {req passed : HttpRequest} {route : RouteItem} {routes : RouteTable} {resp : HttpResponse}

theorem dispatchMatched_selected (req : HttpRequest) (resp : HttpResponse) (routes : RouteTable) :
    dispatchMatched req resp routes =
      match selectMatched req routes with
      | none => {resp with code := 404}
      | some (route,passed) => route.cb passed resp := by
  induction routes with
  | nil => rfl
  | cons route routes ih =>
    rw [dispatchMatched,selectMatched]
    split
    · exact ih
    · cases matchRoute route.pattern req.path with
      | none => exact ih
      | some params => rfl

theorem dispatcher_selected (req : HttpRequest) (resp : HttpResponse) (routes : RouteTable) :
    dispatcher req resp routes =
      match selected req routes with
      | none => {resp with code := 404}
      | some (route,passed) => route.cb passed resp := by
  unfold dispatcher selected
  cases routes.find? (fun route => route.pattern = req.path) with
  | some route => rfl
  | none => exact dispatchMatched_selected req resp routes

theorem setPathParam_loop {params : Dict} {entries : List (Bytes × Bytes)} (distinct : (entries.map Prod.fst).Nodup)
    (holds : ∀ key val, (key,val) ∈ entries ↔ params.lookup key = some val) (req : HttpRequest) :
    entries.foldl (fun r param => r.setPathParam param.1 param.2) req =
      {req with pathParams := params ∪ req.pathParams} := by
  induction entries generalizing params req with
  | nil =>
    have empty : params = ∅ := Finmap.ext_lookup fun key => by
      rw [Finmap.lookup_empty,Option.eq_none_iff_forall_ne_some]
      intro val held
      cases (holds key val).mpr held
    rw [empty,Finmap.empty_union]
    rfl
  | cons first rest ih =>
    obtain ⟨fresh,distinct⟩ := List.nodup_cons.mp distinct
    have others : ∀ key val, (key,val) ∈ rest ↔ (params.erase first.1).lookup key = some val := by
      intro key val
      by_cases same : key = first.1
      · subst same
        rw [Finmap.lookup_erase]
        exact ⟨fun member => absurd (List.mem_map_of_mem member) fresh,fun none => by cases none⟩
      · rw [Finmap.lookup_erase_ne same,← holds key val,List.mem_cons]
        exact ⟨.inr,fun either => either.resolve_left fun equal => same (congrArg Prod.fst equal)⟩
    have held : params.lookup first.1 = some first.2 := (holds first.1 first.2).mp List.mem_cons_self
    have alone : req.pathParams.insert first.1 first.2 = Finmap.singleton first.1 first.2 ∪ req.pathParams :=
      calc req.pathParams.insert first.1 first.2 = (∅ ∪ req.pathParams).insert first.1 first.2 := by rw [Finmap.empty_union]
        _ = Finmap.singleton first.1 first.2 ∪ req.pathParams := Finmap.insert_union
    rw [List.foldl_cons,ih distinct others,HttpRequest.setPathParam,alone,← Finmap.union_assoc,
      Finmap.erase_union_singleton _ _ _ held]

theorem selectMatched_some (chosen : selectMatched req routes = some (route,passed)) :
    ∃ params, matchRoute route.pattern req.path = some params ∧ passed = {req with pathParams := params ∪ req.pathParams} := by
  induction routes with
  | nil => cases chosen
  | cons first routes ih =>
    rw [selectMatched] at chosen
    split at chosen
    · exact ih chosen
    · cases found : matchRoute first.pattern req.path with
      | none => rw [found] at chosen; exact ih chosen
      | some params =>
        rw [found] at chosen
        cases chosen
        exact ⟨params,found,rfl⟩

def Given (pattern path : Bytes) (passed : HttpRequest) : Prop :=
  (names (split pattern [47])).Nodup → ∀ (i : Nat) (name : Bytes), name ≠ [] →
    (split pattern [47])[i]? = some (58 :: name) →
    ∃ segment, (split path [47])[i]? = some segment ∧ passed.pathParams.lookup name = some (urlDecode false segment)

theorem given_matched {pattern path : Bytes} (accepted : matchRoute pattern path = some result)
    (params : passed.pathParams = result ∪ matched) : Given pattern path passed := by
  intro distinct i name named here
  have parameter : isParameter (58 :: name) = true := isParameter_shape.mpr ⟨name,named,rfl⟩
  obtain ⟨segment,there,holds⟩ := matchSegments_given (matchRoute_segments accepted) distinct here parameter
  rw [List.tail_cons] at holds
  refine ⟨segment,there,?_⟩
  rw [params,Finmap.lookup_union_left (Finmap.mem_of_lookup_eq_some holds)]
  exact holds

theorem given_static {pattern path : Bytes} (static : (names (split pattern [47])).Nodup → names (split pattern [47]) = []) :
    Given pattern path passed := by
  intro distinct i name named here
  have parameter : isParameter (58 :: name) = true := isParameter_shape.mpr ⟨name,named,rfl⟩
  have listed : name ∈ names (split pattern [47]) := mem_names (List.mem_of_getElem? here) parameter
  rw [static distinct] at listed
  cases listed

-- The first pass hands the request on as it came, so what has no parameters yet
-- must not need any.
theorem selected_given (req : HttpRequest) (routes : RouteTable) (fresh : req.pathParams = ∅) :
    (∀ route passed, selected req routes = some (route,passed) → Given route.pattern req.path passed) ↔
      ((∃ route ∈ routes, route.pattern = req.path) →
        (names (split req.path [47])).Nodup → names (split req.path [47]) = []) := by
  constructor
  · intro holds literal distinct
    obtain ⟨route,listed,same⟩ := literal
    cases found : routes.find? (fun route => route.pattern = req.path) with
    | none =>
      have other := List.find?_eq_none.mp found route listed
      exact absurd same (by simpa using other)
    | some first =>
      have equal : first.pattern = req.path := by simpa using List.find?_some found
      have given := holds first req (by rw [selected,found])
      rw [equal] at given
      rw [List.eq_nil_iff_forall_not_mem]
      intro name member
      obtain ⟨segment,kept,rfl⟩ := List.mem_map.mp member
      obtain ⟨inside,parameter⟩ := List.mem_filter.mp kept
      obtain ⟨name,named,rfl⟩ := isParameter_shape.mp parameter
      obtain ⟨i,here⟩ := List.mem_iff_getElem?.mp inside
      obtain ⟨_,_,value⟩ := given distinct i name named here
      rw [fresh,Finmap.lookup_empty] at value
      cases value
  · intro condition route passed chosen
    unfold selected at chosen
    cases found : routes.find? (fun route => route.pattern = req.path) with
    | some first =>
      rw [found] at chosen
      cases chosen
      have equal : route.pattern = req.path := by simpa using List.find?_some found
      have static := condition ⟨route,List.mem_of_find?_eq_some found,equal⟩
      rw [← equal] at static
      exact given_static static
    | none =>
      rw [found] at chosen
      obtain ⟨params,accepted,rfl⟩ := selectMatched_some chosen
      exact given_matched accepted rfl

theorem selected_given_user : ∃ route passed,
    selected {path := ascii "/users/a%2Fb"} [⟨ascii "/users/:id",fun _ resp => resp⟩] = some (route,passed) ∧
    Given route.pattern (ascii "/users/a%2Fb") passed :=
  ⟨_,_,rfl,(selected_given {path := ascii "/users/a%2Fb"} [⟨ascii "/users/:id",fun _ resp => resp⟩] rfl).mpr
    (fun _ _ => by decide) _ _ rfl⟩

-- A path that is the pattern itself: the callback is invoked without "id".
theorem selected_literal : ¬∀ (req : HttpRequest) (routes : RouteTable), req.pathParams = ∅ → ∀ route passed,
    selected req routes = some (route,passed) → Given route.pattern req.path passed := by
  intro holds
  have given := holds {path := ascii "/users/:id"} [⟨ascii "/users/:id",fun _ resp => resp⟩] rfl _ _ rfl
  obtain ⟨segment,_,value⟩ := given (by decide) 2 (ascii "id") (by decide) (by decide)
  rw [Finmap.lookup_empty] at value
  cases value

namespace HttpContext
variable {c next : HttpContext} {x rest line : Bytes} {motive : HttpRequest → Prop}

theorem takeHead_keeps (head : ∀ r key val, motive r → motive (r.setHeaders key val)) (holds : motive c.request) :
    motive (c.takeHead line).2.request := by
  unfold takeHead
  split
  · exact holds
  · split
    · exact holds
    · unfold parseHttpHead
      dsimp only
      cases Bytes.find (chomp line) [58,32] 0 with
      | none => exact holds
      | some pos => exact head _ _ _ holds

theorem takeReqLine_keeps (reqLine : ∀ r line, motive r → motive (parseReqLine r line).2) (holds : motive c.request) :
    motive (c.takeReqLine line).2.request := by
  unfold takeReqLine
  split
  · exact holds
  · have kept := reqLine c.request line holds
    split <;> (rename_i parsed; rw [parsed] at kept; exact kept)

theorem bodyOf_keeps (body : ∀ r part, motive r → motive {r with body := r.body ++ part}) (holds : motive c.request)
    (parsed : bodyOf c x = .ok (next,rest)) : motive next.request := by
  rcases bodyOf_cases parsed with ⟨rfl,_⟩ | ⟨part,count,rfl,_⟩ | ⟨rfl,_⟩
  · exact holds
  · exact body _ _ holds
  · exact body _ _ holds

theorem headOf_keeps (head : ∀ r key val, motive r → motive (r.setHeaders key val))
    (body : ∀ r part, motive r → motive {r with body := r.body ++ part}) (holds : motive c.request)
    (parsed : headOf c x = .ok (next,rest)) : motive next.request := by
  induction x using takeLine_induction generalizing c with
  | pending x cut =>
    rw [headOf_open cut] at parsed
    cases parsed
    split <;> exact holds
  | cut x line left cut ih =>
    have kept : motive (c.takeHead line).2.request := takeHead_keeps head holds
    rw [headOf_line cut] at parsed
    rcases takeHead_cases c line with ⟨code,failed⟩ | blank | ⟨request,header⟩
    · rw [failed] at parsed kept; cases parsed; exact kept
    · rw [blank] at parsed kept; exact bodyOf_keeps body kept parsed
    · rw [header] at parsed kept; exact ih kept parsed

theorem parse_keeps (reqLine : ∀ r line, motive r → motive (parseReqLine r line).2)
    (head : ∀ r key val, motive r → motive (r.setHeaders key val))
    (body : ∀ r part, motive r → motive {r with body := r.body ++ part}) (holds : motive c.request)
    (parsed : parse c x = .ok (next,rest)) : motive next.request := by
  cases active : c.status with
  | line =>
    simp only [parse,active] at parsed
    unfold lineOf at parsed
    cases cut : takeLine x with
    | none =>
      simp only [cut] at parsed
      cases parsed
      split <;> exact holds
    | some parts =>
      obtain ⟨line,left⟩ := parts
      have kept : motive (c.takeReqLine line).2.request := takeReqLine_keeps reqLine holds
      simp only [cut] at parsed
      rcases takeReqLine_cases c line with ⟨failed,taken,_⟩ | ⟨request,taken⟩
      · rw [taken] at parsed kept; cases parsed; exact kept
      · rw [taken] at parsed kept; exact headOf_keeps head body kept parsed
  | head =>
    simp only [parse,active] at parsed
    exact headOf_keeps head body holds parsed
  | body =>
    simp only [parse,active] at parsed
    exact bodyOf_keeps body holds parsed
  | _ =>
    simp only [parse,active] at parsed
    cases parsed
    exact holds

theorem parseReqLine_pathParams (r : HttpRequest) (line : Bytes) : (parseReqLine r line).2.pathParams = r.pathParams := by
  obtain ⟨_,_,_,_,_,_,frame⟩ := parseReqLine_frame r line
  rw [frame]

theorem parse_pathParams (parsed : parse c x = .ok (next,rest)) : next.request.pathParams = c.request.pathParams :=
  parse_keeps (motive := fun r => r.pathParams = c.request.pathParams)
    (fun r line same => (parseReqLine_pathParams r line).trans same) (fun _ _ _ same => same) (fun _ _ same => same)
    rfl parsed

end HttpContext
end LinuxOS.Http
