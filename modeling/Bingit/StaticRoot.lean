import Bingit.Dispatch
import Bingit.LexicalPath

namespace Bingit

open Text Session

namespace StaticHandler

def component (w : Text) : Option (Option Text) :=
  if w = [] ∨ w = ".".toList then none else if w = "..".toList then some none else some (some w)

def components (path : Text) : List (Option Text) := (path.splitOn '/').filterMap component

def resolve (path : Text) : LexicalPath Text := (LexicalPath.start (path.head? = some '/')).walk (components path)

theorem components_append (a b : Text) : components (a ++ '/' :: b) = components a ++ components ('/' :: b) := by
  have hslash : components ('/' :: b) = components b := by
    have hsplit := List.splitOn_append_cons_self (a := '/') ([] : Text) b
    rw [List.nil_append] at hsplit
    rw [components, hsplit, List.filterMap_append]
    rfl
  rw [hslash, components, List.splitOn_append_cons_self, List.filterMap_append]
  rfl

theorem resolve_append {root rest : Text} (hroot : root ≠ []) (hrest : ∀ c ∈ rest.head?, c = '/') :
    resolve (root ++ rest) = (resolve root).walk (components rest) := by
  cases rest with
  | nil =>
    rw [List.append_nil]
    rfl
  | cons c rest =>
    obtain rfl : c = '/' := hrest c rfl
    rw [resolve, resolve, ← LexicalPath.walk_append, components_append, List.head?_append_of_ne_nil _ hroot]

def openedPath (h : StaticHandler) (request : Request) : Text := h.handlerRoot ++ request.path.drop h.location.length

variable {Db : Type}

def ServesBelowRoot (env : Env Db) (h : StaticHandler) (request : Request) : Prop :=
  (h.servePage env request).code = 200 → LexicalPath.AtOrBelow (resolve h.handlerRoot) (resolve (h.openedPath request))

/-- It goes back down through the directories that it climbs over. -/
def StaysBelow (root : LexicalPath Text) (rest : Text) : Prop :=
  let climb := LexicalPath.relative (components rest)
  (root.absolute = true ∨ climb.ups ≤ root.names.length) ∧
    root.names.drop (root.names.length - climb.ups) <+: climb.names

instance (root : LexicalPath Text) (rest : Text) : Decidable (StaysBelow root rest) := inferInstanceAs (Decidable (_ ∧ _))

theorem serverRoot_ne_nil (config : NginxConfig) : (ConfigParams.ofConfig config).serverRoot ≠ [] := by
  unfold ConfigParams.ofConfig
  simp only
  split_ifs with hdefault hslash
  · simp
  · simp
  · exact fun hnil => hdefault (.inl hnil)

theorem handlerRoot_ne_nil (block : NginxConfig) {serverRoot : Text} (h : serverRoot ≠ []) :
    (create block serverRoot).handlerRoot ≠ [] := by
  unfold create
  simp only
  split_ifs with hempty
  · exact h
  · exact hempty
  · simp [h]

theorem servePage_code_iff (env : Env Db) {h : StaticHandler} {request : Request}
    (hlocation : ¬ h.LocationMismatch request.path) :
    (h.servePage env request).code = 200 ↔ env.readFile (h.openedPath request) ≠ none := by
  unfold servePage openedPath
  simp only [if_neg hlocation]
  cases env.readFile (h.handlerRoot ++ request.path.drop h.location.length) with
  | none => simp [Page.notFound]
  | some content => simp

theorem rest_of_matches {k path : Text} (h : Matches k path) : ∀ c ∈ (path.drop k.length).head?, c = '/' := by
  rcases h with rfl | h
  · simp
  · obtain ⟨rest, rfl⟩ := (find_eq_zero_iff _ _).mp h
    rw [List.append_assoc, List.drop_left]
    intro c hc
    exact (Option.some.inj hc).symm

theorem servesBelowRoot_iff (env : Env Db) {config block : NginxConfig} {request : Request} {k : Text}
    (hdispatch : dispatch (ConfigParams.ofConfig config).handlerPaths request.path = some (k, "static".toList, block)) :
    ServesBelowRoot env (create block (ConfigParams.ofConfig config).serverRoot) request ↔
      env.readFile (openedPath (create block (ConfigParams.ofConfig config).serverRoot) request) = none ∨
        StaysBelow (resolve (create block (ConfigParams.ofConfig config).serverRoot).handlerRoot)
          (request.path.drop k.length) := by
  obtain ⟨hlocation, hinitial⟩ := dispatch_spec hdispatch
  have hmatch := (mem_of_dispatch hdispatch).2
  generalize hh : create block (ConfigParams.ofConfig config).serverRoot = h
  have hown : h.location = k := by rw [← hh]; exact hlocation
  have hroot : h.handlerRoot ≠ [] := by
    rw [← hh]
    exact handlerRoot_ne_nil block (serverRoot_ne_nil config)
  have hno : ¬ h.LocationMismatch request.path := static_not_mismatch (by rw [hown]; exact hinitial)
  have hopened : resolve (h.openedPath request) = (resolve h.handlerRoot).walk (components (request.path.drop k.length)) := by
    rw [openedPath, hown]
    exact resolve_append hroot (rest_of_matches hmatch)
  rw [ServesBelowRoot, servePage_code_iff env hno, hopened, LexicalPath.atOrBelow_walk_iff, ne_eq, ← or_iff_not_imp_left]
  rfl

def staticBlock : NginxConfig := [.mk ["location".toList, "/static".toList] none, .mk ["root".toList, "files".toList] none]

def staticConfig : NginxConfig := [.mk ["handler".toList, "static".toList] (some staticBlock)]

def oneFile (path : Text) : Env Unit :=
  { Env.standalone (fun db _ => (db, ⟨[], none⟩)) with readFile := fun p => if p = path then some "x".toList else none }

theorem servesBelowRoot_inside :
    ServesBelowRoot (oneFile "./files/a/../../files/b.txt".toList)
      (create staticBlock (ConfigParams.ofConfig staticConfig).serverRoot)
      (parseRequestLine "GET /static/a/../../files/b.txt HTTP/1.1\r\n\r\n".toList) :=
  (servesBelowRoot_iff (oneFile "./files/a/../../files/b.txt".toList)
    (show dispatch (ConfigParams.ofConfig staticConfig).handlerPaths _ = some ("/static".toList, "static".toList, staticBlock)
      from rfl)).mpr (.inr (by decide +kernel))

theorem climbs_out_of_root :
    (parseRequestLine "GET /static/../secret HTTP/1.1\r\n\r\n".toList).valid = true ∧
      dispatch (ConfigParams.ofConfig staticConfig).handlerPaths
          (parseRequestLine "GET /static/../secret HTTP/1.1\r\n\r\n".toList).path =
        some ("/static".toList, "static".toList, staticBlock) ∧
      ¬ ServesBelowRoot (oneFile "./files/../secret".toList)
        (create staticBlock (ConfigParams.ofConfig staticConfig).serverRoot)
        (parseRequestLine "GET /static/../secret HTTP/1.1\r\n\r\n".toList) := by
  repeat rw [String.toList_ofList]
  refine ⟨by decide +kernel, rfl, ?_⟩
  intro hserves
  obtain ⟨-, -, hnames⟩ := hserves (by decide +kernel)
  revert hnames
  decide +kernel

end StaticHandler

end Bingit
