import Bingit.Handlers

namespace Bingit.Session

open Text Interleaving

def Matches (location path : Text) : Prop := path = location ∨ find (location ++ "/".toList) path = some 0

instance (location path : Text) : Decidable (Matches location path) := inferInstanceAs (Decidable (_ ∨ _))

def dispatch (paths : HandlerPaths) (path : Text) : Option (Text × Text × NginxConfig) :=
  paths.toList.find? (fun element => Matches element.1 path)

def make400Request : Reply :=
  makeReply "HTTP/1.1".toList 400 "text/plain".toList "400 Bad Request".toList

def selectHandler (params : ConfigParams) (path : Text) : Handler :=
  match dispatch params.handlerPaths path with
  | some (_, name, config) => .createByName name config params.serverRoot
  | none => .createByName [] [] params.serverRoot

section

variable {Db : Type} (env : Env Db) (params : ConfigParams)

def respond (request : Request) : Action Reply :=
  if request.valid then do
    Action.createHandler
    (selectHandler params request.path).handleRequest env params.handlerPaths request
  else pure make400Request

def handleRead (data : Text) : Action Reply := do
  let request := parseRequestLine data
  let response ← respond env params request
  Action.updateCounters request.path response.code
  Action.asyncWrite (constructHttpResponse env.order response)
  pure response

end

def IsHandlerOp : Op → Prop
  | .updateCounters _ _ => False
  | .asyncWrite _ => False
  | _ => True

def finish (order : HeaderOrder) (path : Text) (r : Reply) : List (Event Ret) :=
  [⟨.updateCounters path r.code, ()⟩, ⟨.asyncWrite (constructHttpResponse order r), ()⟩]

theorem handleRead_cases {Db : Type} {env : Env Db} {params : ConfigParams} {data : Text}
    {es : List (Event Ret)} {q : Action Reply} (h : Path (handleRead env params data) es q) :
    (∃ p, Path (respond env params (parseRequestLine data)) es p) ∨
      ∃ r es₁ es₂, Path (respond env params (parseRequestLine data)) es₁ (.pure r) ∧ es = es₁ ++ es₂ ∧
        es₂ <+: finish env.order (parseRequestLine data).path r := by
  rcases Path.bind_inv h with ⟨p, hp, -⟩ | ⟨r, es₁, es₂, rfl, hr, hrest⟩
  · exact .inl ⟨p, hp⟩
  · refine .inr ⟨r, es₁, es₂, hr, rfl, ?_⟩
    rcases Path.call_inv hrest with ⟨rfl, -⟩ | ⟨_, es₃, rfl, hwrite⟩
    · exact List.nil_prefix
    · rcases Path.call_inv hwrite with ⟨rfl, -⟩ | ⟨_, es₄, rfl, hdone⟩
      · exact ⟨_, rfl⟩
      · obtain ⟨rfl, -⟩ := Path.pure_inv hdone
        exact List.prefix_rfl

theorem handleRead_done {Db : Type} {env : Env Db} {params : ConfigParams} {data : Text}
    {es : List (Event Ret)} {r : Reply} (h : Path (handleRead env params data) es (.pure r)) :
    ∃ es₁, Path (respond env params (parseRequestLine data)) es₁ (.pure r) ∧
      es = es₁ ++ finish env.order (parseRequestLine data).path r := by
  obtain ⟨r', es₁, es₂, rfl, hr, hrest⟩ := Path.bind_pure_inv h
  obtain ⟨_, es₃, rfl, hwrite⟩ := Path.call_pure_inv hrest
  obtain ⟨_, es₄, rfl, hdone⟩ := Path.call_pure_inv hwrite
  obtain ⟨rfl, hreply⟩ := Path.pure_inv hdone
  obtain rfl := Prog.pure.inj hreply
  exact ⟨es₁, hr, rfl⟩

def Registered (paths : HandlerPaths) : Prop :=
  ∀ k handlerType block, paths[k]? = some (handlerType, block) →
    k ≠ [] ∧ NginxConfig.getKeyValue "location".toList block = k

theorem registered_insert {paths : HandlerPaths} (h : Registered paths) {handlerType : Text} {block : NginxConfig}
    (hlocation : NginxConfig.getKeyValue "location".toList block ≠ []) :
    Registered (paths.insert (NginxConfig.getKeyValue "location".toList block) (handlerType, block)) := by
  intro k type b hk
  rw [Std.TreeMap.getElem?_insert] at hk
  split at hk
  · next heq =>
    obtain ⟨rfl, rfl⟩ := Prod.mk.inj (Option.some.inj hk)
    have hkey := Std.compare_eq_iff_eq.mp heq
    exact ⟨hkey ▸ hlocation, hkey⟩
  · exact h k type b hk

theorem registered_getHandlerPaths (config : NginxConfig) (paths : HandlerPaths) (h : Registered paths) :
    Registered (config.getHandlerPaths paths) := by
  induction config, paths using NginxConfig.getHandlerPaths.induct
    (fun statement paths => Registered paths → Registered (statement.getHandlerPaths paths)) with
  | case1 tokens paths h => exact h
  | case2 child paths handlerType path hinsert h =>
    simp only [NginxConfigStatement.getHandlerPaths, if_pos]
    rw [if_pos hinsert]
    exact registered_insert h hinsert.1
  | case3 child paths handlerType path hskip h =>
    simp only [NginxConfigStatement.getHandlerPaths, if_pos]
    rwa [if_neg hskip]
  | case4 child paths keyword handlerType hkeyword ih h =>
    rw [NginxConfigStatement.getHandlerPaths]
    simp only [if_neg hkeyword]
    exact ih h
  | case5 tokens child paths htokens ih h =>
    rw [NginxConfigStatement.getHandlerPaths]
    · exact ih h
    · exact htokens
  | case6 paths => exact h
  | case7 statement rest paths ihstatement ihrest => exact ihrest (ihstatement h)

theorem prefix_of_matches {location path : Text} (h : Matches location path) : location <+: path := by
  rcases h with rfl | h
  · exact List.prefix_rfl
  · exact (List.prefix_append _ _).trans ((find_eq_zero_iff _ _).mp h)

theorem registered_empty : Registered ∅ := by
  intro k handlerType block hk
  simp at hk

theorem dispatch_spec {config : NginxConfig} {path k handlerType : Text} {block : NginxConfig}
    (h : dispatch (config.getHandlerPaths ∅) path = some (k, handlerType, block)) :
    NginxConfig.getKeyValue "location".toList block = k ∧ k <+: path := by
  have hmatch : Matches k path := by simpa using List.find?_some h
  have hget := Std.TreeMap.mem_toList_iff_getElem?_eq_some.mp (List.mem_of_find?_eq_some h)
  exact ⟨(registered_getHandlerPaths config ∅ registered_empty k handlerType block hget).2,
    prefix_of_matches hmatch⟩

/-- The location is `k`, and the branches that depend on it agree. -/
def AgreesOn (k : Text) (request : Request) : Handler → Prop
  | .static h => h.location = k ∧ ¬ h.LocationMismatch request.path
  | .meme h => h.location = k ∧ ¬ h.LocationMismatch request.path
  | .proxy h => h.location = k ∧ h.getRequestURI request ≠ none
  | _ => True

theorem static_not_mismatch {h : StaticHandler} {path : Text} (hinitial : h.location <+: path) :
    ¬ h.LocationMismatch path := by
  have hfind := (find_eq_zero_iff h.location path).mpr hinitial
  simp [StaticHandler.LocationMismatch, hfind]

theorem meme_not_mismatch {h : MemeHandler} {path : Text} (hinitial : h.location <+: path) :
    ¬ h.LocationMismatch path := by
  have hfind := (find_eq_zero_iff h.location path).mpr hinitial
  simp [MemeHandler.LocationMismatch, hfind]

theorem getRequestURI_ne_none {h : ProxyHandler} {request : Request} (hinitial : h.location <+: request.path) :
    h.getRequestURI request ≠ none := by
  simp [ProxyHandler.getRequestURI, hinitial.length_le]

theorem dispatch_agreesOn (config : NginxConfig) (request : Request) (serverRoot : Text) {k handlerType : Text}
    {block : NginxConfig} (h : dispatch (config.getHandlerPaths ∅) request.path = some (k, handlerType, block)) :
    NginxConfig.getKeyValue "location".toList block = k ∧ k <+: request.path ∧
      AgreesOn k request (.createByName handlerType block serverRoot) := by
  obtain ⟨hlocation, hinitial⟩ := dispatch_spec h
  have hown : NginxConfig.getKeyValue "location".toList block <+: request.path := hlocation ▸ hinitial
  refine ⟨hlocation, hinitial, ?_⟩
  unfold Handler.createByName
  split_ifs
  · trivial
  · exact ⟨hlocation, static_not_mismatch hown⟩
  · trivial
  · exact ⟨hlocation, getRequestURI_ne_none hown⟩
  · exact ⟨hlocation, meme_not_mismatch hown⟩
  · trivial
  · trivial

theorem dispatch_agreesOn_nested :
    AgreesOn "/static2".toList ⟨"GET".toList, "/static2/index.html".toList, "HTTP/1.1".toList, ∅, [], [], true⟩
      (.createByName "static".toList
        [.mk ["location".toList, "/static2".toList] none, .mk ["root".toList, "static".toList] none] "./".toList) :=
  (dispatch_agreesOn
    [.mk ["handler".toList, "static".toList] (some [.mk ["location".toList, "/static".toList] none]),
      .mk ["server".toList] (some [.mk ["handler".toList, "static".toList]
        (some [.mk ["location".toList, "/static2".toList] none, .mk ["root".toList, "static".toList] none])])]
    ⟨"GET".toList, "/static2/index.html".toList, "HTTP/1.1".toList, ∅, [], [], true⟩ "./".toList
    (k := "/static2".toList) rfl).2.2

end Bingit.Session
