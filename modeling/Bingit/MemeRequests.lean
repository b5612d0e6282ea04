import Bingit.MemeStore
import Bingit.UserText

namespace Bingit.Meme

open Text Sql Interleaving Session MemeHandler

variable {Db : Type} {env : Env Db}

def GoodForm (form : CreateForm) : Prop :=
  '\'' ∉ form.picFile ∧ '\'' ∉ form.topText ∧ '\'' ∉ form.botText ∧ (form.editId = [] ∨ ∃ n, form.editId = decimal n)

/-- The fields fit, the texts hold no quote and ids are decimal. -/
def GoodRequest (env : Env Db) (h : MemeHandler) (request : Request) : Prop :=
  match h.route request.path with
  | .create => ∃ form, createForm env request.body = some form ∧ GoodForm form
  | .edit memeId => ∃ n, memeId = decimal n
  | .delete memeId => ∃ n, memeId = decimal n
  | .view => ∃ n, h.viewId env request.path = some (decimal n)
  | .list => ∃ q, h.searchQuery env request.path = some q ∧ '\'' ∉ q
  | .new => True
  | .unknown => True

def GoodRead (env : Env Db) (params : ConfigParams) (data : Text) : Prop :=
  (parseRequestLine data).valid = true → ∀ h, selectHandler params (parseRequestLine data).path = .meme h →
    GoodRequest env h (parseRequestLine data)

theorem goodOp_create {body : Text} {form : CreateForm} (hform : createForm env body = some form)
    (hgood : GoodForm form) : (prepareCreateRequest env body).Ensures GoodOp (fun _ => True) := by
  obtain ⟨hpic, htop, hbot, hid⟩ := hgood
  obtain ⟨hpicNul, htopNul, hbotNul, -⟩ := nul_notMem_createForm env hform
  have htexts : ∀ t ∈ [form.picFile, form.topText, form.botText], '\'' ∉ t ∧ nul ∉ t := by
    simp only [List.forall_mem_cons]
    exact ⟨⟨hpic, hpicNul⟩, ⟨htop, htopNul⟩, ⟨hbot, hbotNul⟩, by simp⟩
  rw [prepareCreateRequest, hform]
  change Prog.Ensures _ _ (if form.Rejected then _ else _)
  split
  · trivial
  · split
    · exact ⟨htexts, fun _ => trivial⟩
    · next hedit => exact ⟨⟨htexts, hid.resolve_left hedit⟩, fun _ => trivial⟩

theorem goodOp_readMeme (n : ℕ) (found : MemeRow → Page) :
    (readMeme (decimal n) found).Ensures GoodOp (fun _ => True) := by
  refine ⟨⟨n, rfl⟩, fun result => ?_⟩
  apply Prog.ensures_ofOption
  intro row _
  split <;> trivial

theorem goodOp_view {h : MemeHandler} {path : Text} {n : ℕ} (hid : h.viewId env path = some (decimal n)) :
    (h.prepareViewRequest env path).Ensures GoodOp (fun _ => True) := by
  rw [prepareViewRequest, hid]
  change Prog.Ensures _ _ (if decimal n = [] then _ else _)
  rw [if_neg (decimal_ne_nil n)]
  exact goodOp_readMeme n _

theorem goodOp_list {h : MemeHandler} {path q : Text} (hq : h.searchQuery env path = some q) (hquote : '\'' ∉ q) :
    (h.prepareListRequest env path).Ensures GoodOp (fun _ => True) := by
  have hnul : nul ∉ q := by
    obtain ⟨field, -, rfl⟩ := Option.map_eq_some_iff.mp hq
    exact nul_notMem_decodeField env field
  rw [prepareListRequest, hq]
  refine ⟨?_, fun result => ?_⟩
  · split
    · trivial
    · next hne => exact ⟨hne, hquote, hnul⟩
  · apply Prog.ensures_ofOption
    intro rows _
    split <;> trivial

theorem goodOp_servePage {h : MemeHandler} {request : Request} (hgood : GoodRequest env h request) :
    (h.servePage env request).Ensures GoodOp (fun _ => True) := by
  unfold servePage
  unfold GoodRequest at hgood
  split
  · trivial
  · cases hroute : h.route request.path with
    | new => trivial
    | edit memeId =>
      rw [hroute] at hgood
      obtain ⟨n, rfl⟩ := hgood
      exact goodOp_readMeme n _
    | create =>
      rw [hroute] at hgood
      obtain ⟨form, hform, hgood⟩ := hgood
      exact goodOp_create hform hgood
    | view =>
      rw [hroute] at hgood
      obtain ⟨n, hid⟩ := hgood
      exact goodOp_view hid
    | list =>
      rw [hroute] at hgood
      obtain ⟨q, hq, hquote⟩ := hgood
      exact goodOp_list hq hquote
    | delete memeId =>
      rw [hroute] at hgood
      exact ⟨hgood, fun _ => trivial⟩
    | unknown => trivial

theorem goodOp_handleRequest (paths : HandlerPaths) {request : Request} {h : Handler}
    (hgood : ∀ m, h = .meme m → GoodRequest env m request) :
    (h.handleRequest env paths request).Ensures GoodOp (fun _ => True) := by
  cases h with
  | echo => trivial
  | static h => trivial
  | status => exact ⟨trivial, fun _ => ⟨trivial, fun _ => ⟨trivial, fun _ => trivial⟩⟩⟩
  | proxy h =>
    apply Prog.ensures_ofOption
    intro uri _
    apply Prog.ensures_ofOption
    intro serverResponse _
    trivial
  | meme m => exact Prog.ensures_bind (goodOp_servePage (hgood m rfl)) (fun _ _ => trivial)
  | health => trivial
  | badRequest => trivial

theorem goodOp_handleRead {params : ConfigParams} {data : Text} (hgood : GoodRead env params data) :
    (handleRead env params data).Ensures GoodOp (fun _ => True) := by
  have hrespond : (respond env params (parseRequestLine data)).Ensures GoodOp (fun _ => True) := by
    unfold respond
    split
    · next hvalid => exact ⟨trivial, fun _ => goodOp_handleRequest params.handlerPaths (hgood hvalid)⟩
    · trivial
  exact Prog.ensures_bind hrespond (fun _ _ => ⟨trivial, fun _ => ⟨trivial, fun _ => trivial⟩⟩)

def CreateForm.command (form : CreateForm) : Option Command :=
  if form.Rejected then none
  else if form.editId = [] then some (.create ⟨form.picFile, form.topText, form.botText⟩)
  else (decodeNumber form.editId).map (fun n => .edit n ⟨form.picFile, form.topText, form.botText⟩)

def storeOp : Op → Option Op
  | .insertMeme picFile topText botText => some (.insertMeme picFile topText botText)
  | .query q => some (.query q)
  | _ => none

def createCall (form : CreateForm) : Option Op :=
  if form.Rejected then none
  else if form.editId = [] then some (.insertMeme form.picFile form.topText form.botText)
  else some (.query (.update form.picFile form.topText form.botText form.editId))

def viewCall (memeId : Text) : Option Op := if memeId = [] then none else some (.query (.select memeId))

def listCall (searchQuery : Text) : Op := .query (if searchQuery = [] then .list else .search searchQuery)

def storeCallFor (env : Env Db) (h : MemeHandler) (request : Request) : Option Op :=
  if h.LocationMismatch request.path then none
  else
    match h.route request.path with
    | .create => (createForm env request.body).bind createCall
    | .edit memeId => some (.query (.select memeId))
    | .view => (h.viewId env request.path).bind viewCall
    | .list => (h.searchQuery env request.path).map listCall
    | .delete memeId => some (.query (.delete memeId))
    | .new => none
    | .unknown => none

def readStoreCall (env : Env Db) (params : ConfigParams) (data : Text) : Option Op :=
  if (parseRequestLine data).valid then
    match selectHandler params (parseRequestLine data).path with
    | .meme h => storeCallFor env h (parseRequestLine data)
    | _ => none
  else none

abbrev Issues {α : Type} (p : Action α) (op : Option Op) : Prop := p.Issues storeOp op.toList

theorem issues_query {α : Type} (q : Query) {f : ExecResult → Action α} (hf : ∀ result, Issues (f result) none) :
    Issues (Action.query q >>= f) (some (.query q)) := ⟨[], rfl, hf⟩

theorem issues_then {α β : Type} {p : Action α} {f : α → Action β} {op : Option Op} (hp : Issues p op)
    (hf : ∀ a, Issues (f a) none) : Issues (p >>= f) op := by
  have hbind := Prog.issues_bind hp hf
  rwa [Option.toList_none, List.append_nil] at hbind

theorem issues_create (body : Text) :
    Issues (prepareCreateRequest env body) ((createForm env body).bind createCall) := by
  apply Prog.issues_ofOption
  intro form hform
  rw [Option.mem_def.mp hform, Option.bind_some, createCall]
  split
  · rfl
  · split
    · exact ⟨[], rfl, fun _ => rfl⟩
    · exact issues_query _ fun _ => rfl

theorem issues_readMeme (memeId : Text) (found : MemeRow → Page) :
    Issues (readMeme memeId found) (some (.query (.select memeId))) := by
  apply issues_query
  intro result
  apply Prog.issues_ofOption
  intro row _
  split <;> rfl

theorem issues_view (h : MemeHandler) (path : Text) :
    Issues (h.prepareViewRequest env path) ((h.viewId env path).bind viewCall) := by
  apply Prog.issues_ofOption
  intro memeId hid
  rw [Option.mem_def.mp hid, Option.bind_some, viewCall]
  split
  · rfl
  · exact issues_readMeme memeId _

theorem issues_list (h : MemeHandler) (path : Text) :
    Issues (h.prepareListRequest env path) ((h.searchQuery env path).map listCall) := by
  apply Prog.issues_ofOption
  intro q hq
  rw [Option.mem_def.mp hq, Option.map_some]
  apply issues_query
  intro result
  apply Prog.issues_ofOption
  intro rows _
  split <;> rfl

theorem issues_servePage (h : MemeHandler) (request : Request) :
    Issues (h.servePage env request) (storeCallFor env h request) := by
  unfold servePage storeCallFor
  split
  · rfl
  · cases h.route request.path with
    | new => rfl
    | edit memeId => exact issues_readMeme memeId _
    | create => exact issues_create _
    | view => exact issues_view h _
    | list => exact issues_list h _
    | delete memeId => exact issues_query (.delete memeId) fun _ => rfl
    | unknown => rfl

theorem issues_handleRequest (paths : HandlerPaths) (request : Request) (h : Handler) :
    Issues (h.handleRequest env paths request)
      (match h with | .meme m => storeCallFor env m request | _ => none) := by
  cases h with
  | echo => rfl
  | static h => rfl
  | status => exact ⟨[], rfl, fun _ => ⟨[], rfl, fun _ => ⟨[], rfl, fun _ => rfl⟩⟩⟩
  | proxy h =>
    apply Prog.issues_ofOption
    intro uri _
    apply Prog.issues_ofOption
    intro serverResponse _
    rfl
  | meme m => exact issues_then (issues_servePage m request) fun _ => rfl
  | health => rfl
  | badRequest => rfl

theorem issues_handleRead (params : ConfigParams) (data : Text) :
    Issues (handleRead env params data) (readStoreCall env params data) := by
  have hrespond : Issues (respond env params (parseRequestLine data)) (readStoreCall env params data) := by
    unfold respond readStoreCall
    split
    · exact ⟨_, rfl, fun _ => issues_handleRequest params.handlerPaths _ _⟩
    · rfl
  exact issues_then hrespond fun _ => ⟨[], rfl, fun _ => ⟨[], rfl, fun _ => rfl⟩⟩

end Bingit.Meme
