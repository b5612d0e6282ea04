import Bingit.EditTemplate
import Bingit.FieldBuffers

namespace Bingit

open Text Session

theorem find_of_notMem {d : Char} {a : Text} (h : d ∉ a) (pattern s : Text) :
    find (d :: pattern) (a ++ (d :: pattern ++ s)) = some a.length := by
  rw [find_append_of_notMem h, find_append_self, Option.map_some, Nat.zero_add]

theorem afterFirst_of_notMem {d : Char} {a : Text} (h : d ∉ a) (pattern s : Text) :
    afterFirst (d :: pattern) (a ++ (d :: pattern ++ s)) = s := by
  rw [afterFirst, find_of_notMem h]
  simp

namespace MemeHandler

inductive Operation where
  | new
  | create
  | list
  | edit (n : ℕ)
  | delete (n : ℕ)
  | view (n : ℕ)

namespace Operation

def path (h : MemeHandler) : Operation → Text
  | .new => h.location ++ "/new".toList
  | .create => h.location ++ "/create".toList
  | .list => h.location ++ "/list".toList
  | .edit n => h.location ++ "/edit?update=".toList ++ decimal n
  | .delete n => h.location ++ "/delete?id=".toList ++ decimal n
  | .view n => h.location ++ h.viewPath ++ "?id=".toList ++ decimal n

/-- Ids are the values of a counter of type `int`. -/
def HasId : Operation → Prop
  | .edit n => n < 2 ^ 31
  | .delete n => n < 2 ^ 31
  | .view n => n < 2 ^ 31
  | _ => True

end Operation

section

variable {Db : Type} (env : Env Db)

def Performs (h : MemeHandler) (path : Text) (op : Operation) : Prop :=
  ¬ h.LocationMismatch path ∧
    match op with
    | .new => h.route path = .new
    | .create => h.route path = .create
    | .list => h.route path = .list ∧ scanField env (h.location ++ "/list".toList ++ "?query=%[^&]".toList) path = some []
    | .edit n => h.route path = .edit (decimal n)
    | .delete n => h.route path = .delete (decimal n)
    | .view n => h.route path = .view ∧ h.viewId env path = some (decimal n)

def Served (params : ConfigParams) (path : Text) (op : Operation) : Prop :=
  ∃ h, selectHandler params path = .meme h ∧ h.Performs env path op

end

inductive ServedPage where
  | created (n : ℕ) (done : Text)
  | editing (n : ℕ) (row : MemeRow)
  | deleted (n : ℕ)
  | listed (rows : List (ℕ × MemeRow)) (searchQuery : Text)
  | viewed (n : ℕ) (row : MemeRow)

namespace ServedPage

def content : ServedPage → Text
  | .created n done => createdContent (decimal n) done
  | .editing n row => editContent editTemplate row (decimal n)
  | .deleted n => (deletedPage ⟨[], none⟩ (decimal n)).content
  | .listed rows searchQuery => listContent (rows.map (fun r => { r.2 with id := decimal r.1 })) searchQuery
  | .viewed n row => viewContent row (decimal n)

def operations : ServedPage → List Operation
  | .created n _ => [.view n, .new, .list]
  | .editing _ _ => [.create]
  | .deleted _ => [.new, .list]
  | .listed rows searchQuery => rows.map (fun r => .view r.1) ++ (if searchQuery ≠ [] then [.list] else [])
  | .viewed n _ => [.edit n, .delete n]

end ServedPage

def memeUrl : Operation → Text
  | .new => "/meme/new".toList
  | .create => "/meme/create".toList
  | .list => "/meme/list".toList
  | .edit n => "/meme/edit?update=".toList ++ decimal n
  | .delete n => "/meme/delete?id=".toList ++ decimal n
  | .view n => "/meme/view?id=".toList ++ decimal n

def WrittenIn (content url : Text) : Prop :=
  "href=\"".toList ++ url ++ "\"".toList <:+: content ∨ "href=".toList ++ url ++ ">".toList <:+: content ∨
    "action=\"".toList ++ url ++ "\"".toList <:+: content

structure FollowsConfig {Db : Type} (env : Env Db) (params : ConfigParams) (h : MemeHandler) : Prop where
  routes : ∀ op : Operation, op.HasId → Served env params (op.path h) op
  links : ∀ page : ServedPage, ∀ op ∈ page.operations, op.HasId →
    WrittenIn page.content (memeUrl op) ∧ Served env params (memeUrl op) op

theorem location_of_new {h : MemeHandler} {path : Text} (hroute : h.route path = .new) : path = "/meme/new".toList := by
  unfold route at hroute
  split at hroute
  · assumption
  · split_ifs at hroute

theorem viewPrefix_of_view {h : MemeHandler} {path : Text} (hroute : h.route path = .view) :
    h.location ++ h.viewPath ++ "?id=".toList <+: path := by
  unfold route at hroute
  split_ifs at hroute with hnew hedit hcreate hview
  exact (find_eq_zero_iff _ _).mp hview

theorem append_cons_unique {d : Char} {a b r r' : Text} (ha : d ∉ a) (hr : d ∉ r') (h : b ++ d :: r = a ++ d :: r') :
    b = a := by
  induction a generalizing b with
  | nil =>
    cases b with
    | nil => rfl
    | cons c b =>
      obtain ⟨rfl, htail⟩ := List.cons.inj h
      exact absurd (by rw [List.nil_append] at h; simp [← htail]) hr
  | cons c a ih =>
    rw [List.mem_cons, not_or] at ha
    cases b with
    | nil => exact absurd (List.cons.inj h).1 ha.1
    | cons e b =>
      obtain ⟨rfl, htail⟩ := List.cons.inj h
      rw [ih ha.2 htail]

theorem viewPath_of_view {h : MemeHandler} {n : ℕ} (hlocation : h.location = "/meme".toList)
    (hroute : h.route ("/meme/view?id=".toList ++ decimal n) = .view) : h.viewPath = "/view".toList := by
  obtain ⟨rest, hrest⟩ := viewPrefix_of_view hroute
  have hdigits : '?' ∉ decimal n := notMem_decimal (by decide) n
  rw [hlocation] at hrest
  have hpath : h.viewPath ++ '?' :: ("id=".toList ++ rest) = "/view".toList ++ '?' :: ("id=".toList ++ decimal n) := by
    simpa using hrest
  exact append_cons_unique (by decide) (by simp [hdigits]) hpath

theorem not_prefix_append {p a : Text} (h : ¬ p <+: a) (h' : ¬ a <+: p) (s : Text) : ¬ p <+: a ++ s := by
  intro hp
  rcases List.prefix_or_prefix_of_prefix hp (List.prefix_append a s) with hpa | hap
  · exact h hpa
  · exact h' hap

theorem append_ne {p a : Text} (h : ¬ a <+: p) (s : Text) : a ++ s ≠ p := by
  rintro rfl
  exact h (List.prefix_append a s)

section Configured

variable {Db : Type} {env : Env Db} {h : MemeHandler}

theorem view_eq (hlocation : h.location = "/meme".toList) (hview : h.viewPath = "/view".toList) :
    h.location ++ h.viewPath ++ "?id=".toList = "/meme/view?id=".toList := by
  rw [hlocation, hview]
  repeat rw [String.toList_ofList]
  rfl

theorem path_eq_memeUrl (hlocation : h.location = "/meme".toList) (hview : h.viewPath = "/view".toList) (op : Operation) :
    op.path h = memeUrl op := by
  have hjoin {a b c : Text} (habc : a ++ b = c) (n : ℕ) : a ++ b ++ decimal n = c ++ decimal n := by rw [habc]
  unfold Operation.path memeUrl
  cases op with
  | new | create | list =>
    simp only [hlocation]
    repeat rw [String.toList_ofList]
    rfl
  | edit n | delete n =>
    simp only [hlocation]
    repeat rw [String.toList_ofList]
    exact hjoin rfl n
  | view n => exact hjoin (view_eq hlocation hview) n

def Operation.route : Operation → Route
  | .new => .new
  | .create => .create
  | .list => .list
  | .edit n => .edit (decimal n)
  | .delete n => .delete (decimal n)
  | .view _ => .view

theorem route_memeUrl (hlocation : h.location = "/meme".toList) (hview : h.viewPath = "/view".toList) (op : Operation) :
    h.route (memeUrl op) = op.route := by
  unfold MemeHandler.route memeUrl Operation.route
  simp only [find_eq_zero_iff, view_eq hlocation hview]
  repeat rw [String.toList_ofList]
  cases op with
  | new => exact if_pos rfl
  | create => rw [if_neg (by decide), if_neg (by decide), if_pos rfl]
  | list => rw [if_neg (by decide), if_neg (by decide), if_neg (by decide), if_neg (by decide), if_pos (by decide)]
  | edit n =>
    rw [if_neg (append_ne (by decide) _), if_pos (List.prefix_append _ _)]
    exact congrArg Route.edit (@afterFirst_of_notMem '?' "/meme/edit".toList (by decide) "update=".toList (decimal n))
  | delete n =>
    rw [if_neg (append_ne (by decide) _), if_neg (not_prefix_append (by decide) (by decide) _),
      if_neg (append_ne (by decide) _), if_neg (not_prefix_append (by decide) (by decide) _),
      if_neg (not_prefix_append (by decide) (by decide) _), if_pos (List.prefix_append _ _)]
    exact congrArg Route.delete (@afterFirst_of_notMem '?' "/meme/delete".toList (by decide) "id=".toList (decimal n))
  | view n =>
    rw [if_neg (append_ne (by decide) _), if_neg (not_prefix_append (by decide) (by decide) _),
      if_neg (append_ne (by decide) _), if_pos (List.prefix_append _ _)]

theorem below_location (hlocation : h.location = "/meme".toList) (op : Operation) :
    h.location ++ "/".toList <+: memeUrl op := by
  have hlonger {p a : Text} (ha : p <+: a) (n : ℕ) : p <+: a ++ decimal n := ha.trans (List.prefix_append a _)
  rw [hlocation]
  unfold memeUrl
  repeat rw [String.toList_ofList]
  cases op with
  | new | create | list => decide
  | edit n | delete n | view n => exact hlonger (by decide) n

theorem length_decimal_le {n : ℕ} (hn : n < 2 ^ 31) : (decimal n).length ≤ 10 :=
  (Nat.length_toDigits_le_iff (by omega) (by omega)).mpr (by omega)

theorem viewId_memeUrl (hsize : env.sizeofString = 32) (hlocation : h.location = "/meme".toList)
    (hview : h.viewPath = "/view".toList) {n : ℕ} (hn : n < 2 ^ 31) :
    h.viewId env ("/meme/view?id=".toList ++ decimal n) = some (decimal n) := by
  have hformat : directives (cString (h.location ++ h.viewPath ++ "?id=%[^&]".toList)) =
      "/meme/view?id=".toList.map .literal ++ [.field] := by
    rw [hlocation, hview]
    repeat rw [String.toList_ofList]
    rfl
  have hnul : nul ∉ "/meme/view?id=".toList ++ decimal n := by
    rw [List.mem_append, not_or, String.toList_ofList]
    exact ⟨by decide, notMem_decimal (by decide) n⟩
  have hscan : sscanf (directives (cString (h.location ++ h.viewPath ++ "?id=%[^&]".toList)))
      (cString ("/meme/view?id=".toList ++ decimal n)) = some [decimal n] := by
    rw [hformat, cString_of_notMem hnul, sscanf_literals]
    exact sscanf_field (decimal_ne_nil n) (notMem_decimal (by decide) n)
  have hlength : (decimal n).length < 32 := (length_decimal_le hn).trans_lt (by omega)
  rw [viewId, scanField, scanFields, hscan]
  simp [hsize, hlength]

theorem performs_memeUrl (hsize : env.sizeofString = 32) (hlocation : h.location = "/meme".toList)
    (hview : h.viewPath = "/view".toList) {op : Operation} (hid : op.HasId) : h.Performs env (memeUrl op) op := by
  refine ⟨meme_not_mismatch ((List.prefix_append _ _).trans (below_location hlocation op)), ?_⟩
  have hroute := route_memeUrl hlocation hview op
  cases op with
  | new | create | edit n | delete n => exact hroute
  | list =>
    refine ⟨hroute, ?_⟩
    have hscan : sscanf (directives (cString (h.location ++ "/list".toList ++ "?query=%[^&]".toList)))
        (cString (memeUrl .list)) = some [] := by
      rw [hlocation]
      unfold memeUrl
      repeat rw [String.toList_ofList]
      rfl
    rw [scanField, scanFields, hscan]
    rfl
  | view n => exact ⟨hroute, viewId_memeUrl hsize hlocation hview hid⟩

end Configured

theorem infix_middle {a u b v : Text} (before a' m b' : Text) (ha : a' ++ u = a) (hb : v ++ b' = b) :
    u ++ m ++ v <:+: before ++ a ++ m ++ b := by
  subst ha hb
  exact ⟨before ++ a', b', by simp only [List.append_assoc]⟩

theorem infix_append_left {w s : Text} (h : w <:+: s) (t : Text) : w <:+: s ++ t :=
  h.trans (List.prefix_append s t).isInfix

theorem infix_append_right {w t : Text} (h : w <:+: t) (s : Text) : w <:+: s ++ t :=
  h.trans (List.suffix_append s t).isInfix

theorem written_created (n : ℕ) (done : Text) {op : Operation}
    (h : op = .view n ∨ op = .new ∨ op = .list) : WrittenIn (createdContent (decimal n) done) (memeUrl op) := by
  left
  unfold createdContent memeUrl
  rcases h with rfl | rfl | rfl
  · simp only
    apply infix_append_left
    apply infix_append_left
    rw [← List.append_assoc]
    repeat rw [String.toList_ofList]
    exact infix_middle _ ['!', '<', '/', 'h', 'e', 'a', 'd', 'e', 'r', '>', '<', 'a', ' '] _ _ rfl rfl
  · apply infix_append_left
    apply infix_append_right
    repeat rw [String.toList_ofList]
    exact ⟨['<', 'b', 'r', '>', '<', 'a', ' '], _, rfl⟩
  · apply infix_append_right
    repeat rw [String.toList_ofList]
    exact ⟨['<', 'b', 'r', '>', '<', 'a', ' '], _, rfl⟩

theorem written_deleted (n : ℕ) {op : Operation} (h : op = .new ∨ op = .list) :
    WrittenIn (deletedPage ⟨[], none⟩ (decimal n)).content (memeUrl op) := by
  left
  unfold deletedPage memeUrl
  rcases h with rfl | rfl
  · apply infix_append_left
    apply infix_append_right
    repeat rw [String.toList_ofList]
    exact ⟨['<', 'b', 'r', '>', '<', 'a', ' '], _, rfl⟩
  · apply infix_append_right
    repeat rw [String.toList_ofList]
    exact ⟨['<', 'b', 'r', '>', '<', 'a', ' '], _, rfl⟩

theorem written_viewed (n : ℕ) (row : MemeRow) {op : Operation} (h : op = .edit n ∨ op = .delete n) :
    WrittenIn (viewContent row (decimal n)) (memeUrl op) := by
  left
  unfold viewContent memeUrl
  rcases h with rfl | rfl
  · simp only
    apply infix_append_left
    apply infix_append_left
    apply infix_append_left
    apply infix_append_left
    rw [← List.append_assoc]
    repeat rw [String.toList_ofList]
    exact infix_middle _ ['<', 'b', 'r', '>', '<', 'a', ' '] _ _ rfl rfl
  · simp only
    apply infix_append_left
    rw [← List.append_assoc]
    repeat rw [String.toList_ofList]
    exact infix_middle _ ['<', 'b', 'r', '>', '<', 'a', ' '] _ _ rfl rfl

theorem written_editing (n : ℕ) (row : MemeRow) :
    WrittenIn (editContent editTemplate row (decimal n)) (memeUrl .create) := by
  obtain ⟨rest, hrest⟩ := editContent_eq row (decimal n)
  have hmiddle : "action=\"".toList ++ memeUrl .create ++ "\"".toList <:+: editMiddle := by
    unfold memeUrl editMiddle
    repeat rw [String.toList_ofList]
    exact ⟨['<', '/', 'h', '1', '>', '\n', ' ', ' ', ' ', ' ', '<', 'f', 'o', 'r', 'm', ' '], _, rfl⟩
  rw [hrest]
  exact .inr (.inr (infix_append_right (infix_append_right (infix_append_left hmiddle rest) _) _))

theorem written_item {row : MemeRow} {n : ℕ} (h : row.id = decimal n) :
    "href=".toList ++ memeUrl (.view n) ++ ">".toList <:+: listItem row := by
  unfold listItem memeUrl
  simp only [h]
  apply infix_append_left
  apply infix_append_left
  apply infix_append_left
  apply infix_append_left
  apply infix_append_left
  apply infix_append_left
  rw [← List.append_assoc, ← List.nil_append ("<li><a href=/meme/view?id=".toList)]
  repeat rw [String.toList_ofList]
  exact infix_middle _ ['<', 'l', 'i', '>', '<', 'a', ' '] _ [] rfl rfl

theorem written_listed (rows : List MemeRow) (searchQuery : Text) {op : Operation}
    (h : (∃ row ∈ rows, ∃ n, row.id = decimal n ∧ op = .view n) ∨ searchQuery ≠ [] ∧ op = .list) :
    WrittenIn (listContent rows searchQuery) (memeUrl op) := by
  unfold listContent
  rcases h with ⟨row, hrow, n, hid, rfl⟩ | ⟨hquery, rfl⟩
  · have hitems : listItem row <:+: rows.flatMap listItem :=
      List.infix_of_mem_flatten (List.mem_map_of_mem hrow)
    refine .inr (.inl ?_)
    apply infix_append_left
    apply infix_append_left
    apply infix_append_left
    exact infix_append_right ((written_item hid).trans hitems) _
  · rw [if_pos hquery]
    left
    apply infix_append_right
    unfold memeUrl
    repeat rw [String.toList_ofList]
    exact ⟨['<', 'a', ' '], _, rfl⟩

theorem written_of_mem {page : ServedPage} {op : Operation} (h : op ∈ page.operations) :
    WrittenIn page.content (memeUrl op) := by
  cases page with
  | created n done => exact written_created n done (by simpa [ServedPage.operations] using h)
  | editing n row =>
    obtain rfl : op = .create := List.mem_singleton.mp h
    exact written_editing n row
  | deleted n => exact written_deleted n (by simpa [ServedPage.operations] using h)
  | listed rows searchQuery =>
    apply written_listed
    rw [ServedPage.operations, List.mem_append] at h
    rcases h with h | h
    · obtain ⟨r, hr, rfl⟩ := List.mem_map.mp h
      exact .inl ⟨_, List.mem_map_of_mem hr, r.1, rfl, rfl⟩
    · split at h
      · next hquery => exact .inr ⟨hquery, List.mem_singleton.mp h⟩
      · cases h
  | viewed n row => exact written_viewed n row (by simpa [ServedPage.operations] using h)

theorem followsConfig_iff {Db : Type} {env : Env Db} {params : ConfigParams} {h : MemeHandler}
    (hsize : env.sizeofString = 32)
    (hdispatch : ∀ path, h.location ++ "/".toList <+: path → selectHandler params path = .meme h) :
    FollowsConfig env params h ↔ h.location = "/meme".toList ∧ h.viewPath = "/view".toList := by
  constructor
  · intro hfollows
    have hlocation : h.location = "/meme".toList := by
      obtain ⟨m, hselect, -, hroute⟩ := hfollows.routes .new trivial
      have hbelow : h.location ++ "/".toList <+: h.location ++ "/new".toList :=
        List.prefix_append_right_inj _ |>.mpr (by decide)
      obtain rfl : h = m := Handler.meme.inj ((hdispatch _ hbelow).symm.trans hselect)
      have hpath : h.location ++ "/new".toList = "/meme".toList ++ "/new".toList := location_of_new hroute
      exact List.append_cancel_right hpath
    refine ⟨hlocation, ?_⟩
    obtain ⟨-, m, hselect, -, hroute, -⟩ := hfollows.links (.created 1 []) (.view 1) (by simp [ServedPage.operations])
      (by simp [Operation.HasId])
    obtain rfl : h = m :=
      Handler.meme.inj ((hdispatch _ (below_location hlocation (.view 1))).symm.trans hselect)
    exact viewPath_of_view hlocation hroute
  · rintro ⟨hlocation, hview⟩
    have hserved (op : Operation) (hid : op.HasId) : Served env params (memeUrl op) op := by
      exact ⟨h, hdispatch _ (below_location hlocation op), performs_memeUrl hsize hlocation hview hid⟩
    refine ⟨?_, ?_⟩
    · intro op hid
      rw [path_eq_memeUrl hlocation hview]
      exact hserved op hid
    · intro page op hmem hid
      exact ⟨written_of_mem hmem, hserved op hid⟩

def memeBlock (location view : Text) : NginxConfig :=
  [.mk ["location".toList, location] none, .mk ["view".toList, view] none]

def memeServer (location view : Text) : ConfigParams :=
  .ofConfig [.mk ["handler".toList, "meme".toList] (some (memeBlock location view))]

theorem selectHandler_memeServer {location view : Text}
    (hpaths : (memeServer location view).handlerPaths.toList = [(location, "meme".toList, memeBlock location view)])
    {path : Text} (hpath : location ++ "/".toList <+: path) :
    selectHandler (memeServer location view) path = .meme (.create (memeBlock location view) "./".toList) := by
  have hmatch : Matches location path := .inr ((find_eq_zero_iff _ _).mpr hpath)
  have hdispatch : dispatch (memeServer location view).handlerPaths path =
      some (location, "meme".toList, memeBlock location view) := by
    rw [dispatch, hpaths, List.find?_cons_of_pos (by simpa using hmatch)]
  rw [selectHandler, hdispatch]
  rfl

theorem followsConfig_meme :
    FollowsConfig (.standalone fun (db : Unit) _ => (db, ⟨[], none⟩)) (memeServer "/meme".toList "/view".toList)
      (.create (memeBlock "/meme".toList "/view".toList) "./".toList) :=
  (followsConfig_iff rfl (fun _ hpath => selectHandler_memeServer rfl hpath)).mpr ⟨rfl, rfl⟩

theorem not_followsConfig_elsewhere :
    ¬ FollowsConfig (.standalone fun (db : Unit) _ => (db, ⟨[], none⟩)) (memeServer "/memes".toList "/view".toList)
      (.create (memeBlock "/memes".toList "/view".toList) "./".toList) := by
  intro hfollows
  obtain ⟨m, hselect, -, hroute⟩ := hfollows.routes .new trivial
  have hpath : "/memes".toList ++ "/".toList <+: "/memes/new".toList := by
    repeat rw [String.toList_ofList]
    decide
  have hm := (selectHandler_memeServer rfl hpath).symm.trans hselect
  obtain rfl := Handler.meme.inj hm
  revert hroute
  decide +kernel

end MemeHandler

end Bingit
