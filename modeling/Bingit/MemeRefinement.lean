import Bingit.MemeRequests

namespace Bingit.Meme

open Text Interleaving Session MemeHandler

variable {Db : Type} {env : Env Db} {like : Text → Text → Bool}

theorem goodOp_of_run {params : ConfigParams} {db : Db} {c : Server Db} (h : Run env params db c)
    (hgood : ∀ (i : ℕ) data q, c.threads[i]? = some (data, q) → GoodRead env params data) :
    ∀ e ∈ c.trace.map Prod.snd, GoodOp e.1 := by
  intro e he
  obtain ⟨⟨i, e⟩, hmem, rfl⟩ := List.mem_map.mp he
  obtain ⟨data, q, hthread, hpath, hevent⟩ := Reachable.thread h hmem
  exact (hpath.ensures (goodOp_handleRead (hgood i data q hthread))).1 e hevent

def StoredMeme.row (m : StoredMeme) : MemeRow :=
  { temp := m.temp, top := m.top, bottom := m.bottom, dataFound := true }

def listedRow (r : ℕ × StoredMeme) : MemeRow :=
  { temp := r.2.temp, top := r.2.top, bottom := r.2.bottom, id := decimal r.1, dataFound := true }

theorem viewCallback_memeColumns (m : StoredMeme) : viewCallback {} (memeColumns m) = some m.row := rfl

theorem listCallback_listedColumns (rows : List MemeRow) (r : ℕ × StoredMeme) :
    listCallback rows (listedColumns r) = some (rows ++ [listedRow r]) := rfl

theorem foldlM_viewCallback (o : Option StoredMeme) :
    (o.toList.map memeColumns).foldlM viewCallback {} = some (o.elim {} StoredMeme.row) := by
  cases o with
  | none => rfl
  | some m => exact congrArg (· >>= pure) (viewCallback_memeColumns m)

theorem foldlM_listCallback (rows : List (ℕ × StoredMeme)) (acc : List MemeRow) :
    (rows.map listedColumns).foldlM listCallback acc = some (acc ++ rows.map listedRow) := by
  induction rows generalizing acc with
  | nil => simp
  | cons r rows ih =>
    rw [List.map_cons, List.foldlM_cons, listCallback_listedColumns, Option.bind_eq_bind, Option.bind_some, ih]
    simp

/-- What a request made on the store `s` is to show. -/
def Renders (env : Env Db) (like : Text → Text → Bool) (h : MemeHandler) (request : Request) (s : Store)
    (page : Page) : Prop :=
  match h.route request.path with
  | .create => ∀ form, createForm env request.body = some form →
    page = if form.Rejected then .badRequest
      else if form.editId = [] then .html 200 (createdContent (decimal (s.count + 1)) "Generated".toList)
      else .html 200 (createdContent form.editId "Updated".toList)
  | .edit memeId => ∀ n, memeId = decimal n →
    page = (s.memes n).elim (memeNotFound (decimal n)) (fun m => editPage env h.handlerRoot m.row (decimal n))
  | .view => ∀ n, h.viewId env request.path = some (decimal n) →
    page = (s.memes n).elim (memeNotFound (decimal n)) (fun m => .html 200 (viewContent m.row (decimal n)))
  | .list => ∀ q, h.searchQuery env request.path = some q →
    ∃ rows, Lists rows s.memes (fun m => q = [] || m.found like q) ∧
      page = .html 200 (listContent (rows.map listedRow) q)
  | .delete memeId => page = deletedPage ⟨[], none⟩ memeId
  | .new => True
  | .unknown => True

def MadeFor (like : Text → Text → Bool) (es : List (Event Ret)) (right : Store → Prop) : Prop :=
  es.length ≤ 1 ∧ ∀ s, (∀ e ∈ es, Answers like s e.1 e.2) → right s

theorem createdPage_of_err {result : ExecResult} (h : result.err = none) (content : Text) :
    createdPage result content = .html 200 content := by
  rw [createdPage, if_neg (by simp [h])]

theorem deletedPage_of_err {result : ExecResult} (h : result.err = none) (memeId : Text) :
    deletedPage result memeId = deletedPage ⟨[], none⟩ memeId := by
  rw [deletedPage, deletedPage, h]

theorem create_renders {body : Text} {es : List (Event Ret)} {page : Page}
    (hpath : Path (prepareCreateRequest env body) es (.pure page)) :
    MadeFor like es fun s => ∀ form, createForm env body = some form →
      page = if form.Rejected then .badRequest
        else if form.editId = [] then .html 200 (createdContent (decimal (s.count + 1)) "Generated".toList)
        else .html 200 (createdContent form.editId "Updated".toList) := by
  obtain ⟨form, hform, hrest⟩ := Path.ofOption_inv hpath
  have hsame {form' : CreateForm} (hform' : createForm env body = some form') : form' = form :=
    Option.some.inj (hform'.symm.trans hform)
  split at hrest
  · next hrejected =>
    obtain ⟨rfl, hpage⟩ := Path.pure_inv hrest
    refine ⟨Nat.zero_le 1, fun s _ form' hform' => ?_⟩
    rw [hsame hform', if_pos hrejected]
    exact Prog.pure.inj hpage
  · next haccepted =>
    split at hrest
    · next hedit =>
      obtain ⟨uniqueId, result, es', rfl, hdone⟩ := Action.insertMeme_inv hrest
      obtain ⟨rfl, hpage⟩ := Path.pure_inv hdone
      refine ⟨Nat.le_refl 1, fun s hs form' hform' => ?_⟩
      obtain ⟨hid, herr⟩ := hs _ (List.mem_singleton_self _)
      rw [hsame hform', if_neg haccepted, if_pos hedit, Prog.pure.inj hpage, createdPage_of_err herr]
      exact congrArg (fun k => Page.html 200 (createdContent (decimal k) "Generated".toList)) hid
    · next hedit =>
      obtain ⟨result, es', rfl, hdone⟩ := Action.query_inv hrest
      obtain ⟨rfl, hpage⟩ := Path.pure_inv hdone
      refine ⟨Nat.le_refl 1, fun s hs form' hform' => ?_⟩
      have herr := hs _ (List.mem_singleton_self _)
      rw [hsame hform', if_neg haccepted, if_neg hedit, Prog.pure.inj hpage, createdPage_of_err herr]

theorem readMeme_renders {memeId : Text} {found : MemeRow → Page} {es : List (Event Ret)} {page : Page}
    (hpath : Path (readMeme memeId found) es (.pure page)) :
    MadeFor like es fun s => ∀ n, memeId = decimal n →
      page = (s.memes n).elim (memeNotFound (decimal n)) (fun m => found m.row) := by
  obtain ⟨result, es', rfl, hselected⟩ := Action.query_inv hpath
  obtain ⟨row, hrow, hdone⟩ := Path.ofOption_inv hselected
  have hes : es' = [] := by
    split at hdone <;> exact (Path.pure_inv hdone).1
  subst hes
  refine ⟨Nat.le_refl 1, ?_⟩
  rintro s hs n rfl
  have hresult : result = ⟨(s.memes n).toList.map memeColumns, none⟩ := hs _ (List.mem_singleton_self _) n rfl
  rw [hresult, foldlM_viewCallback] at hrow
  obtain rfl := Option.some.inj hrow
  rw [hresult] at hdone
  cases hm : s.memes n with
  | none =>
    rw [hm, if_pos (.inr rfl)] at hdone
    exact Prog.pure.inj (Path.pure_inv hdone).2
  | some m =>
    rw [hm, if_neg (by simp [StoredMeme.row])] at hdone
    exact Prog.pure.inj (Path.pure_inv hdone).2

theorem edit_renders {path memeId : Text} {es : List (Event Ret)} {page : Page}
    (hpath : Path (prepareEditRequest env path memeId) es (.pure page)) :
    MadeFor like es fun s => ∀ n, memeId = decimal n →
      page = (s.memes n).elim (memeNotFound (decimal n)) (fun m => editPage env path m.row (decimal n)) := by
  rw [prepareEditRequest] at hpath
  obtain ⟨hlength, hright⟩ := readMeme_renders hpath
  refine ⟨hlength, ?_⟩
  rintro s hs n rfl
  exact hright s hs n rfl

theorem view_renders {h : MemeHandler} {path : Text} {es : List (Event Ret)} {page : Page}
    (hpath : Path (h.prepareViewRequest env path) es (.pure page)) :
    MadeFor like es fun s => ∀ n, h.viewId env path = some (decimal n) →
      page = (s.memes n).elim (memeNotFound (decimal n)) (fun m => .html 200 (viewContent m.row (decimal n))) := by
  rw [prepareViewRequest] at hpath
  obtain ⟨memeId, hid, hrest⟩ := Path.ofOption_inv hpath
  split at hrest
  · next hempty =>
    obtain ⟨rfl, -⟩ := Path.pure_inv hrest
    refine ⟨Nat.zero_le 1, fun s _ n hn => ?_⟩
    have heq := Option.some.inj (hid.symm.trans hn)
    exact absurd (heq.symm.trans hempty) (decimal_ne_nil n)
  · obtain ⟨hlength, hright⟩ := readMeme_renders hrest
    refine ⟨hlength, fun s hs n hn => ?_⟩
    obtain rfl := Option.some.inj (hid.symm.trans hn)
    exact hright s hs n rfl

theorem answers_listing {s : Store} {q : Text} {result : ExecResult}
    (h : Answers like s (.query (if q = [] then .list else .search q)) result) :
    ∃ memes, Lists memes s.memes (fun m => q = [] || m.found like q) ∧ result = ⟨memes.map listedColumns, none⟩ := by
  cases q with
  | nil =>
    obtain ⟨memes, hlists, hresult⟩ := h
    exact ⟨memes, by simpa using hlists, hresult⟩
  | cons c q =>
    obtain ⟨memes, hlists, hresult⟩ := h
    exact ⟨memes, by simpa using hlists, hresult⟩

theorem list_renders {h : MemeHandler} {path : Text} {es : List (Event Ret)} {page : Page}
    (hpath : Path (h.prepareListRequest env path) es (.pure page)) :
    MadeFor like es fun s => ∀ q, h.searchQuery env path = some q →
      ∃ rows, Lists rows s.memes (fun m => q = [] || m.found like q) ∧
        page = .html 200 (listContent (rows.map listedRow) q) := by
  obtain ⟨q, hq, hrest⟩ := Path.ofOption_inv hpath
  obtain ⟨result, es', rfl, hlisted⟩ := Action.query_inv hrest
  obtain ⟨rows, hrows, hdone⟩ := Path.ofOption_inv hlisted
  have hes : es' = [] := by
    split at hdone <;> exact (Path.pure_inv hdone).1
  subst hes
  refine ⟨Nat.le_refl 1, fun s hs q' hq' => ?_⟩
  obtain rfl := Option.some.inj (hq.symm.trans hq')
  have hanswer : Answers like s (.query (if q = [] then .list else .search q)) result :=
    hs _ (List.mem_singleton_self _)
  obtain ⟨memes, hlists, hresult⟩ := answers_listing hanswer
  rw [hresult, foldlM_listCallback, List.nil_append] at hrows
  obtain rfl := Option.some.inj hrows
  rw [hresult, if_neg (by simp)] at hdone
  exact ⟨memes, hlists, Prog.pure.inj (Path.pure_inv hdone).2⟩

theorem delete_renders {memeId : Text} {es : List (Event Ret)} {page : Page}
    (hpath : Path (prepareDeleteRequest memeId) es (.pure page)) :
    MadeFor like es fun _ => page = deletedPage ⟨[], none⟩ memeId := by
  obtain ⟨result, es', rfl, hdone⟩ := Action.query_inv hpath
  obtain ⟨rfl, hpage⟩ := Path.pure_inv hdone
  refine ⟨Nat.le_refl 1, fun s hs => ?_⟩
  rw [Prog.pure.inj hpage]
  exact deletedPage_of_err (hs _ (List.mem_singleton_self _)) memeId

theorem servePage_renders {h : MemeHandler} {request : Request} (hlocation : ¬ h.LocationMismatch request.path)
    {es : List (Event Ret)} {page : Page} (hpath : Path (h.servePage env request) es (.pure page)) :
    MadeFor like es fun s => Renders env like h request s page := by
  rw [servePage, if_neg hlocation] at hpath
  unfold Renders
  cases hroute : h.route request.path with
  | new =>
    rw [hroute] at hpath
    obtain ⟨rfl, -⟩ := Path.pure_inv hpath
    exact ⟨Nat.zero_le 1, fun _ _ => trivial⟩
  | edit memeId =>
    rw [hroute] at hpath
    exact edit_renders hpath
  | create =>
    rw [hroute] at hpath
    exact create_renders hpath
  | view =>
    rw [hroute] at hpath
    exact view_renders hpath
  | list =>
    rw [hroute] at hpath
    exact list_renders hpath
  | delete memeId =>
    rw [hroute] at hpath
    exact delete_renders hpath
  | unknown =>
    rw [hroute] at hpath
    obtain ⟨rfl, -⟩ := Path.pure_inv hpath
    exact ⟨Nat.zero_le 1, fun _ _ => trivial⟩

theorem meme_path {params : ConfigParams} {request : Request} {h : MemeHandler} (hvalid : request.valid = true)
    (hselect : selectHandler params request.path = .meme h) {es : List (Event Ret)} {r : Reply}
    (hpath : Path (respond env params request) es (.pure r)) :
    ∃ page es', es = ⟨.createHandler, ()⟩ :: es' ∧ Path (h.servePage env request) es' (.pure page) ∧
      r = makeReply request.httpVersion page.code page.mimeType page.content := by
  rw [respond, if_pos hvalid, hselect] at hpath
  obtain ⟨_, es₁, rfl, hhandle⟩ := Path.call_pure_inv hpath
  change Path (h.handleRequest env request) es₁ (.pure r) at hhandle
  obtain ⟨page, es₂, es₃, rfl, hpage, hdone⟩ := Path.bind_pure_inv hhandle
  obtain ⟨rfl, hr⟩ := Path.pure_inv hdone
  rw [List.append_nil]
  exact ⟨page, es₂, rfl, hpage, Prog.pure.inj hr⟩

theorem refines_of_run {params : ConfigParams} {db : Db} {c : Server Db} {table : Db → ℕ → Option StoredMeme}
    (hsql : Sqlite env.exec table like) (hempty : table db = fun _ => none) (hrun : Run env params db c)
    (hgood : ∀ (i : ℕ) data q, c.threads[i]? = some (data, q) → GoodRead env params data)
    (hfew : (created (c.trace.map Prod.snd)).length < 2 ^ 31) :
    Refines like .empty (abstraction table c.shared) (c.trace.map Prod.snd) := by
  have hinitial : abstraction table (.initial db) = .empty := congrArg (Store.mk 0) hempty
  have hbounded : (abstraction table (.initial db)).Bounded := hinitial ▸ Store.bounded_empty
  have hrefines := replay_refines hsql hbounded (by simpa [Shared.initial] using hfew) (goodOp_of_run hrun hgood)
    (Reachable.answered hrun)
  rwa [hinitial, ← Reachable.shared_eq hrun] at hrefines

def memeParams : ConfigParams :=
  .ofConfig [.mk ["root".toList, ".".toList] none,
    .mk ["handler".toList, "meme".toList] (some [.mk ["location".toList, "/meme".toList] none,
      .mk ["root".toList, "meme".toList] none, .mk ["view".toList, "/view".toList] none])]

def createData : Text :=
  "POST /meme/create HTTP/1.1\r\nContent-Length: 30\r\n\r\nimage=cat.jpg&top=hi&bottom=me".toList

def deleteData : Text := "GET /meme/delete?id=1 HTTP/1.1\r\n\r\n".toList

def recreated : Server Reference.Table :=
  Pool.schedule (execute (.standalone Reference.exec)) (handleRead (.standalone Reference.exec) memeParams)
    (.initial ∅)
    [.spawn createData, .run 0, .run 0, .run 0, .run 0, .spawn deleteData, .spawn createData, .run 2, .run 1, .run 1,
      .run 2, .run 2, .run 1]

theorem select_meme {data : Text} {h : MemeHandler}
    (hselect : selectHandler memeParams (parseRequestLine data).path = .meme h)
    (hmeme : selectHandler memeParams (parseRequestLine data).path =
      .meme ⟨"./meme".toList, "/meme".toList, "/view".toList⟩) :
    h = ⟨"./meme".toList, "/meme".toList, "/view".toList⟩ := Handler.meme.inj (hselect.symm.trans hmeme)

theorem goodRead_createData : GoodRead (.standalone Reference.exec) memeParams createData := by
  intro _ h hselect
  unfold createData at hselect ⊢
  rw [String.toList_ofList] at hselect ⊢
  obtain rfl := select_meme hselect rfl
  rw [GoodRequest, show MemeHandler.route _ (parseRequestLine _).path = .create by decide +kernel]
  refine ⟨⟨"cat.jpg".toList, "hi".toList, "me".toList, []⟩, by decide +kernel, ?_⟩
  exact ⟨by decide +kernel, by decide +kernel, by decide +kernel, .inl rfl⟩

theorem goodRead_deleteData : GoodRead (.standalone Reference.exec) memeParams deleteData := by
  intro _ h hselect
  unfold deleteData at hselect ⊢
  rw [String.toList_ofList] at hselect ⊢
  obtain rfl := select_meme hselect rfl
  rw [GoodRequest, show MemeHandler.route _ (parseRequestLine _).path = .delete "1".toList by decide +kernel]
  exact ⟨1, rfl⟩

end Bingit.Meme
