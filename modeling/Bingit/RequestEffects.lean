import Bingit.MemeRefinement

namespace Bingit

open Text Interleaving

def Page.Standard (page : Page) : Prop := page.code = 200 ∨ page.code = 400 ∨ page.code = 404

theorem Page.standard_html {code : ℤ} (hcode : code = 200 ∨ code = 404) (content : Text) :
    (Page.html code content).Standard := hcode.imp_right .inr

theorem Page.standard_notFound : Page.notFound.Standard := .inr (.inr rfl)

theorem Page.standard_badRequest : Page.badRequest.Standard := .inr (.inl rfl)

def storeOps (es : List (Event Ret)) : List Op := es.filterMap fun e => Meme.storeOp e.1

namespace MemeHandler

variable {Db : Type} (env : Env Db) (h : MemeHandler) (request : Request)

abbrev Serves (p : Action Page) : Prop := p.Ensures (fun _ => True) Page.Standard

theorem serves_readMeme {memeId : Text} {found : MemeRow → Page} (hfound : ∀ row, (found row).Standard) :
    Serves (readMeme memeId found) := by
  refine ⟨trivial, fun result => ?_⟩
  apply Prog.ensures_ofOption
  intro row _
  split
  · exact Page.standard_html (.inr rfl) _
  · exact hfound row

theorem createdPage_standard (result : ExecResult) (content : Text) : (createdPage result content).Standard := by
  unfold createdPage
  split
  · exact Page.standard_html (.inr rfl) _
  · exact Page.standard_html (.inl rfl) _

theorem prepareNewRequest_standard (path : Text) : (prepareNewRequest env path).Standard := by
  unfold prepareNewRequest
  split
  · exact Page.standard_html (.inl rfl) _
  · exact Page.standard_notFound

theorem serves_create (body : Text) : Serves (prepareCreateRequest env body) := by
  apply Prog.ensures_ofOption
  intro form _
  split
  · exact Page.standard_badRequest
  · split
    · exact ⟨trivial, fun _ => createdPage_standard _ _⟩
    · exact ⟨trivial, fun _ => createdPage_standard _ _⟩

theorem serves_list (path : Text) : Serves (h.prepareListRequest env path) := by
  apply Prog.ensures_ofOption
  intro searchQuery _
  refine ⟨trivial, fun result => ?_⟩
  apply Prog.ensures_ofOption
  intro rows _
  split
  · exact Page.standard_html (.inr rfl) _
  · exact Page.standard_html (.inl rfl) _

theorem serves_edit (path memeId : Text) : Serves (prepareEditRequest env path memeId) := by
  apply serves_readMeme
  intro row
  unfold editPage
  split
  · exact Page.standard_html (.inl rfl) _
  · exact Page.standard_notFound

theorem serves_view (path : Text) : Serves (h.prepareViewRequest env path) := by
  apply Prog.ensures_ofOption
  intro memeId _
  split
  · exact Page.standard_badRequest
  · exact serves_readMeme fun row => Page.standard_html (.inl rfl) _

theorem serves_delete (memeId : Text) : Serves (prepareDeleteRequest memeId) := by
  refine ⟨trivial, fun result => ?_⟩
  change (deletedPage result memeId).Standard
  unfold deletedPage
  split
  · exact Page.standard_html (.inr rfl) _
  · exact Page.standard_html (.inl rfl) _

theorem serves_servePage : Serves (h.servePage env request) := by
  unfold servePage
  split
  · exact Page.standard_notFound
  · cases h.route request.path with
    | new => exact prepareNewRequest_standard env _
    | edit memeId => exact serves_edit env _ _
    | create => exact serves_create env _
    | view => exact serves_view env h _
    | list => exact serves_list env h _
    | delete memeId => exact serves_delete _
    | unknown => exact Page.standard_notFound

end MemeHandler

theorem StaticHandler.servePage_code {Db : Type} (env : Env Db) (h : StaticHandler) (request : Request) :
    (h.servePage env request).code = 200 ∨ (h.servePage env request).code = 404 := by
  unfold StaticHandler.servePage
  simp only
  split
  · split
    · exact .inr rfl
    · exact .inl rfl
  · exact .inr rfl

def Handler.Sends : Handler → ℤ → Prop
  | .static _, code => code = 200 ∨ code = 404
  | .meme _, code => code = 200 ∨ code = 400 ∨ code = 404
  | .badRequest, code => code = 404
  | _, code => code = 200

theorem Handler.Sends.meme {h : Handler} (hsends : h.Sends 400) : ∃ m, h = .meme m := by
  cases h with
  | meme m => exact ⟨m, rfl⟩
  | _ => simp [Handler.Sends] at hsends

theorem Handler.Sends.standard {h : Handler} {code : ℤ} (hsends : h.Sends code) :
    code = 200 ∨ code = 400 ∨ code = 404 := by
  cases h with
  | static h => exact hsends.imp_right .inr
  | meme h => exact hsends
  | badRequest => exact .inr (.inr hsends)
  | _ => exact .inl hsends

namespace Session

variable {Db : Type} {env : Env Db} {params : ConfigParams} {db : Db}

structure Standard (params : ConfigParams) (request : Request) (r : Reply) : Prop where
  valid (h : request.valid = true) : ∃ page : Page, (selectHandler params request.path).Sends page.code ∧
    r = makeReply request.httpVersion page.code page.mimeType page.content
  invalid (h : request.valid = false) : r = make400Request

theorem respond_ensures (request : Request) :
    (respond env params request).Ensures (fun _ => True) (Standard params request) := by
  unfold respond
  split
  · next hvalid =>
    have hreply (page : Page) (hsends : (selectHandler params request.path).Sends page.code) :
        Standard params request (makeReply request.httpVersion page.code page.mimeType page.content) := by
      refine ⟨fun _ => ⟨page, hsends, rfl⟩, fun hinvalid => ?_⟩
      rw [hvalid] at hinvalid
      contradiction
    refine ⟨trivial, fun _ => ?_⟩
    cases hselect : selectHandler params request.path with
    | echo => exact hreply ⟨200, _, _⟩ (by rw [hselect]; rfl)
    | static h =>
      refine hreply (h.servePage env request) ?_
      rw [hselect]
      exact h.servePage_code env request
    | status =>
      refine ⟨trivial, fun _ => ⟨trivial, fun _ => ⟨trivial, fun _ => ?_⟩⟩⟩
      exact hreply ⟨200, _, _⟩ (by rw [hselect]; rfl)
    | proxy h =>
      apply Prog.ensures_ofOption
      intro uri _
      apply Prog.ensures_ofOption
      intro serverResponse _
      exact hreply ⟨200, _, _⟩ (by rw [hselect]; rfl)
    | meme h =>
      change Prog.Ensures _ _ (h.handleRequest env request)
      apply Prog.ensures_bind (MemeHandler.serves_servePage env h request)
      intro page hpage
      exact hreply page (by rwa [hselect])
    | health => exact hreply ⟨200, _, _⟩ (by rw [hselect]; rfl)
    | badRequest => exact hreply ⟨404, _, _⟩ (by rw [hselect]; rfl)
  · next hinvalid =>
    refine ⟨fun hvalid => absurd hvalid hinvalid, fun _ => rfl⟩

theorem path_of_valid {data : Text} (h : (parseRequestLine data).valid = true) : (parseRequestLine data).path ≠ [] := by
  rcases parseRequestLine_cases data with hinvalid | hvalid
  · rw [hinvalid] at h
    contradiction
  · obtain ⟨method, path, version, headers, body, s₁, s₂, s₃, -, -, hne, -, -, -, heq⟩ := hvalid
    rwa [heq]

theorem code_of_respond {data : Text} {es : List (Event Ret)} {r : Reply}
    (h : Path (respond env params (parseRequestLine data)) es (.pure r)) :
    (parseRequestLine data).path = [] ∧ r.code = 400 ∨
      (parseRequestLine data).path ≠ [] ∧ (selectHandler params (parseRequestLine data).path).Sends r.code := by
  have hstandard := (h.ensures (respond_ensures (parseRequestLine data))).2
  rcases hvalid : (parseRequestLine data).valid with _ | _
  · refine .inl ⟨path_of_invalid hvalid, ?_⟩
    rw [hstandard.invalid hvalid]
    rfl
  · obtain ⟨page, hsends, rfl⟩ := hstandard.valid hvalid
    exact .inr ⟨path_of_valid hvalid, hsends⟩

theorem memeCount_execute (e : Event Ret) (s : Shared Db) :
    (execute env e.1 s).1.memeCount = s.memeCount + (Meme.createdOf e).toList.length := by
  obtain ⟨op, r⟩ := e
  cases op <;> rfl

theorem createdOf_answer {e : Event Ret} {s : Shared Db} (hanswer : e.2 = (execute env e.1 s).2) {n : ℕ}
    (hn : Meme.createdOf e = some n) : n = s.memeCount + 1 := by
  obtain ⟨op, r⟩ := e
  cases op with
  | insertMeme picFile topText botText =>
    have hr : r = (execute env (.insertMeme picFile topText botText) s).2 := hanswer
    subst hr
    exact (Option.some.inj hn).symm
  | _ => contradiction

theorem created_replay {es : List (Event Ret)} {s : Shared Db} (h : Answered (execute env) s es) :
    Meme.created es = List.range' (s.memeCount + 1) (Meme.created es).length ∧
      (replay (execute env) s es).memeCount = s.memeCount + (Meme.created es).length := by
  induction es generalizing s with
  | nil => exact ⟨rfl, rfl⟩
  | cons e es ih =>
    obtain ⟨hanswer, hes⟩ := h
    obtain ⟨hids, hcount⟩ := ih hes
    rw [memeCount_execute] at hids hcount
    change _ ∧ (replay (execute env) (execute env e.1 s).1 es).memeCount = _
    rw [hcount, Meme.created_cons, List.length_append, Nat.add_assoc]
    refine ⟨?_, rfl⟩
    cases hcreated : Meme.createdOf e with
    | none =>
      rw [hcreated] at hids
      simpa using hids
    | some n =>
      rw [hcreated] at hids
      obtain rfl := createdOf_answer hanswer hcreated
      rw [Option.toList_some, List.length_singleton, Nat.add_comm 1 (Meme.created es).length, List.range'_succ]
      exact congrArg ((s.memeCount + 1) :: ·) hids

theorem storeOps_of_path {data : Text} {es : List (Event Ret)} {q : Action Reply}
    (h : Path (handleRead env params data) es q) :
    ∃ rest, (Meme.readStoreCall env params data).toList = storeOps es ++ rest ∧ ∀ r, q = .pure r → rest = [] := by
  obtain ⟨rest, hcalls, hrest⟩ := h.issues (Meme.issues_handleRead params data)
  refine ⟨rest, hcalls, ?_⟩
  rintro r rfl
  exact hrest

def overrun : Action Reply → Bool
  | .fail .undefined => true
  | _ => false

-- behind an overrun any call may be made
theorem store_calls {c : Server Db} (h : Run env params db c) :
    (∀ t ∈ c.threads, overrun t.2 = false) →
    (∀ i data p, c.threads[i]? = some (data, p) →
      ∃ rest, (Meme.readStoreCall env params data).toList = storeOps (eventsOf i c.trace) ++ rest ∧
        ∀ r, p = .pure r → rest = []) ∧
    (c.shared.memeCount < 2 ^ 31 →
      Meme.created (c.trace.map Prod.snd) = List.range' 1 c.shared.memeCount) := by
  refine fun _ => ⟨fun i data p hi => storeOps_of_path ((Reachable.path h).1 i data p hi), fun _ => ?_⟩
  obtain ⟨hids, hcount⟩ := created_replay (Reachable.answered h)
  rw [← Reachable.shared_eq h] at hcount
  change c.shared.memeCount = 0 + _ at hcount
  rw [hcount, Nat.zero_add]
  exact hids

theorem update_cases {c : Server Db} (h : Run env params db c) {path : Text} {code : ℤ}
    (hupdate : (path, code) ∈ updates c.trace) :
    path = [] ∧ code = 400 ∨ path ≠ [] ∧ (selectHandler params path).Sends code := by
  obtain ⟨⟨i, ⟨op, answer⟩⟩, hmem, hevent⟩ := List.mem_filterMap.mp hupdate
  cases op with
  | updateCounters path' code' =>
    obtain ⟨rfl, rfl⟩ := Prod.mk.inj (Option.some.inj hevent)
    obtain ⟨data, q, es, r, -, hrespond, rfl, rfl⟩ := update_of_mem_trace h hmem
    exact code_of_respond hrespond
  | _ => contradiction

theorem exact_of_run {c : Server Db} (h : Run env params db c) : Exact c.shared (updates c.trace) := by
  rw [Reachable.shared_eq h]
  exact exact_after env db c.trace

theorem counted_codes {c : Server Db} (h : Run env params db c) :
    (∀ code ∈ c.shared.codeCounter, code = 200 ∨ code = 400 ∨ code = 404) ∧
    c.shared.urlCounter.getD [] 0 ≤ c.shared.codeCounter.getD 400 0 ∧
    ((∀ path ∈ c.shared.urlCounter, ∀ m, selectHandler params path ≠ .meme m) →
      c.shared.urlCounter.getD [] 0 = c.shared.codeCounter.getD 400 0) := by
  have hexact := exact_of_run h
  rw [hexact.urls.getD_eq, hexact.codes.getD_eq]
  unfold List.count
  rw [List.countP_map, List.countP_map]
  have hinvalid (u : Text × ℤ) (hu : u ∈ updates c.trace) (hpath : u.1 = []) : u.2 = 400 := by
    rcases update_cases h hu with ⟨-, hcode⟩ | ⟨hne, -⟩
    · exact hcode
    · exact absurd hpath hne
  refine ⟨?_, ?_, fun hmeme => ?_⟩
  · intro code hcode
    obtain ⟨⟨path, code⟩, hu, rfl⟩ := List.mem_map.mp ((hexact.codes.mem_iff code).mp hcode)
    rcases update_cases h hu with ⟨-, rfl⟩ | ⟨-, hsends⟩
    · exact .inr (.inl rfl)
    · exact hsends.standard
  · apply Int.ofNat_le.mpr
    apply List.countP_mono_left
    intro u hu hpath
    simpa using hinvalid u hu (by simpa using hpath)
  · apply congrArg
    apply List.countP_congr
    intro u hu
    obtain ⟨path, code⟩ := u
    suffices path = [] ↔ code = 400 by simpa
    refine ⟨hinvalid _ hu, ?_⟩
    rintro rfl
    rcases update_cases h hu with ⟨hpath, -⟩ | ⟨-, hsends⟩
    · exact hpath
    · obtain ⟨m, hselect⟩ := hsends.meme
      exact absurd hselect (hmeme path ((hexact.urls.mem_iff path).mpr (List.mem_map_of_mem hu)) m)

theorem updates_disturbed :
    updates disturbed.trace = [(oddPath, 404), ([], 400), ("/status".toList, 200)] := by
  decide +kernel

theorem counted_codes_disturbed :
    disturbed.shared.urlCounter.getD [] 0 = disturbed.shared.codeCounter.getD 400 0 := by
  refine (counted_codes (run_scheduled disturbing)).2.2 fun path hpath m hselect => ?_
  have hexact := exact_of_run (run_scheduled disturbing)
  have hmem := (hexact.urls.mem_iff path).mp hpath
  rw [show updates (scheduled disturbing).trace = _ from updates_disturbed] at hmem
  simp only [List.map_cons, List.map_nil, List.mem_cons, List.not_mem_nil, or_false] at hmem
  rcases hmem with rfl | rfl | rfl <;> exact Handler.noConfusion hselect

theorem store_calls_recreated :
    (∀ i data r, Meme.recreated.threads[i]? = some (data, .pure r) →
      storeOps (eventsOf i Meme.recreated.trace) =
        (Meme.readStoreCall (.standalone Meme.Reference.exec) Meme.memeParams data).toList) ∧
    Meme.created (Meme.recreated.trace.map Prod.snd) = [1, 2] := by
  have hrun : Run (.standalone Meme.Reference.exec) Meme.memeParams ∅ Meme.recreated := reachable_schedule _ _
  have hrecreated : Meme.recreated.threads.map (fun t => overrun t.2) = [false, false, false] ∧
      Meme.recreated.shared.memeCount = 2 := by
    unfold Meme.recreated Meme.memeParams Meme.createData Meme.deleteData
    repeat rw [String.toList_ofList]
    decide +kernel
  have hdefined : ∀ t ∈ Meme.recreated.threads, overrun t.2 = false := by
    intro t ht
    have hmem : overrun t.2 ∈ [false, false, false] := hrecreated.1 ▸ List.mem_map_of_mem ht
    simpa using hmem
  obtain ⟨hcalls, hids⟩ := store_calls hrun hdefined
  rw [hrecreated.2] at hids
  refine ⟨fun i data r hi => ?_, hids (by decide)⟩
  obtain ⟨rest, hrest, hdone⟩ := hcalls i data _ hi
  rw [hrest, hdone r rfl, List.append_nil]

end Session

end Bingit
