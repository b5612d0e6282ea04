import Bingit.Session

namespace Bingit.Session

open Text Interleaving

theorem digit_or_dot_of_countDots {count n : ℕ} {s : Text} (h : countDots count s = some n) :
    ∀ c ∈ s, c = '.' ∨ c.isDigit = true := by
  induction s generalizing count with
  | nil => simp
  | cons c s ih =>
    rw [countDots] at h
    rw [List.forall_mem_cons]
    split_ifs at h with hdot hdigit
    · exact ⟨.inl hdot, ih h⟩
    · exact ⟨.inr hdigit, ih h⟩

theorem version_chars {version : Text} (h : validateHttpVersion version = true) :
    ' ' ∉ version ∧ '\r' ∉ version := by
  unfold validateHttpVersion at h
  split at h
  · contradiction
  · next hnot =>
    push Not at hnot
    have hhead := hnot.2.2.2
    have hrest := digit_or_dot_of_countDots (of_decide_eq_true h)
    have hchars (c : Char) (hc : c ∉ "HTTP/".toList) (hdot : c ≠ '.') (hdigit : c.isDigit = false) : c ∉ version := by
      rw [← List.take_append_drop 5 version, hhead, List.mem_append, not_or]
      refine ⟨hc, ?_⟩
      intro hmem
      rcases hrest c hmem with hd | hd
      · exact hdot hd
      · rw [hdigit] at hd
        contradiction
    have hname : ' ' ∉ "HTTP/".toList ∧ '\r' ∉ "HTTP/".toList := by
      rw [String.toList_ofList]
      decide
    exact ⟨hchars ' ' hname.1 (by decide) rfl, hchars '\r' hname.2 (by decide) rfl⟩

def PlainPage (page : Page) : Prop := '\r' ∉ page.mimeType ∧ ∃ n : ℕ, page.code = n

theorem cr_notMem_mimeType : '\r' ∉ "text/html".toList ∧ '\r' ∉ "text/plain".toList := by
  repeat rw [String.toList_ofList]
  decide

theorem plainPage_html (n : ℕ) (content : Text) : PlainPage (.html n content) := ⟨cr_notMem_mimeType.1, n, rfl⟩

theorem plainPage_notFound : PlainPage .notFound := ⟨cr_notMem_mimeType.2, 404, rfl⟩

theorem plainPage_badRequest : PlainPage .badRequest := ⟨cr_notMem_mimeType.2, 400, rfl⟩

section Meme

variable {Db : Type} (env : Env Db)

open MemeHandler

theorem plainPage_editPage (path : Text) (row : MemeRow) (memeId : Text) :
    PlainPage (editPage env path row memeId) := by
  unfold editPage
  split
  · exact plainPage_html 200 _
  · exact plainPage_notFound

theorem plainPage_readMeme (memeId : Text) {found : MemeRow → Page} (hfound : ∀ row, PlainPage (found row)) :
    (readMeme memeId found).Ensures IsHandlerOp PlainPage := by
  refine ⟨trivial, fun result => ?_⟩
  apply Prog.ensures_ofOption
  intro row _
  split
  · exact plainPage_html 404 _
  · exact hfound row

theorem plainPage_edit (path memeId : Text) :
    (prepareEditRequest env path memeId).Ensures IsHandlerOp PlainPage := by
  rw [prepareEditRequest]
  apply plainPage_readMeme
  intro row
  exact plainPage_editPage env path row memeId

theorem plainPage_created (result : ExecResult) (content : Text) : PlainPage (createdPage result content) := by
  unfold createdPage
  split
  · exact plainPage_html 404 _
  · exact plainPage_html 200 _

theorem plainPage_create (body : Text) : (prepareCreateRequest env body).Ensures IsHandlerOp PlainPage := by
  apply Prog.ensures_ofOption
  intro form _
  split
  · exact plainPage_badRequest
  · split
    · exact ⟨trivial, fun _ => plainPage_created _ _⟩
    · exact ⟨trivial, fun _ => plainPage_created _ _⟩

theorem plainPage_view (h : MemeHandler) (path : Text) :
    (h.prepareViewRequest env path).Ensures IsHandlerOp PlainPage := by
  rw [prepareViewRequest]
  apply Prog.ensures_ofOption
  intro memeId _
  split
  · exact plainPage_badRequest
  · apply plainPage_readMeme
    intro row
    exact plainPage_html 200 _

theorem plainPage_list (h : MemeHandler) (path : Text) :
    (h.prepareListRequest env path).Ensures IsHandlerOp PlainPage := by
  apply Prog.ensures_ofOption
  intro searchQuery _
  refine ⟨trivial, fun result => ?_⟩
  apply Prog.ensures_ofOption
  intro rows _
  split
  · exact plainPage_html 404 _
  · exact plainPage_html 200 _

theorem plainPage_delete (memeId : Text) :
    (prepareDeleteRequest memeId).Ensures IsHandlerOp PlainPage := by
  refine ⟨trivial, fun result => ?_⟩
  change PlainPage (deletedPage result memeId)
  unfold deletedPage
  split
  · exact plainPage_html 404 _
  · exact plainPage_html 200 _

theorem plainPage_new (path : Text) : PlainPage (prepareNewRequest env path) := by
  unfold prepareNewRequest
  split
  · exact plainPage_html 200 _
  · exact plainPage_notFound

theorem plainPage_servePage (h : MemeHandler) (request : Request) :
    (h.servePage env request).Ensures IsHandlerOp PlainPage := by
  unfold servePage
  split
  · exact plainPage_notFound
  · split
    · exact plainPage_new env _
    · exact plainPage_edit env _ _
    · exact plainPage_create env _
    · exact plainPage_view env h _
    · exact plainPage_list env h _
    · exact plainPage_delete _
    · exact plainPage_notFound

end Meme

def Framed (r : Reply) : Prop :=
  ∃ httpVersion page, r = makeReply httpVersion page.code page.mimeType page.content ∧ PlainPage page ∧
    ' ' ∉ httpVersion ∧ '\r' ∉ httpVersion

section Handlers

variable {Db : Type} (env : Env Db)

theorem plainPage_static (h : StaticHandler) (request : Request) : PlainPage (h.servePage env request) := by
  have hmime (extension : Text) : '\r' ∉ StaticHandler.mimeType extension := by
    unfold StaticHandler.mimeType
    repeat rw [String.toList_ofList]
    split_ifs <;> decide
  unfold StaticHandler.servePage
  simp only
  split
  · split
    · exact plainPage_notFound
    · exact ⟨hmime _, 200, rfl⟩
  · exact plainPage_notFound

theorem framed_makeReply {request : Request} (hspace : ' ' ∉ request.httpVersion) (hcr : '\r' ∉ request.httpVersion)
    (n : ℕ) {mimeType : Text} (hmime : '\r' ∉ mimeType) (content : Text) :
    Framed (makeReply request.httpVersion n mimeType content) :=
  ⟨request.httpVersion, ⟨n, mimeType, content⟩, rfl, ⟨hmime, n, rfl⟩, hspace, hcr⟩

theorem framed_handleRequest (paths : HandlerPaths) {request : Request} (hspace : ' ' ∉ request.httpVersion)
    (hcr : '\r' ∉ request.httpVersion) (h : Handler) :
    (h.handleRequest env paths request).Ensures IsHandlerOp Framed := by
  obtain ⟨hhtml, hplain⟩ := cr_notMem_mimeType
  cases h with
  | echo => exact framed_makeReply hspace hcr 200 hplain _
  | static h => exact ⟨request.httpVersion, h.servePage env request, rfl, plainPage_static env h request, hspace, hcr⟩
  | status =>
    refine ⟨trivial, fun _ => ⟨trivial, fun _ => ⟨trivial, fun _ => ?_⟩⟩⟩
    exact framed_makeReply hspace hcr 200 hplain _
  | proxy h =>
    apply Prog.ensures_ofOption
    intro uri _
    apply Prog.ensures_ofOption
    intro serverResponse _
    exact framed_makeReply hspace hcr 200 hhtml _
  | meme h =>
    apply Prog.ensures_bind (plainPage_servePage env h request)
    intro page hpage
    exact ⟨request.httpVersion, page, rfl, hpage, hspace, hcr⟩
  | health => exact framed_makeReply hspace hcr 200 hplain _
  | badRequest => exact framed_makeReply hspace hcr 404 hplain _

theorem version_of_valid {data : Text} (h : (parseRequestLine data).valid = true) :
    validateHttpVersion (parseRequestLine data).httpVersion = true := by
  rcases parseRequestLine_cases data with hinvalid | hvalid
  · rw [hinvalid] at h
    contradiction
  · obtain ⟨method, path, version, headers, body, s₁, s₂, s₃, -, -, -, -, hversion, -, heq⟩ := hvalid
    rw [heq]
    exact hversion

theorem framed_respond (params : ConfigParams) (data : Text) :
    (respond env params (parseRequestLine data)).Ensures IsHandlerOp Framed := by
  unfold respond
  split
  · next hvalid =>
    obtain ⟨hspace, hcr⟩ := version_chars (version_of_valid hvalid)
    exact ⟨trivial, fun _ => framed_handleRequest env params.handlerPaths hspace hcr _⟩
  · refine ⟨"HTTP/1.1".toList, ⟨400, "text/plain".toList, "400 Bad Request".toList⟩, rfl, ?_, ?_, ?_⟩
    · exact ⟨cr_notMem_mimeType.2, 400, rfl⟩
    · rw [String.toList_ofList]
      decide
    · rw [String.toList_ofList]
      decide

end Handlers

theorem headers_toList (httpVersion : Text) (code : ℤ) (mimeType content : Text) :
    (makeReply httpVersion code mimeType content).headers.toList =
      [("Content-Length".toList, decimal content.length), ("Content-Type".toList, mimeType)] := rfl

def Recovers (bytes : Text) (r : Reply) : Prop :=
  ∃ (n : ℕ) (headers : List (Text × Text)), r.code = n ∧ headers.Perm r.headers.toList ∧
    decodeResponse bytes = some ⟨r.httpVersion, n, headers, r.content⟩ ∧
    headers.filter (fun h => h.1 = "Content-Length".toList) = [("Content-Length".toList, decimal r.content.length)]

theorem recovers_of_framed (order : HeaderOrder) {r : Reply} (h : Framed r) :
    Recovers (constructHttpResponse order r) r := by
  obtain ⟨httpVersion, page, rfl, ⟨hmime, n, hcode⟩, hspace, hcr⟩ := h
  have hperm := order.perm (makeReply httpVersion page.code page.mimeType page.content).headers
  have hfields : ∀ h ∈ order.list (makeReply httpVersion page.code page.mimeType page.content).headers,
      PlainField h := by
    intro h hh
    rw [hperm.mem_iff, headers_toList] at hh
    have hdigits : '\r' ∉ decimal page.content.length := notMem_decimal (by decide) _
    have hlength : "Content-Length".toList ≠ [] ∧ ':' ∉ "Content-Length".toList ∧ '\r' ∉ "Content-Length".toList := by
      rw [String.toList_ofList]
      decide
    have htype : "Content-Type".toList ≠ [] ∧ ':' ∉ "Content-Type".toList ∧ '\r' ∉ "Content-Type".toList := by
      rw [String.toList_ofList]
      decide
    rcases List.mem_pair.mp hh with rfl | rfl
    · exact ⟨hlength.1, hlength.2.1, hlength.2.2, hdigits⟩
    · exact ⟨htype.1, htype.2.1, htype.2.2, hmime⟩
  refine ⟨n, _, hcode, hperm, decodeResponse_construct order _ hcode hspace hcr hfields, ?_⟩
  apply List.perm_singleton.mp
  apply (hperm.filter _).trans
  rw [headers_toList, List.filter_cons_of_pos (by simp), List.filter_cons_of_neg (by simp)]
  exact .refl _

variable {Db : Type} (env : Env Db) (params : ConfigParams)

theorem handleRead_recovers (data : Text) {es : List (Event Ret)} {q : Action Reply} {bytes : Text}
    (hpath : Path (handleRead env params data) es q) (hwrite : ⟨Op.asyncWrite bytes, ()⟩ ∈ es) :
    ∃ r es₁, Path (respond env params (parseRequestLine data)) es₁ (.pure r) ∧
      bytes = constructHttpResponse env.order r ∧ Recovers bytes r := by
  have hrespond := framed_respond env params data
  rcases handleRead_cases hpath with ⟨p, hp⟩ | ⟨r, es₁, es₂, hr, rfl, hes₂⟩
  · exact absurd ((hp.ensures hrespond).1 _ hwrite) id
  · obtain ⟨hops, hframed⟩ := hr.ensures hrespond
    rcases List.mem_append.mp hwrite with hmem | hmem
    · exact absurd (hops _ hmem) id
    · have hfinish : bytes = constructHttpResponse env.order r := by
        rcases List.mem_pair.mp (hes₂.subset hmem) with heq | heq
        · exact absurd (congrArg Sigma.fst heq) (by simp)
        · exact Op.asyncWrite.inj (congrArg Sigma.fst heq)
      exact ⟨r, es₁, hr, hfinish, hfinish ▸ recovers_of_framed env.order hframed⟩

theorem handleRead_recovers_notFound :
    ∃ r, Recovers (constructHttpResponse ⟨fun headers => headers.toList, fun _ => .refl _⟩ r) r := by
  obtain ⟨r, es₁, -, hbytes, hrecovers⟩ :=
    handleRead_recovers (.standalone fun (db : Unit) _ => (db, ⟨[], none⟩)) ⟨"./".toList, ∅⟩
      "GET / HTTP/1.1\r\n\r\n".toList (.call (r := ()) (.call (r := ()) (.call (r := ()) (.nil _))))
      (List.mem_cons_of_mem _ (List.mem_cons_of_mem _ (List.mem_singleton_self _)))
  exact ⟨r, hbytes ▸ hrecovers⟩

end Bingit.Session
