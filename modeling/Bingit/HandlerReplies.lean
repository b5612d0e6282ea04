import Bingit.Framing
import Bingit.StaticRoot

namespace Bingit

open Text Interleaving Session

namespace StaticHandler

def typeOf (extension : Text) : Text :=
  if extension = ".html".toList then "text/html".toList
  else if extension = ".jpeg".toList ∨ extension = ".jpg".toList then "image/jpeg".toList
  else if extension = ".png".toList then "image/png".toList
  else if extension = ".zip".toList then "application/zip".toList
  else "text/plain".toList

def WellTyped (extension : Text) : Prop :=
  extension = ".txt".toList ∨ extension = ".html".toList ∨ extension = ".jpeg".toList

instance (extension : Text) : Decidable (WellTyped extension) := inferInstanceAs (Decidable (_ ∨ _))

theorem mimeType_eq_typeOf_iff (extension : Text) : mimeType extension = typeOf extension ↔ WellTyped extension := by
  unfold mimeType typeOf WellTyped
  repeat rw [String.toList_ofList]
  by_cases htxt : extension = ['.', 't', 'x', 't']
  · subst htxt
    decide
  by_cases hhtml : extension = ['.', 'h', 't', 'm', 'l']
  · subst hhtml
    decide
  by_cases hjpeg : extension = ['.', 'j', 'p', 'e', 'g']
  · subst hjpeg
    decide
  rw [if_neg htxt, if_neg hhtml, if_neg hhtml]
  simp only [htxt, hhtml, hjpeg, false_or, or_self, iff_false]
  by_cases hjpg : extension = ['.', 'j', 'p', 'g']
  · subst hjpg
    decide
  rw [if_pos hjpg, if_neg hjpg]
  split_ifs <;> decide

variable {Db : Type} (env : Env Db)

def ReturnsFile (params : ConfigParams) (block : NginxConfig) (request : Request) : Prop :=
  let path := openedPath (create block params.serverRoot) request
  ∃ r, (selectHandler params request.path).handleRequest env params.handlerPaths request = pure r ∧
    match env.readFile path with
    | some content =>
      r.code = 200 ∧ r.content = content ∧ r.headers["Content-Type".toList]? = some (typeOf (extension path))
    | none => r.code = 404 ∧ r.headers["Content-Type".toList]? = some "text/plain".toList

theorem servePage_of_readFile {h : StaticHandler} {request : Request} (hlocation : ¬ h.LocationMismatch request.path) :
    h.servePage env request =
      (env.readFile (h.openedPath request)).elim .notFound
        (fun content => ⟨200, mimeType (extension (h.openedPath request)), content⟩) := by
  unfold servePage openedPath
  simp only [if_neg hlocation]
  cases env.readFile (h.handlerRoot ++ request.path.drop h.location.length) <;> rfl

theorem contentType_makeReply (httpVersion : Text) (code : ℤ) (mimeType content : Text) :
    (makeReply httpVersion code mimeType content).headers["Content-Type".toList]? = some mimeType := rfl

theorem selectHandler_static {params : ConfigParams} {path k : Text} {block : NginxConfig}
    (hdispatch : dispatch params.handlerPaths path = some (k, "static".toList, block)) :
    selectHandler params path = .static (create block params.serverRoot) := by
  rw [selectHandler, hdispatch]
  rfl

theorem returnsFile_iff_mimeType {config block : NginxConfig} {request : Request} {k : Text}
    (hdispatch : dispatch (ConfigParams.ofConfig config).handlerPaths request.path = some (k, "static".toList, block)) :
    ReturnsFile env (ConfigParams.ofConfig config) block request ↔
      ∀ content,
        env.readFile (openedPath (create block (ConfigParams.ofConfig config).serverRoot) request) = some content →
        mimeType (extension (openedPath (create block (ConfigParams.ofConfig config).serverRoot) request)) =
          typeOf (extension (openedPath (create block (ConfigParams.ofConfig config).serverRoot) request)) := by
  obtain ⟨hlocation, hinitial⟩ := dispatch_spec hdispatch
  have hselect := selectHandler_static hdispatch
  have hno : ¬ (create block (ConfigParams.ofConfig config).serverRoot).LocationMismatch request.path := by
    apply static_not_mismatch
    change NginxConfig.getKeyValue "location".toList block <+: request.path
    rwa [hlocation]
  rw [ReturnsFile, hselect]
  generalize create block (ConfigParams.ofConfig config).serverRoot = h at hno
  simp only [Handler.handleRequest, handleRequest, servePage_of_readFile env hno]
  cases hfile : env.readFile (h.openedPath request) with
  | none =>
    simp only [reduceCtorEq, false_implies, implies_true, iff_true]
    exact ⟨_, rfl, rfl, contentType_makeReply _ _ _ _⟩
  | some content =>
    simp only [Option.some.injEq, forall_eq']
    constructor
    · rintro ⟨r, hr, -, -, htype⟩
      obtain rfl := Prog.pure.inj hr
      rw [contentType_makeReply] at htype
      exact Option.some.inj htype
    · intro htype
      refine ⟨_, rfl, rfl, rfl, ?_⟩
      rw [contentType_makeReply]
      exact congrArg some htype

theorem returnsFile_iff {config block : NginxConfig} {request : Request} {k : Text}
    (hdispatch : dispatch (ConfigParams.ofConfig config).handlerPaths request.path = some (k, "static".toList, block)) :
    ReturnsFile env (ConfigParams.ofConfig config) block request ↔
      ∀ content,
        env.readFile (openedPath (create block (ConfigParams.ofConfig config).serverRoot) request) = some content →
        WellTyped (extension (openedPath (create block (ConfigParams.ofConfig config).serverRoot) request)) := by
  rw [returnsFile_iff_mimeType env hdispatch, mimeType_eq_typeOf_iff]

theorem returnsFile_html :
    ReturnsFile (oneFile "./files/a.html".toList) (ConfigParams.ofConfig staticConfig) staticBlock
      (parseRequestLine "GET /static/a.html HTTP/1.1\r\n\r\n".toList) :=
  (returnsFile_iff (oneFile "./files/a.html".toList)
    (show dispatch (ConfigParams.ofConfig staticConfig).handlerPaths _ =
        some ("/static".toList, "static".toList, staticBlock)
      from rfl)).mpr fun _ _ => by decide +kernel

theorem jpg_as_plain_text :
    (parseRequestLine "GET /static/cat.jpg HTTP/1.1\r\n\r\n".toList).valid = true ∧
      dispatch (ConfigParams.ofConfig staticConfig).handlerPaths
          (parseRequestLine "GET /static/cat.jpg HTTP/1.1\r\n\r\n".toList).path =
        some ("/static".toList, "static".toList, staticBlock) ∧
      ¬ ReturnsFile (oneFile "./files/cat.jpg".toList) (ConfigParams.ofConfig staticConfig) staticBlock
        (parseRequestLine "GET /static/cat.jpg HTTP/1.1\r\n\r\n".toList) := by
  repeat rw [String.toList_ofList]
  refine ⟨by decide +kernel, rfl, ?_⟩
  rw [returnsFile_iff_mimeType (k := "/static".toList) _ rfl]
  intro htypes
  have htype := htypes "x".toList (by decide +kernel)
  revert htype
  decide +kernel

end StaticHandler

namespace Session

variable {Db : Type} (env : Env Db)

def EchoesBytes (params : ConfigParams) (data : Text) : Prop :=
  ∃ r, handleRead env params data = (do
      Action.createHandler
      Action.updateCounters (parseRequestLine data).path r.code
      Action.asyncWrite (constructHttpResponse env.order r)
      pure r) ∧
    ∃ decoded, decodeResponse (constructHttpResponse env.order r) = some decoded ∧ decoded.content = data ∧
      decoded.headers.filter (fun h => h.1 = "Content-Length".toList) = [("Content-Length".toList, decimal data.length)]

theorem echoesBytes_iff_cString {params : ConfigParams} {data : Text} (hvalid : (parseRequestLine data).valid = true)
    (hecho : selectHandler params (parseRequestLine data).path = .echo) :
    EchoesBytes env params data ↔ cString data = data := by
  obtain ⟨hspace, hcr⟩ := version_chars (version_of_valid hvalid)
  have hread : handleRead env params data = (do
      Action.createHandler
      Action.updateCounters (parseRequestLine data).path (echoReply (parseRequestLine data)).code
      Action.asyncWrite (constructHttpResponse env.order (echoReply (parseRequestLine data)))
      pure (echoReply (parseRequestLine data))) := by
    rw [handleRead, respond, if_pos hvalid, hecho]
    rfl
  obtain ⟨n, headers, -, -, hdecode, hlength⟩ := recovers_of_framed env.order
    (framed_makeReply hspace hcr 200 cr_notMem_mimeType.2 (parseRequestLine data).originalRequest)
  have hcontent : (echoReply (parseRequestLine data)).content = cString data := originalRequest_parse data
  constructor
  · rintro ⟨r, hr, decoded, hdecoded, hdata, -⟩
    rw [hread] at hr
    have hcounted := congrFun (eq_of_heq (Prog.call.inj hr).2) ()
    have hwritten := congrFun (eq_of_heq (Prog.call.inj hcounted).2) ()
    have hdone := congrFun (eq_of_heq (Prog.call.inj hwritten).2) ()
    obtain rfl := Prog.pure.inj hdone
    obtain rfl := Option.some.inj (hdecode.symm.trans hdecoded)
    exact hcontent.symm.trans hdata
  · intro hdata
    refine ⟨_, hread, _, hdecode, hcontent.trans hdata, ?_⟩
    rw [← hdata, ← hcontent]
    exact hlength

theorem cString_eq_iff (s : Text) : cString s = s ↔ nul ∉ s := by
  constructor
  · intro h
    rw [← h]
    exact nul_notMem_cString s
  · exact cString_of_notMem

theorem echoesBytes_iff {params : ConfigParams} {data : Text} (hvalid : (parseRequestLine data).valid = true)
    (hecho : selectHandler params (parseRequestLine data).path = .echo) :
    EchoesBytes env params data ↔ nul ∉ data := by
  rw [echoesBytes_iff_cString env hvalid hecho, cString_eq_iff]

def echoParams : ConfigParams :=
  .ofConfig [.mk ["handler".toList, "echo".toList] (some [.mk ["location".toList, "/echo".toList] none])]

theorem echoesBytes_plain :
    EchoesBytes (.standalone fun (db : Unit) _ => (db, ⟨[], none⟩)) echoParams
      "GET /echo HTTP/1.1\r\nA: b\r\n\r\n".toList :=
  (echoesBytes_iff _ (by decide +kernel) rfl).mpr (by decide +kernel)

def dataWithZero : Text := "POST /echo HTTP/1.1\r\n\r\na".toList ++ [nul, 'b']

theorem echo_stops_at_zero :
    dataWithZero.length ≤ 1024 ∧ (parseRequestLine dataWithZero).valid = true ∧
      selectHandler echoParams (parseRequestLine dataWithZero).path = .echo ∧
      ¬ EchoesBytes (.standalone fun (db : Unit) _ => (db, ⟨[], none⟩)) echoParams dataWithZero := by
  have hvalid : (parseRequestLine dataWithZero).valid = true := by decide +kernel
  refine ⟨by decide +kernel, hvalid, rfl, ?_⟩
  rw [echoesBytes_iff_cString _ hvalid rfl]
  decide +kernel

end Session

namespace ProxyHandler

def IsRedirect (answer : Fetched) : Prop := answer.httpCode = 301 ∨ answer.httpCode = 302

inductive RedirectChain (fetch : Option Text → Fetched) : Option Text → List Fetched → Fetched → Prop
  | final {url : Option Text} (h : ¬ IsRedirect (fetch url)) : RedirectChain fetch url [] (fetch url)
  | redirect {url : Option Text} {answers : List Fetched} {last : Fetched} (h : IsRedirect (fetch url))
      (rest : RedirectChain fetch (fetch url).redirectUrl answers last) :
      RedirectChain fetch url (fetch url :: answers) last

variable {Db : Type} {env : Env Db}

theorem followRedirects_chain {url : Option Text} {answers : List Fetched} {last : Fetched}
    (hchain : RedirectChain env.fetch url answers last) {fetches : ℕ} (hlimit : answers.length < fetches)
    (serverResponse : Text) :
    followRedirects env fetches url serverResponse =
      some (serverResponse ++ answers.flatMap (·.chunks.flatten) ++ last.chunks.flatten) := by
  induction hchain generalizing fetches serverResponse with
  | @final url h =>
    obtain ⟨fetches, rfl⟩ := Nat.exists_eq_succ_of_ne_zero (Nat.ne_of_gt hlimit)
    have hcode : ¬ ((env.fetch url).httpCode = 301 ∨ (env.fetch url).httpCode = 302) := h
    rw [followRedirects, if_neg hcode, List.flatMap_nil, List.append_nil]
  | @redirect url answers last h rest ih =>
    rw [List.length_cons] at hlimit
    obtain ⟨fetches, rfl⟩ : ∃ k, fetches = k + 1 := ⟨fetches - 1, by omega⟩
    have hcode : (env.fetch url).httpCode = 301 ∨ (env.fetch url).httpCode = 302 := h
    rw [followRedirects, if_pos hcode, ih (by omega), List.flatMap_cons]
    simp only [List.append_assoc]

def ReturnsFinalPage (env : Env Db) (h : ProxyHandler) (request : Request) (last : Fetched) : Prop :=
  ∃ r, h.handleRequest env request = pure r ∧ r.content = last.chunks.flatten ∧
    r.headers["Content-Length".toList]? = some (decimal last.chunks.flatten.length)

theorem handleRequest_chain {h : ProxyHandler} {request : Request} {uri : Text} {answers : List Fetched}
    {last : Fetched} (huri : h.getRequestURI request = some uri)
    (hchain : RedirectChain env.fetch (some (cString (h.host ++ uri))) answers last)
    (hlimit : answers.length < env.fetchLimit) :
    h.handleRequest env request = pure (makeReply request.httpVersion 200 "text/html".toList
      (answers.flatMap (·.chunks.flatten) ++ last.chunks.flatten)) := by
  rw [handleRequest, huri]
  simp only [Prog.ofOption, Prog.bind_pure]
  rw [followRedirects_chain hchain hlimit]
  rfl

theorem flatMap_append_eq_iff (answers : List Fetched) (last : Text) :
    answers.flatMap (·.chunks.flatten) ++ last = last ↔ ∀ answer ∈ answers, answer.chunks.flatten = [] := by
  rw [List.append_left_eq_self, List.flatMap_eq_nil_iff]

theorem returnsFinalPage_iff {h : ProxyHandler} {request : Request} {uri : Text} {answers : List Fetched}
    {last : Fetched} (huri : h.getRequestURI request = some uri)
    (hchain : RedirectChain env.fetch (some (cString (h.host ++ uri))) answers last)
    (hlimit : answers.length < env.fetchLimit) :
    ReturnsFinalPage env h request last ↔ ∀ answer ∈ answers, answer.chunks.flatten = [] := by
  rw [ReturnsFinalPage, handleRequest_chain huri hchain hlimit, ← flatMap_append_eq_iff answers last.chunks.flatten]
  constructor
  · rintro ⟨r, hr, hcontent, -⟩
    obtain rfl := Prog.pure.inj hr
    exact hcontent
  · intro hcontent
    rw [hcontent]
    exact ⟨_, rfl, rfl, rfl⟩

def movedOnce (chunks : List Text) : Env Unit :=
  { Env.standalone (fun db _ => (db, ⟨[], none⟩)) with
    fetch := fun url =>
      if url = some "ucla.edu/".toList then ⟨301, chunks, some "http://www.ucla.edu/".toList⟩
      else ⟨200, ["Hello ".toList, "world".toList], none⟩
    fetchLimit := 2 }

def proxyRequest : Request := parseRequestLine "GET /proxy/ HTTP/1.1\r\n\r\n".toList

theorem movedOnce_chain (chunks : List Text) :
    RedirectChain (movedOnce chunks).fetch (some "ucla.edu/".toList)
      [⟨301, chunks, some "http://www.ucla.edu/".toList⟩] ⟨200, ["Hello ".toList, "world".toList], none⟩ :=
  .redirect (.inl rfl) (.final (show ¬ ((200 : ℤ) = 301 ∨ (200 : ℤ) = 302) by decide))

theorem getRequestURI_proxyRequest :
    getRequestURI ⟨"/proxy".toList, "ucla.edu".toList⟩ proxyRequest = some "/".toList := rfl

theorem returnsFinalPage_emptyRedirect :
    ReturnsFinalPage (movedOnce []) ⟨"/proxy".toList, "ucla.edu".toList⟩ proxyRequest
      ⟨200, ["Hello ".toList, "world".toList], none⟩ :=
  (returnsFinalPage_iff getRequestURI_proxyRequest (movedOnce_chain []) (by decide)).mpr (by simp)

theorem redirect_body_kept :
    ¬ ReturnsFinalPage (movedOnce ["Moved".toList]) ⟨"/proxy".toList, "ucla.edu".toList⟩ proxyRequest
      ⟨200, ["Hello ".toList, "world".toList], none⟩ := by
  rintro ⟨r, hr, hcontent, -⟩
  rw [handleRequest_chain getRequestURI_proxyRequest (movedOnce_chain _) (by decide)] at hr
  obtain rfl := Prog.pure.inj hr
  revert hcontent
  decide

end ProxyHandler

end Bingit
