import Bingit.RedirectLoop

namespace Bingit

open Text Interleaving

section

variable {α : Type} {p : α → Bool} {rest : List α}

theorem takeWhile_append_of_stop (hrest : ∀ a ∈ rest.head?, p a = false) (xs : List α) :
    (xs ++ rest).takeWhile p = xs.takeWhile p := by
  induction xs with
  | nil =>
    cases rest with
    | nil => rfl
    | cons a rest =>
      have ha : p a = false := hrest a rfl
      simp [ha]
  | cons x xs ih => cases hx : p x <;> simp [hx, ih]

theorem dropWhile_append_of_stop (hrest : ∀ a ∈ rest.head?, p a = false) (xs : List α) :
    (xs ++ rest).dropWhile p = xs.dropWhile p ++ rest := by
  induction xs with
  | nil =>
    cases rest with
    | nil => rfl
    | cons a rest =>
      have ha : p a = false := hrest a rfl
      simp [ha]
  | cons x xs ih => cases hx : p x <;> simp [hx, ih]

end

namespace Url

def isSchemeChar (c : Char) : Bool := c.isAlphanum || c = '+' || c = '-' || c = '.'

def endsAuthority (c : Char) : Bool := c = '/' || c = '?' || c = '#'

def afterScheme (url : Text) : Text := url.dropWhile isSchemeChar

def authority (s : Text) : Text := s.takeWhile fun c => !endsAuthority c

def origin (url : Text) : Text × Text :=
  if [':', '/', '/'] <+: afterScheme url then (url.takeWhile isSchemeChar, authority ((afterScheme url).drop 3))
  else ([], authority url)

def Complete (host : Text) : Prop := afterScheme host ≠ [':'] ∧ afterScheme host ≠ [':', '/']

def IsPath (s : Text) : Prop := ∀ c ∈ s.head?, c = '/'

theorem authority_append (host : Text) {s : Text} (hs : IsPath s) : authority (host ++ s) = authority host :=
  takeWhile_append_of_stop (fun c hc => by rw [hs c hc]; rfl) host

theorem afterScheme_append (host : Text) {s : Text} (hs : IsPath s) : afterScheme (host ++ s) = afterScheme host ++ s :=
  dropWhile_append_of_stop (fun c hc => by rw [hs c hc]; rfl) host

theorem delimiter_append {host s : Text} (hhost : Complete host) (hs : IsPath s) :
    [':', '/', '/'] <+: afterScheme host ++ s ↔ [':', '/', '/'] <+: afterScheme host := by
  refine ⟨fun h => ?_, fun h => h.trans (List.prefix_append _ _)⟩
  rcases List.prefix_or_prefix_of_prefix h (List.prefix_append (afterScheme host) s) with hdelimiter | hshort
  · exact hdelimiter
  obtain ⟨hcolon, hslash⟩ := hhost
  have hinits : afterScheme host ∈ [[], [':'], [':', '/'], [':', '/', '/']] := (List.mem_inits _ _).mpr hshort
  simp only [List.mem_cons, List.not_mem_nil, or_false] at hinits
  rcases hinits with hempty | hone | htwo | hall
  · rw [hempty, List.nil_append] at h
    obtain ⟨t, rfl⟩ := h
    exact absurd (hs ':' rfl) (by decide)
  · exact absurd hone hcolon
  · exact absurd htwo hslash
  · rw [hall]

theorem origin_append {host s : Text} (hhost : Complete host) (hs : IsPath s) : origin (host ++ s) = origin host := by
  have hscheme : (host ++ s).takeWhile isSchemeChar = host.takeWhile isSchemeChar :=
    takeWhile_append_of_stop (fun c hc => by rw [hs c hc]; rfl) host
  unfold origin
  rw [afterScheme_append host hs, hscheme, authority_append host hs]
  simp only [delimiter_append hhost hs]
  split
  · next hdelimiter =>
    have hlength : 3 ≤ (afterScheme host).length := hdelimiter.length_le
    rw [List.drop_append_of_le_length hlength, authority_append _ hs]
  · rfl

end Url

namespace ProxyHandler

variable {Db : Type} {env env' : Env Db} {fetch : Option Text → Fetched} {url : Option Text}

inductive Fetches (fetch : Option Text → Fetched) (url : Option Text) : Option Text → Prop
  | first : Fetches fetch url url
  | redirected {u : Option Text} (h : Fetches fetch url u) (hredirect : IsRedirect (fetch u)) :
      Fetches fetch url (nextUrl fetch u)

theorem Fetches.of_next (hredirect : IsRedirect (fetch url)) {u : Option Text}
    (h : Fetches fetch (nextUrl fetch url) u) : Fetches fetch url u := by
  induction h with
  | first => exact .redirected .first hredirect
  | redirected _ hnext ih => exact .redirected ih hnext

theorem followRedirects_congr (fetches : ℕ) (serverResponse : Text)
    (h : ∀ u, Fetches env.fetch url u → env'.fetch u = env.fetch u) :
    followRedirects env' fetches url serverResponse = followRedirects env fetches url serverResponse := by
  induction fetches generalizing url serverResponse with
  | zero => rfl
  | succ fetches ih =>
    rw [followRedirects, followRedirects, h url .first]
    by_cases hredirect : IsRedirect (env.fetch url)
    · have hcode : (env.fetch url).httpCode = 301 ∨ (env.fetch url).httpCode = 302 := hredirect
      rw [if_pos hcode, if_pos hcode]
      exact ih _ fun u hu => h u (.of_next hredirect hu)
    · have hcode : ¬ ((env.fetch url).httpCode = 301 ∨ (env.fetch url).httpCode = 302) := hredirect
      rw [if_neg hcode, if_neg hcode]

end ProxyHandler

namespace Session

variable {Db : Type} {env env' : Env Db}

theorem createByName_proxy {name : Text} {config : NginxConfig} {rootPath : Text} {h : ProxyHandler}
    (hcreate : Handler.createByName name config rootPath = .proxy h) : h = .create config := by
  unfold Handler.createByName at hcreate
  split_ifs at hcreate
  exact (Handler.proxy.inj hcreate).symm

theorem isPath_of_matches {location path : Text} (h : Matches location path) :
    Url.IsPath (path.drop location.length) := by
  intro c hc
  rcases h with rfl | h
  · simp at hc
  · obtain ⟨rest, rfl⟩ := (find_eq_zero_iff _ _).mp h
    rw [List.append_assoc, List.drop_left] at hc
    exact (Option.some.inj hc).symm

theorem cString_append (s : Text) {t : Text} (ht : nul ∉ t) :
    cString (s ++ t) = cString s ∨ cString (s ++ t) = cString s ++ t := by
  by_cases hs : nul ∈ s
  · left
    obtain ⟨a, b, rfl, ha⟩ := List.eq_append_cons_of_mem hs
    rw [List.append_assoc, List.cons_append, cString, cString, List.takeWhile_append_of_pos,
      List.takeWhile_append_of_pos]
    · simp
    all_goals
      intro c hc
      simpa using ne_of_mem_of_not_mem hc ha
  · right
    have hboth : nul ∉ s ++ t := by
      rw [List.mem_append, not_or]
      exact ⟨hs, ht⟩
    rw [cString_of_notMem hboth, cString_of_notMem hs]

theorem getRequestURI_of_select {config : NginxConfig} {serverRoot : Text} {request : Request} {h : ProxyHandler}
    (hselect : selectHandler ⟨serverRoot, config.getHandlerPaths ∅⟩ request.path = .proxy h) :
    h.getRequestURI request = some (request.path.drop h.location.length) ∧
      Url.IsPath (request.path.drop h.location.length) := by
  unfold selectHandler at hselect
  split at hselect
  · next k name block hdispatch =>
    obtain rfl := createByName_proxy hselect
    obtain ⟨hlocation, hinitial⟩ := dispatch_spec hdispatch
    have hmatch : Matches k request.path := by simpa using List.find?_some hdispatch
    subst hlocation
    exact ⟨if_pos hinitial.length_le, isPath_of_matches hmatch⟩
  · exact absurd (createByName_proxy hselect) (by simp [Handler.createByName] at hselect)

/-- No path changes the host, only its redirects do. -/
theorem proxy_confined (env : Env Db) {config : NginxConfig} {serverRoot data : Text} {h : ProxyHandler}
    (hvalid : (parseRequestLine data).valid = true)
    (hselect : selectHandler ⟨serverRoot, config.getHandlerPaths ∅⟩ (parseRequestLine data).path = .proxy h) :
    ∃ url s, url = cString h.host ++ s ∧ Url.IsPath s ∧
      (Url.Complete (cString h.host) → Url.origin url = Url.origin (cString h.host)) ∧
      ∀ env' : Env Db, env'.fetchLimit = env.fetchLimit →
        (∀ u, ProxyHandler.Fetches env.fetch (some url) u → env'.fetch u = env.fetch u) →
        respond env' ⟨serverRoot, config.getHandlerPaths ∅⟩ (parseRequestLine data) =
          respond env ⟨serverRoot, config.getHandlerPaths ∅⟩ (parseRequestLine data) := by
  obtain ⟨huri, hpath⟩ := getRequestURI_of_select hselect
  have hnul : nul ∉ (parseRequestLine data).path.drop h.location.length := fun hmem =>
    nul_notMem_path data (List.mem_of_mem_drop hmem)
  obtain ⟨s, hurl, hs⟩ : ∃ s, cString (h.host ++ (parseRequestLine data).path.drop h.location.length) =
      cString h.host ++ s ∧ Url.IsPath s := by
    rcases cString_append h.host hnul with hcut | hwhole
    · exact ⟨[], hcut.trans (List.append_nil _).symm, fun c hc => by contradiction⟩
    · exact ⟨_, hwhole, hpath⟩
  refine ⟨_, s, rfl, hs, fun hcomplete => Url.origin_append hcomplete hs, fun env' hlimit hagree => ?_⟩
  have hfollow : ProxyHandler.followRedirects env' env.fetchLimit
      (some (cString (h.host ++ (parseRequestLine data).path.drop h.location.length))) [] =
        ProxyHandler.followRedirects env env.fetchLimit
          (some (cString (h.host ++ (parseRequestLine data).path.drop h.location.length))) [] := by
    rw [hurl]
    exact ProxyHandler.followRedirects_congr _ _ hagree
  rw [respond, respond, if_pos hvalid, if_pos hvalid, hselect]
  simp only [Handler.handleRequest, ProxyHandler.handleRequest, huri, hlimit, Prog.ofOption, Prog.bind_pure, hfollow]

def proxyConfig : NginxConfig :=
  [.mk ["handler".toList, "proxy".toList]
    (some [.mk ["location".toList, "/proxy".toList] none, .mk ["host".toList, "ucla.edu".toList] none])]

def proxyData : Text := "GET /proxy/@example.com HTTP/1.1\r\n\r\n".toList

theorem proxy_confined_ucla :
    ∃ url s, url = cString "ucla.edu".toList ++ s ∧ Url.origin url = ([], "ucla.edu".toList) := by
  have hvalid : (parseRequestLine proxyData).valid = true := by
    unfold proxyData
    rw [String.toList_ofList]
    decide +kernel
  have hselect : selectHandler ⟨"./".toList, proxyConfig.getHandlerPaths ∅⟩ (parseRequestLine proxyData).path =
      .proxy ⟨"/proxy".toList, "ucla.edu".toList⟩ := rfl
  obtain ⟨url, s, hurl, -, horigin, -⟩ :=
    proxy_confined (.standalone fun (db : Unit) _ => (db, ⟨[], none⟩)) hvalid hselect
  exact ⟨url, s, hurl, (horigin ⟨by decide +kernel, by decide +kernel⟩).trans (by decide +kernel)⟩

end Session

end Bingit
