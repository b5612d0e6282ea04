import Bingit.HandlerReplies
import Mathlib.Data.Finset.Card
import Mathlib.Logic.Function.Iterate

namespace Bingit

open Text Interleaving Session

section

variable {α : Type} {f : α → α} {p : α → Prop}

theorem iterate_eq_of_le {a : α} {i j n : ℕ} (hij : f^[i] a = f^[j] a) (hj : j ≤ n) :
    f^[n - j + i] a = f^[n] a := by
  rw [Function.iterate_add_apply, hij, ← Function.iterate_add_apply, Nat.sub_add_cancel hj]

theorem exists_iterate_lt_card {s : Finset α} (hclosed : ∀ a ∈ s, f a ∈ s) {a : α} (ha : a ∈ s)
    (h : ∃ n, p (f^[n] a)) : ∃ n < s.card, p (f^[n] a) := by
  classical
  have hmem (i : ℕ) : f^[i] a ∈ s := by
    induction i with
    | zero => exact ha
    | succ i ih =>
      rw [Function.iterate_succ_apply']
      exact hclosed _ ih
  refine ⟨Nat.find h, ?_, Nat.find_spec h⟩
  by_contra hlarge
  have hcard : s.card < (Finset.range (s.card + 1)).card := by simp
  obtain ⟨i, hi, j, hj, hne, heq⟩ :=
    Finset.exists_ne_map_eq_of_card_lt_of_maps_to hcard (f := fun i => f^[i] a) (fun i _ => hmem i)
  rw [Finset.mem_range] at hi hj
  -- the iterate comes back to where it was, so the least such `n` was not the least
  have hearlier {i j : ℕ} (hlt : i < j) (hj : j < s.card + 1) (heq : f^[i] a = f^[j] a) : False := by
    refine Nat.find_min h (m := Nat.find h - j + i) (by omega) ?_
    rw [iterate_eq_of_le heq (by omega)]
    exact Nat.find_spec h
  rcases Nat.lt_or_gt_of_ne hne with hlt | hlt
  · exact hearlier hlt hj heq
  · exact hearlier hlt hi heq.symm

end

namespace ProxyHandler

variable {fetch : Option Text → Fetched} {url : Option Text}

def nextUrl (fetch : Option Text → Fetched) (url : Option Text) : Option Text := (fetch url).redirectUrl

def RedirectsEnd (fetch : Option Text → Fetched) (url : Option Text) : Prop :=
  ∃ n, ¬ IsRedirect (fetch ((nextUrl fetch)^[n] url))

theorem RedirectChain.redirectsEnd {answers : List Fetched} {last : Fetched}
    (hchain : RedirectChain fetch url answers last) : RedirectsEnd fetch url := by
  induction hchain with
  | final h => exact ⟨0, h⟩
  | redirect h rest ih =>
    obtain ⟨n, hn⟩ := ih
    exact ⟨n + 1, hn⟩

theorem exists_redirectChain (n : ℕ) (hn : ¬ IsRedirect (fetch ((nextUrl fetch)^[n] url))) :
    ∃ answers last, RedirectChain fetch url answers last ∧ answers.length ≤ n := by
  induction n generalizing url with
  | zero => exact ⟨[], _, .final hn, Nat.le_refl 0⟩
  | succ n ih =>
    by_cases h : IsRedirect (fetch url)
    · obtain ⟨answers, last, hchain, hlength⟩ := ih hn
      exact ⟨_, _, .redirect h hchain, Nat.succ_le_succ hlength⟩
    · exact ⟨[], _, .final h, Nat.zero_le _⟩

theorem redirectsEnd_iff_chain :
    RedirectsEnd fetch url ↔ ∃ answers last, RedirectChain fetch url answers last := by
  constructor
  · rintro ⟨n, hn⟩
    obtain ⟨answers, last, hchain, -⟩ := exists_redirectChain n hn
    exact ⟨answers, last, hchain⟩
  · rintro ⟨answers, last, hchain⟩
    exact hchain.redirectsEnd

theorem redirectsEnd_iff_lt_card {urls : Finset (Option Text)} (hclosed : ∀ url ∈ urls, nextUrl fetch url ∈ urls)
    (hurl : url ∈ urls) :
    RedirectsEnd fetch url ↔ ∃ answers last, RedirectChain fetch url answers last ∧ answers.length < urls.card := by
  constructor
  · intro hend
    obtain ⟨n, hn, hfinal⟩ :=
      exists_iterate_lt_card (p := fun url => ¬ IsRedirect (fetch url)) hclosed hurl hend
    obtain ⟨answers, last, hchain, hlength⟩ := exists_redirectChain n hfinal
    exact ⟨answers, last, hchain, hlength.trans_lt hn⟩
  · rintro ⟨answers, last, hchain, -⟩
    exact hchain.redirectsEnd

variable {Db : Type} {env : Env Db}

theorem chain_of_followRedirects {fetches : ℕ} {serverResponse content : Text}
    (h : followRedirects env fetches url serverResponse = some content) :
    ∃ answers last, RedirectChain env.fetch url answers last ∧ answers.length < fetches := by
  induction fetches generalizing url serverResponse with
  | zero => contradiction
  | succ fetches ih =>
    simp only [followRedirects] at h
    split at h
    · rename_i hcode
      obtain ⟨answers, last, hchain, hlength⟩ := ih h
      exact ⟨_, _, .redirect hcode hchain, Nat.succ_lt_succ hlength⟩
    · rename_i hcode
      exact ⟨[], _, .final hcode, Nat.succ_pos fetches⟩

theorem chain_of_handleRequest {h : ProxyHandler} {request : Request} {r : Reply}
    (hr : h.handleRequest env request = pure r) :
    ∃ uri answers last, h.getRequestURI request = some uri ∧
      RedirectChain env.fetch (some (cString (h.host ++ uri))) answers last ∧ answers.length < env.fetchLimit := by
  rw [handleRequest] at hr
  cases huri : h.getRequestURI request with
  | none =>
    rw [huri] at hr
    contradiction
  | some uri =>
    rw [huri] at hr
    simp only [Prog.ofOption, Prog.bind_pure] at hr
    cases hcontent : followRedirects env env.fetchLimit (some (cString (h.host ++ uri))) [] with
    | none =>
      rw [hcontent] at hr
      contradiction
    | some content =>
      obtain ⟨answers, last, hchain, hlength⟩ := chain_of_followRedirects hcontent
      exact ⟨uri, answers, last, rfl, hchain, hlength⟩

def ReturnsReply (env : Env Db) (h : ProxyHandler) (request : Request) : Prop :=
  ∃ fetches r, h.handleRequest { env with fetchLimit := fetches } request = pure r

theorem returnsReply_iff_chain {h : ProxyHandler} {request : Request} :
    ReturnsReply env h request ↔ ∃ uri answers last, h.getRequestURI request = some uri ∧
      RedirectChain env.fetch (some (cString (h.host ++ uri))) answers last := by
  constructor
  · rintro ⟨fetches, r, hr⟩
    obtain ⟨uri, answers, last, huri, hchain, -⟩ := chain_of_handleRequest hr
    exact ⟨uri, answers, last, huri, hchain⟩
  · rintro ⟨uri, answers, last, huri, hchain⟩
    exact ⟨answers.length + 1, _, handleRequest_chain huri hchain (Nat.lt_succ_self _)⟩

theorem handleRequest_of_le {h : ProxyHandler} {request : Request} {r : Reply} {fetches : ℕ}
    (hr : h.handleRequest env request = pure r) (hle : env.fetchLimit ≤ fetches) :
    h.handleRequest { env with fetchLimit := fetches } request = pure r := by
  obtain ⟨uri, answers, last, huri, hchain, hlength⟩ := chain_of_handleRequest hr
  let limited : Env Db := { env with fetchLimit := fetches }
  have hlimit : answers.length < limited.fetchLimit := hlength.trans_le hle
  have hmore := @handleRequest_chain Db limited h request uri answers last huri hchain hlimit
  exact (hmore.trans (handleRequest_chain huri hchain hlength).symm).trans hr

theorem returnsReply_iff (env : Env Db) (h : ProxyHandler) (request : Request) :
    ReturnsReply env h request ↔ h.location.length ≤ request.path.length ∧
      RedirectsEnd env.fetch (some (cString (h.host ++ request.path.drop h.location.length))) := by
  rw [returnsReply_iff_chain]
  constructor
  · rintro ⟨uri, answers, last, huri, hchain⟩
    rw [getRequestURI] at huri
    split at huri
    · rename_i hlength
      obtain rfl := Option.some.inj huri
      exact ⟨hlength, hchain.redirectsEnd⟩
    · contradiction
  · rintro ⟨hlength, hend⟩
    obtain ⟨answers, last, hchain⟩ := redirectsEnd_iff_chain.mp hend
    exact ⟨_, answers, last, if_pos hlength, hchain⟩

theorem location_length_le_of_dispatch {config block : NginxConfig} {request : Request} {k handlerType : Text}
    (hdispatch : dispatch (config.getHandlerPaths ∅) request.path = some (k, handlerType, block)) :
    (create block).location.length ≤ request.path.length := by
  obtain ⟨hlocation, hinitial⟩ := dispatch_spec hdispatch
  rw [← hlocation] at hinitial
  exact hinitial.length_le

def movedRoundAndRound : Env Unit :=
  { Env.standalone (fun db _ => (db, ⟨[], none⟩)) with
    fetch := fun url =>
      if url = some "http://www.ucla.edu/".toList then ⟨301, ["Moved".toList], some "http://ucla.edu/".toList⟩
      else ⟨301, ["Moved".toList], some "http://www.ucla.edu/".toList⟩ }

theorem isRedirect_movedRoundAndRound (url : Option Text) : IsRedirect (movedRoundAndRound.fetch url) := by
  unfold movedRoundAndRound
  dsimp only
  split_ifs <;> exact .inl rfl

theorem redirects_for_ever :
    proxyRequest.valid = true ∧
      ¬ ReturnsReply movedRoundAndRound ⟨"/proxy".toList, "ucla.edu".toList⟩ proxyRequest := by
  refine ⟨by decide +kernel, ?_⟩
  rw [returnsReply_iff_chain]
  rintro ⟨uri, answers, last, -, hchain⟩
  obtain ⟨n, hn⟩ := hchain.redirectsEnd
  exact hn (isRedirect_movedRoundAndRound _)

end ProxyHandler

end Bingit
