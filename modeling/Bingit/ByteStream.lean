import Bingit.Framing

namespace Bingit.Session

open Text Interleaving

structure WellFormed (r : Text) : Prop where
  accepted : (parseRequestLine r).valid = true
  noNul : nul ∉ r
  terminated : ∃ head, r = head ++ "\r\n\r\n".toList ++ (parseRequestLine r).body
  contentLength : (parseRequestLine r).headers["Content-Length".toList]? =
    some (decimal (parseRequestLine r).body.length)

def IsRead (data : Text) : Prop := 1 ≤ data.length ∧ data.length ≤ 1024

instance (data : Text) : Decidable (IsRead data) := inferInstanceAs (Decidable (_ ∧ _))

def handed (reads : List Text) : List Request := (reads.map parseRequestLine).filter (fun request => request.valid)

def serveReads {Db : Type} (env : Env Db) (params : ConfigParams) : List Text → Action (List Reply)
  | [] => pure []
  | data :: reads => do
    let response ← handleRead env params data
    let responses ← serveReads env params reads
    pure (response :: responses)

def writeOf : Event Ret → Option Text
  | ⟨.asyncWrite bytes, _⟩ => some bytes
  | _ => none

theorem writes_of_isHandlerOp {es : List (Event Ret)} (h : ∀ e ∈ es, IsHandlerOp e.1) : es.filterMap writeOf = [] := by
  apply List.filterMap_eq_nil_iff.mpr
  intro e he
  have hop := h e he
  obtain ⟨op, answer⟩ := e
  cases op with
  | asyncWrite bytes => exact absurd hop id
  | _ => rfl

theorem serveReads_writes {Db : Type} {env : Env Db} {params : ConfigParams} {reads : List Text}
    {es : List (Event Ret)} {responses : List Reply} (h : Path (serveReads env params reads) es (.pure responses)) :
    es.filterMap writeOf = responses.map (constructHttpResponse env.order) ∧ responses.length = reads.length := by
  induction reads generalizing es responses with
  | nil =>
    obtain ⟨rfl, hr⟩ := Path.pure_inv h
    obtain rfl := Prog.pure.inj hr
    exact ⟨rfl, rfl⟩
  | cons data reads ih =>
    obtain ⟨response, es₁, es₂, rfl, hread, hrest⟩ := Path.bind_pure_inv h
    obtain ⟨rest, es₃, es₄, rfl, hserve, hdone⟩ := Path.bind_pure_inv hrest
    obtain ⟨rfl, hr⟩ := Path.pure_inv hdone
    obtain rfl := Prog.pure.inj hr
    obtain ⟨es₅, hrespond, rfl⟩ := handleRead_done hread
    obtain ⟨hwrites, hlength⟩ := ih hserve
    have hquiet := writes_of_isHandlerOp (hrespond.ensures (framed_respond env params data)).1
    constructor
    · rw [List.append_nil, List.filterMap_append, List.filterMap_append, hquiet, hwrites]
      rfl
    · rw [List.length_cons, List.length_cons, hlength]

theorem eq_of_sublist_of_flatten {rs reads : List Text} (h : rs.Sublist reads) (hreads : ∀ data ∈ reads, data ≠ [])
    (hlength : rs.flatten.length = reads.flatten.length) : rs = reads := by
  induction h with
  | slnil => rfl
  | @cons rs reads data hsub ih =>
    have hle := hsub.flatten.length_le
    have hpos := List.length_pos_of_ne_nil (hreads data (by simp))
    rw [List.flatten_cons, List.length_append] at hlength
    omega
  | @cons_cons rs reads data hsub ih =>
    rw [List.flatten_cons, List.flatten_cons, List.length_append, List.length_append] at hlength
    rw [ih (fun d hd => hreads d (by simp [hd])) (by omega)]

theorem originalRequests_handed {reads : List Text} (hnul : ∀ data ∈ reads, nul ∉ data) :
    ((handed reads).map Request.originalRequest).Sublist reads := by
  have hall : (reads.map parseRequestLine).map Request.originalRequest = reads := by
    rw [List.map_map, List.map_congr_left (g := id), List.map_id]
    intro data hdata
    exact (originalRequest_parse data).trans (cString_of_notMem (hnul data hdata))
  calc ((handed reads).map Request.originalRequest).Sublist
        ((reads.map parseRequestLine).map Request.originalRequest) := (List.filter_sublist).map _
    _ = reads := hall

theorem handed_eq_iff {Db : Type} (env : Env Db) (params : ConfigParams) {requests reads : List Text}
    (hrequests : ∀ r ∈ requests, WellFormed r) (hreads : ∀ data ∈ reads, IsRead data)
    (hstream : reads.flatten = requests.flatten) :
    (handed reads = requests.map parseRequestLine ↔ reads = requests) ∧
    ∀ es responses, Path (serveReads env params reads) es (.pure responses) →
      es.filterMap writeOf = responses.map (constructHttpResponse env.order) ∧ responses.length = reads.length := by
  have hnul : ∀ data ∈ reads, nul ∉ data := by
    intro data hdata hmem
    have hin : nul ∈ requests.flatten := hstream ▸ List.mem_flatten.mpr ⟨data, hdata, hmem⟩
    obtain ⟨r, hr, hnulr⟩ := List.mem_flatten.mp hin
    exact (hrequests r hr).noNul hnulr
  refine ⟨⟨?_, ?_⟩, fun es responses h => serveReads_writes h⟩
  · intro hhanded
    have hsub := originalRequests_handed hnul
    have hsent : (handed reads).map Request.originalRequest = requests := by
      rw [hhanded, List.map_map, List.map_congr_left (g := id), List.map_id]
      intro r hr
      exact (originalRequest_parse r).trans (cString_of_notMem (hrequests r hr).noNul)
    rw [hsent] at hsub
    refine (eq_of_sublist_of_flatten hsub ?_ (by rw [hstream])).symm
    intro data hdata hnil
    have hlength := (hreads data hdata).1
    rw [hnil] at hlength
    contradiction
  · rintro rfl
    apply List.filter_eq_self.mpr
    intro request hrequest
    obtain ⟨r, hr, rfl⟩ := List.mem_map.mp hrequest
    exact (hrequests r hr).accepted

def healthRequest : Text := "GET /health HTTP/1.1\r\nContent-Length: 0\r\n\r\n".toList

theorem wellFormed_healthRequest : WellFormed healthRequest := by
  unfold healthRequest
  rw [String.toList_ofList]
  refine ⟨by decide +kernel, by decide, ⟨"GET /health HTTP/1.1\r\nContent-Length: 0".toList, ?_⟩, by decide +kernel⟩
  repeat rw [String.toList_ofList]
  decide +kernel

theorem isRead_healthRequest : ∀ data ∈ [healthRequest, healthRequest], IsRead data := by
  have hread : IsRead healthRequest := by
    unfold healthRequest
    rw [String.toList_ofList]
    exact ⟨by decide, by decide⟩
  intro data hdata
  obtain rfl | rfl := List.mem_pair.mp hdata <;> exact hread

theorem handed_eq_iff_pair :
    handed [healthRequest, healthRequest] = [healthRequest, healthRequest].map parseRequestLine :=
  (handed_eq_iff (.standalone fun (db : Unit) _ => (db, ⟨[], none⟩)) ⟨"./".toList, ∅⟩
    (fun r hr => by obtain rfl | rfl := List.mem_pair.mp hr <;> exact wellFormed_healthRequest)
    isRead_healthRequest rfl).1.mpr rfl

theorem handed_depends_on_reads :
    ¬ ∀ requests reads₁ reads₂ : List Text, (∀ r ∈ requests, WellFormed r) →
      (∀ data ∈ reads₁, IsRead data) → (∀ data ∈ reads₂, IsRead data) →
      reads₁.flatten = requests.flatten → reads₂.flatten = requests.flatten →
      handed reads₁ = handed reads₂ := by
  intro hall
  have hsame := hall [healthRequest] [healthRequest] ["GET /hea".toList, healthRequest.drop 8] ?_ ?_ ?_ rfl ?_
  · have hlength : (handed [healthRequest]).length ≠
        (handed ["GET /hea".toList, healthRequest.drop 8]).length := by
      unfold healthRequest
      repeat rw [String.toList_ofList]
      decide +kernel
    exact hlength (congrArg List.length hsame)
  · intro r hr
    obtain rfl := List.mem_singleton.mp hr
    exact wellFormed_healthRequest
  · intro data hdata
    obtain rfl := List.mem_singleton.mp hdata
    exact isRead_healthRequest _ List.mem_cons_self
  · unfold healthRequest
    repeat rw [String.toList_ofList]
    intro data hdata
    obtain rfl | rfl := List.mem_pair.mp hdata <;> exact ⟨by decide, by decide⟩
  · unfold healthRequest
    repeat rw [String.toList_ofList]
    decide +kernel

end Bingit.Session
