import Bingit.ConnectionOrder
import Bingit.RequestEffects
import Bingit.StreamDecoding

namespace Bingit

open Text Interleaving Streams

theorem splitPair_extend {a b : Char} {s w rest : Text} (h : splitPair a b s = some (w, rest)) (t : Text) :
    splitPair a b (s ++ t) = some (w, rest ++ t) := by
  induction s generalizing w with
  | nil => contradiction
  | cons c s ih =>
    cases s with
    | nil => contradiction
    | cons d s =>
      rw [splitPair] at h
      rw [List.cons_append, List.cons_append, splitPair]
      split_ifs at h ⊢ with hpair
      · obtain ⟨rfl, rfl⟩ := Prod.mk.inj (Option.some.inj h)
        rfl
      · obtain ⟨⟨w', rest'⟩, hw, heq⟩ := Option.map_eq_some_iff.mp h
        obtain ⟨rfl, rfl⟩ := Prod.mk.inj heq
        rw [← List.cons_append, ih hw, Option.map_some]

theorem length_of_splitPair {a b : Char} {s w rest : Text} (h : splitPair a b s = some (w, rest)) :
    rest.length < s.length := by
  fun_induction splitPair a b s generalizing w with
  | case1 => contradiction
  | case2 => contradiction
  | case3 c d s hpair =>
    obtain ⟨-, rfl⟩ := Prod.mk.inj (Option.some.inj h)
    simp only [List.length_cons]
    omega
  | case4 c d s hpair ih =>
    obtain ⟨⟨w', rest'⟩, hw, heq⟩ := Option.map_eq_some_iff.mp h
    obtain ⟨-, rfl⟩ := Prod.mk.inj heq
    exact (ih hw).trans (Nat.lt_succ_self _)

theorem decodeHeaders_cases {fuel : ℕ} {s content : Text} {headers : List (Text × Text)}
    (h : decodeHeaders fuel s = some (headers, content)) :
    ∃ n line rest, fuel = n + 1 ∧ splitPair '\r' '\n' s = some (line, rest) ∧
      (line = [] ∧ headers = [] ∧ content = rest ∨
        line ≠ [] ∧ ∃ header others, splitPair ':' ' ' line = some header ∧
          decodeHeaders n rest = some (others, content) ∧ headers = header :: others) := by
  cases fuel with
  | zero => contradiction
  | succ n =>
    rw [decodeHeaders] at h
    obtain ⟨⟨line, rest⟩, hline, h⟩ := Option.bind_eq_some_iff.mp h
    refine ⟨n, line, rest, rfl, hline, ?_⟩
    simp only at h
    split at h
    · next hempty =>
      obtain ⟨rfl, rfl⟩ := Prod.mk.inj (Option.some.inj h)
      exact .inl ⟨hempty, rfl, rfl⟩
    · next hne =>
      obtain ⟨header, hheader, h⟩ := Option.bind_eq_some_iff.mp h
      obtain ⟨⟨others, content'⟩, hothers, h⟩ := Option.bind_eq_some_iff.mp h
      obtain ⟨rfl, rfl⟩ := Prod.mk.inj (Option.some.inj h)
      exact .inr ⟨hne, header, others, hheader, hothers, rfl⟩

theorem decodeHeaders_extend {fuel fuel' : ℕ} {s content : Text} {headers : List (Text × Text)}
    (h : decodeHeaders fuel s = some (headers, content)) (hle : fuel ≤ fuel') (t : Text) :
    decodeHeaders fuel' (s ++ t) = some (headers, content ++ t) := by
  induction fuel generalizing fuel' s headers with
  | zero => contradiction
  | succ fuel ih =>
    obtain ⟨fuel', rfl⟩ : ∃ n, fuel' = n + 1 := ⟨fuel' - 1, by omega⟩
    obtain ⟨n, line, rest, hn, hline, hcases⟩ := decodeHeaders_cases h
    obtain rfl := Nat.succ.inj hn
    rw [decodeHeaders, splitPair_extend hline]
    rcases hcases with ⟨hempty, rfl, rfl⟩ | ⟨hne, header, others, hheader, hothers, rfl⟩
    · simp [hempty]
    · have hrest := ih hothers (Nat.le_of_succ_le_succ hle)
      simp [hne, hheader, hrest]

theorem length_of_decodeHeaders {fuel : ℕ} {s content : Text} {headers : List (Text × Text)}
    (h : decodeHeaders fuel s = some (headers, content)) : content.length < s.length := by
  induction fuel generalizing s headers with
  | zero => contradiction
  | succ fuel ih =>
    obtain ⟨n, line, rest, hn, hline, hcases⟩ := decodeHeaders_cases h
    obtain rfl := Nat.succ.inj hn
    have hlt := length_of_splitPair hline
    rcases hcases with ⟨-, -, rfl⟩ | ⟨-, header, others, -, hothers, -⟩
    · exact hlt
    · exact (ih hothers).trans hlt

theorem decodeResponse_cases {bytes : Text} {d : DecodedResponse} (h : decodeResponse bytes = some d) :
    ∃ statusLine rest afterVersion message code, splitPair '\r' '\n' bytes = some (statusLine, rest) ∧
      splitSpace statusLine = some (d.httpVersion, afterVersion) ∧ splitSpace afterVersion = some (code, message) ∧
      decodeHeaders rest.length rest = some (d.headers, d.content) ∧ decodeNumber code = some d.code := by
  obtain ⟨⟨statusLine, rest⟩, hline, h⟩ := Option.bind_eq_some_iff.mp h
  obtain ⟨⟨httpVersion, afterVersion⟩, hversion, h⟩ := Option.bind_eq_some_iff.mp h
  obtain ⟨⟨code, message⟩, hcode, h⟩ := Option.bind_eq_some_iff.mp h
  obtain ⟨⟨headers, content⟩, hheaders, h⟩ := Option.bind_eq_some_iff.mp h
  obtain ⟨number, hnumber, h⟩ := Option.bind_eq_some_iff.mp h
  obtain rfl := Option.some.inj h
  exact ⟨statusLine, rest, afterVersion, message, code, hline, hversion, hcode, hheaders, hnumber⟩

theorem decodeResponse_extend {bytes : Text} {d : DecodedResponse} (h : decodeResponse bytes = some d) (t : Text) :
    decodeResponse (bytes ++ t) = some { d with content := d.content ++ t } := by
  obtain ⟨statusLine, rest, afterVersion, message, code, hline, hversion, hcode, hheaders, hnumber⟩ :=
    decodeResponse_cases h
  have hmore := decodeHeaders_extend hheaders (show rest.length ≤ (rest ++ t).length by simp) t
  simp only [decodeResponse, splitPair_extend hline t, Option.bind_eq_bind, Option.bind_some, hversion, hcode, hmore,
    hnumber]

theorem length_of_decodeResponse {bytes : Text} {d : DecodedResponse} (h : decodeResponse bytes = some d) :
    d.content.length < bytes.length := by
  obtain ⟨statusLine, rest, afterVersion, message, code, hline, -, -, hheaders, -⟩ := decodeResponse_cases h
  exact (length_of_decodeHeaders hheaders).trans (length_of_splitPair hline)

def decodeNext (bytes : Text) : Option (DecodedResponse × Text) := do
  let response ← decodeResponse bytes
  let length ← (response.headers.lookup "Content-Length".toList).bind decodeNumber
  if length ≤ response.content.length then
    some ({ response with content := response.content.take length }, response.content.drop length)
  else none

theorem decodeNext_iff {bytes rest : Text} {d : DecodedResponse} :
    decodeNext bytes = some (d, rest) ↔
      decodeResponse bytes = some { d with content := d.content ++ rest } ∧
        (d.headers.lookup "Content-Length".toList).bind decodeNumber = some d.content.length := by
  constructor
  · intro h
    obtain ⟨response, hresponse, h⟩ := Option.bind_eq_some_iff.mp h
    obtain ⟨length, hlength, h⟩ := Option.bind_eq_some_iff.mp h
    split_ifs at h with hle
    obtain ⟨rfl, rfl⟩ := Prod.mk.inj (Option.some.inj h)
    simp only [List.take_append_drop, List.length_take, Nat.min_eq_left hle]
    exact ⟨hresponse, hlength⟩
  · rintro ⟨hresponse, hlength⟩
    simp only [decodeNext, hresponse, Option.bind_eq_bind, Option.bind_some, hlength]
    rw [if_pos (by simp), List.take_left', List.drop_left'] <;> rfl

def client : Decoder Char DecodedResponse where
  next := decodeNext
  next_append t h := by
    obtain ⟨hresponse, hlength⟩ := decodeNext_iff.mp h
    have hmore := decodeResponse_extend hresponse t
    rw [List.append_assoc] at hmore
    exact decodeNext_iff.mpr ⟨hmore, hlength⟩
  length_lt h := by
    have hlt := length_of_decodeResponse (decodeNext_iff.mp h).1
    simp only [List.length_append] at hlt
    omega

structure Recovered (r : Reply) (d : DecodedResponse) : Prop where
  httpVersion : d.httpVersion = r.httpVersion
  code : (d.code : ℤ) = r.code
  headers : d.headers.Perm r.headers.toList
  content : d.content = r.content

theorem lookup_of_filter {name value : Text} {headers : List (Text × Text)}
    (h : headers.filter (fun header => header.1 = name) = [(name, value)]) : headers.lookup name = some value := by
  induction headers with
  | nil => contradiction
  | cons header headers ih =>
    obtain ⟨n, v⟩ := header
    rw [List.filter_cons] at h
    rw [List.lookup_cons]
    split_ifs at h with hname
    · obtain ⟨heq, -⟩ := List.cons.inj h
      obtain ⟨rfl, rfl⟩ := Prod.mk.inj heq
      simp
    · have hne : (name == n) = false := beq_eq_false_iff_ne.mpr fun heq => hname (decide_eq_true heq.symm)
      rw [hne]
      exact ih h

namespace Session

theorem encodes_of_framed (order : HeaderOrder) {r : Reply} (h : Framed r) :
    ∃ d, client.Encodes (constructHttpResponse order r) d ∧ Recovered r d := by
  obtain ⟨n, headers, hcode, hperm, hdecode, hlength⟩ := recovers_of_framed order h
  refine ⟨⟨r.httpVersion, n, headers, r.content⟩, decodeNext_iff.mpr ⟨?_, ?_⟩, rfl, hcode.symm, hperm, rfl⟩
  · simpa using hdecode
  · rw [lookup_of_filter hlength, Option.bind_some, decodeNumber_decimal]

end Session

namespace EventLoop

open Session

variable {Db : Type} {env : Env Db} {params : ConfigParams} {workers : ℕ} {db : Db}

def AnsweredBy (env : Env Db) (params : ConfigParams) (l : EventLoop Db) (n : ℕ) (d : DecodedResponse) : Prop :=
  ∃ data r es, l.reads[n]? = some data ∧ Path (respond env params (parseRequestLine data)) es (.pure r) ∧
    eventsOf n l.trace = es ++ finish env.order (parseRequestLine data).path r ∧
    Standard params (parseRequestLine data) r ∧ Recovered r d

theorem exists_answeredBy {l : EventLoop Db} {n : ℕ} {bytes : Text} (h : Replied env params l n bytes) :
    ∃ d, client.Encodes bytes d ∧ AnsweredBy env params l n d := by
  obtain ⟨data, r, es, hdata, hpath, hevents, rfl⟩ := h
  have hframed := (hpath.ensures (framed_respond env params data)).2
  have hstandard := (hpath.ensures (respond_ensures (parseRequestLine data))).2
  obtain ⟨d, hencodes, hrecovered⟩ := encodes_of_framed env.order hframed
  exact ⟨d, hencodes, data, r, es, hdata, hpath, hevents, hstandard, hrecovered⟩

theorem exists_decoded {l : EventLoop Db} {answered : List ℕ} {sent : List Text}
    (h : List.Forall₂ (Replied env params l) answered sent) :
    ∃ responses, List.Forall₂ client.Encodes sent responses ∧
      List.Forall₂ (AnsweredBy env params l) answered responses := by
  induction h with
  | nil => exact ⟨[], .nil, .nil⟩
  | cons hreplied _ ih =>
    obtain ⟨d, hencodes, hanswered⟩ := exists_answeredBy hreplied
    obtain ⟨responses, hsent, hall⟩ := ih
    exact ⟨d :: responses, .cons hencodes hsent, .cons hanswered hall⟩

def wires (ws : List Write) : Text := (ws.map Write.wire).flatten

theorem prefix_wires_take (ws : List Write) (n : ℕ) : wires (ws.take n) <+: wires ws := by
  refine ⟨wires (ws.drop n), ?_⟩
  rw [wires, wires, wires, ← List.flatten_append, ← List.map_append, List.take_append_drop]

theorem encodes_take {ws : List Write} {responses : List DecodedResponse} {n : ℕ}
    (hsent : List.Forall₂ client.Encodes (ws.map Write.response) responses) (hwhole : ∀ w ∈ ws.take n, w.Whole) :
    List.Forall₂ client.Encodes ((ws.take n).map Write.wire) (responses.take n) := by
  have hwires : (ws.take n).map Write.wire = (ws.map Write.response).take n := by
    rw [← List.map_take]
    exact List.map_congr_left fun w hw => (hwhole w hw).wire_eq
  rw [hwires]
  exact List.forall₂_take n hsent

/-- The stream is the replies up to the first partial write. -/
theorem client_decodes_replies {l : EventLoop Db} (h : Reachable env params workers db l) {i : ℕ} {c : Connection}
    (hc : l.sessions[i]? = some c) :
    ∃ answered responses, c.received = answered ++ unanswered l.tasks i ∧
      List.Forall₂ (AnsweredBy env params l) answered responses ∧ c.sent.length = responses.length ∧
      ∀ n, (∀ w ∈ c.sent.take n, w.Whole) →
        client.decode (wires (c.sent.take n)) = responses.take n ∧
        responses.take n <+: client.decode (wires c.sent) ∧
        ∀ arrived, arrived <+: wires (c.sent.take n) → client.decode arrived <+: responses.take n := by
  obtain ⟨answered, hreceived, hreplied⟩ := inOrder_of_reachable h hc
  obtain ⟨responses, hsent, hanswered⟩ := exists_decoded hreplied
  have hlength := hsent.length_eq
  rw [List.length_map] at hlength
  refine ⟨answered, responses, hreceived, hanswered, hlength, fun n hwhole => ?_⟩
  have hencodes := encodes_take hsent hwhole
  have hdecode : client.decode (wires (c.sent.take n)) = responses.take n := Decoder.decode_flatten hencodes
  refine ⟨hdecode, ?_, fun arrived harrived => Decoder.decode_prefix_flatten hencodes harrived⟩
  rw [← hdecode]
  exact client.decode_prefix (prefix_wires_take c.sent n)

theorem client_decodes_replies_twoReads :
    ∃ c responses, (loop plainEnv statusParams 1 () twoReads).sessions[0]? = some c ∧
      List.Forall₂ (AnsweredBy plainEnv statusParams (loop plainEnv statusParams 1 () twoReads)) [0, 1] responses ∧
      client.decode (wires c.sent) = responses := by
  obtain ⟨c, hc, hreceived, hlength, hwhole, hempty⟩ := twoReads_connection
  obtain ⟨answered, responses, hall, hanswered, hresponses, hdecode⟩ :=
    @client_decodes_replies Unit plainEnv statusParams 1 () _ (reachable_loop twoReads) 0 c hc
  have hboth := (hdecode 2 fun w hw => hwhole w (List.mem_of_mem_take hw)).1
  rw [hreceived, hempty, List.append_nil] at hall
  rw [List.take_of_length_le hlength.le, List.take_of_length_le (hresponses ▸ hlength.le)] at hboth
  exact ⟨c, responses, hc, hall ▸ hanswered, hboth⟩

end EventLoop

end Bingit
