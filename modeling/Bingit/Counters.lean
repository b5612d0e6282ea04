import Bingit.Framing

namespace Bingit.Session

open Text Interleaving Histogram

variable {Db : Type} {env : Env Db} {params : ConfigParams} {db : Db}

abbrev Server (Db : Type) := Pool Ret (Shared Db) Text Reply

/-- Any number of reads, their steps in any order. -/
def Run (env : Env Db) (params : ConfigParams) (db : Db) (c : Server Db) : Prop :=
  Reachable (execute env) (handleRead env params) (.initial db) c

def updateOf : Event Ret → Option (Text × ℤ)
  | ⟨.updateCounters path code, _⟩ => some (path, code)
  | _ => none

def updates (trace : List (ℕ × Event Ret)) : List (Text × ℤ) := trace.filterMap (fun e => updateOf e.2)

def after (env : Env Db) (db : Db) (trace : List (ℕ × Event Ret)) : Shared Db :=
  replay (execute env) (.initial db) (trace.map Prod.snd)

structure Exact (s : Shared Db) (us : List (Text × ℤ)) : Prop where
  urls : IsHistogram s.urlCounter (us.map Prod.fst)
  codes : IsHistogram s.codeCounter (us.map Prod.snd)

theorem updates_append (s t : List (ℕ × Event Ret)) : updates (s ++ t) = updates s ++ updates t :=
  List.filterMap_append

theorem exact_step (env : Env Db) {s : Shared Db} {us : List (Text × ℤ)} (h : Exact s us) (e : Event Ret) :
    Exact (execute env e.1 s).1 (us ++ (updateOf e).toList) := by
  obtain ⟨op, answer⟩ := e
  cases op with
  | updateCounters path code =>
    refine ⟨?_, ?_⟩
    · rw [List.map_append]
      exact isHistogram_countUp h.urls path
    · rw [List.map_append]
      exact isHistogram_countUp h.codes code
  | _ =>
    change Exact _ (us ++ [])
    rw [List.append_nil]
    exact ⟨h.urls, h.codes⟩

theorem exact_replay (env : Env Db) (es : List (Event Ret)) {s : Shared Db} {us : List (Text × ℤ)} (h : Exact s us) :
    Exact (replay (execute env) s es) (us ++ es.filterMap updateOf) := by
  induction es generalizing s us with
  | nil => simpa using h
  | cons e es ih =>
    have hrest := ih (exact_step env h e)
    cases hupdate : updateOf e with
    | none =>
      rw [hupdate, Option.toList_none, List.append_nil] at hrest
      rwa [List.filterMap_cons_none hupdate]
    | some u =>
      rw [hupdate, Option.toList_some, List.append_assoc] at hrest
      rwa [List.filterMap_cons_some hupdate]

theorem exact_after (env : Env Db) (db : Db) (trace : List (ℕ × Event Ret)) :
    Exact (after env db trace) (updates trace) := by
  have hempty : Exact (Shared.initial db) [] := ⟨isHistogram_empty, isHistogram_empty⟩
  have hreplay := exact_replay env (trace.map Prod.snd) hempty
  rwa [List.nil_append, List.filterMap_map] at hreplay

theorem Exact.sum_urls {s : Shared Db} {us : List (Text × ℤ)} (h : Exact s us) :
    (s.urlCounter.toList.map Prod.snd).sum = us.length := by
  rw [h.urls.sum_eq, List.length_map]

theorem Exact.sum_codes {s : Shared Db} {us : List (Text × ℤ)} (h : Exact s us) :
    (s.codeCounter.toList.map Prod.snd).sum = us.length := by
  rw [h.codes.sum_eq, List.length_map]

theorem update_of_mem_trace {c : Server Db} (h : Run env params db c) {i : ℕ} {path : Text} {code : ℤ}
    (hmem : (i, ⟨Op.updateCounters path code, ()⟩) ∈ c.trace) :
    ∃ data q es r, c.threads[i]? = some (data, q) ∧
      Path (respond env params (parseRequestLine data)) es (.pure r) ∧
      path = (parseRequestLine data).path ∧ code = r.code := by
  obtain ⟨data, q, hthread, hpath, hevent⟩ := Reachable.thread h hmem
  have hrespond := framed_respond env params data
  rcases handleRead_cases hpath with ⟨p, hp⟩ | ⟨r, es₁, es₂, hr, hes, hes₂⟩
  · exact absurd ((hp.ensures hrespond).1 _ hevent) id
  · rw [hes] at hevent
    rcases List.mem_append.mp hevent with hin | hin
    · exact absurd ((hr.ensures hrespond).1 _ hin) id
    · rcases List.mem_pair.mp (hes₂.subset hin) with heq | heq
      · obtain ⟨hurl, hcode⟩ := Op.updateCounters.inj (congrArg Sigma.fst heq)
        exact ⟨data, q, es₁, r, hthread, hr, hurl, hcode⟩
      · exact absurd (congrArg Sigma.fst heq) (by simp)

theorem status_path {request : Request} (hvalid : request.valid = true)
    (hstatus : selectHandler params request.path = .status) {es : List (Event Ret)} {r : Reply}
    (h : Path (respond env params request) es (.pure r)) :
    ∃ (total : ℤ) (urls : List (Text × ℤ)) (codes : List (ℤ × ℤ)),
      es = [⟨.createHandler, ()⟩, ⟨.sumUrls, total⟩, ⟨.listUrls, urls⟩, ⟨.listCodes, codes⟩] ∧
        r.content = StatusHandler.content total urls codes params.handlerPaths := by
  rw [respond, if_pos hvalid, hstatus] at h
  obtain ⟨_, es₁, rfl, h₁⟩ := Path.call_pure_inv h
  obtain ⟨total, es₂, rfl, h₂⟩ := Path.call_pure_inv h₁
  obtain ⟨urls, es₃, rfl, h₃⟩ := Path.call_pure_inv h₂
  obtain ⟨codes, es₄, rfl, h₄⟩ := Path.call_pure_inv h₃
  obtain ⟨rfl, hr⟩ := Path.pure_inv h₄
  refine ⟨total, urls, codes, rfl, ?_⟩
  rw [Prog.pure.inj hr]
  rfl

structure StatusPasses (env : Env Db) (db : Db) (trace : List (ℕ × Event Ret)) (i : ℕ)
    (t₀ t₁ t₂ : List (ℕ × Event Ret)) (total : ℤ) (urls : List (Text × ℤ)) (codes : List (ℤ × ℤ)) : Prop where
  trace_eq : ∃ t₃, trace = t₀ ++ (i, ⟨.sumUrls, total⟩) :: (t₁ ++ (i, ⟨.listUrls, urls⟩) ::
    (t₂ ++ (i, ⟨.listCodes, codes⟩) :: t₃))
  own : eventsOf i t₀ = [⟨.createHandler, ()⟩]
  total_eq : total = ((after env db t₀).urlCounter.toList.map Prod.snd).sum
  urls_eq : urls = (after env db (t₀ ++ t₁)).urlCounter.toList
  codes_eq : codes = (after env db (t₀ ++ t₁ ++ t₂)).codeCounter.toList

theorem after_append (s t : List (ℕ × Event Ret)) :
    after env db (s ++ t) = replay (execute env) (after env db s) (t.map Prod.snd) := by
  rw [after, List.map_append, replay_append]
  rfl

theorem after_read {e : ℕ × Event Ret} (he : ∀ s, (execute env e.2.1 s).1 = s) (s t : List (ℕ × Event Ret)) :
    after env db (s ++ e :: t) = after env db (s ++ t) := by
  rw [after_append, after_append, List.map_cons]
  change replay (execute env) (execute env e.2.1 (after env db s)).1 (t.map Prod.snd) = _
  rw [he]

theorem exists_statusPasses {c : Server Db} (h : Run env params db c) {i : ℕ} {data : Text} {r : Reply}
    (hi : c.threads[i]? = some (data, .pure r)) (hvalid : (parseRequestLine data).valid = true)
    (hstatus : selectHandler params (parseRequestLine data).path = .status) :
    ∃ t₀ t₁ t₂ total urls codes, StatusPasses env db c.trace i t₀ t₁ t₂ total urls codes ∧
      r.content = StatusHandler.content total urls codes params.handlerPaths := by
  obtain ⟨es₁, hr, hes⟩ := handleRead_done ((Reachable.path h).1 i data _ hi)
  obtain ⟨total, urls, codes, rfl, hcontent⟩ := status_path hvalid hstatus hr
  obtain ⟨s₀, s₁, htrace, hs₀, hs₁⟩ := exists_of_eventsOf_cons hes
  obtain ⟨t₀, s₂, rfl, ht₀, hs₂⟩ := exists_of_eventsOf_cons hs₁
  obtain ⟨t₁, s₃, rfl, ht₁, hs₃⟩ := exists_of_eventsOf_cons hs₂
  obtain ⟨t₂, t₃, rfl, ht₂, ht₃⟩ := exists_of_eventsOf_cons hs₃
  have hsum : c.trace = (s₀ ++ (i, ⟨.createHandler, ()⟩) :: t₀) ++ (i, ⟨.sumUrls, total⟩) ::
      (t₁ ++ (i, ⟨.listUrls, urls⟩) :: (t₂ ++ (i, ⟨.listCodes, codes⟩) :: t₃)) := by
    simp only [htrace, List.append_assoc, List.cons_append]
  have hurls : c.trace = ((s₀ ++ (i, ⟨.createHandler, ()⟩) :: t₀) ++ (i, ⟨.sumUrls, total⟩) :: t₁) ++
      (i, ⟨.listUrls, urls⟩) :: (t₂ ++ (i, ⟨.listCodes, codes⟩) :: t₃) := by
    simp only [htrace, List.append_assoc, List.cons_append]
  have hcodes : c.trace = (((s₀ ++ (i, ⟨.createHandler, ()⟩) :: t₀) ++ (i, ⟨.sumUrls, total⟩) :: t₁) ++
      (i, ⟨.listUrls, urls⟩) :: t₂) ++ (i, ⟨.listCodes, codes⟩) :: t₃ := by
    simp only [htrace, List.append_assoc, List.cons_append]
  refine ⟨s₀ ++ (i, ⟨.createHandler, ()⟩) :: t₀, t₁, t₂, total, urls, codes, ⟨⟨t₃, hsum⟩, ?_, ?_, ?_, ?_⟩, hcontent⟩
  · rw [eventsOf_append, hs₀]
    simpa [eventsOf] using ht₀
  · exact Reachable.answer h hsum
  · rw [← after_read (e := (i, ⟨.sumUrls, total⟩)) (fun _ => rfl)]
    exact Reachable.answer h hurls
  · rw [← after_read (e := (i, ⟨.listUrls, urls⟩)) (fun _ => rfl), List.append_assoc,
      ← after_read (e := (i, ⟨.sumUrls, total⟩)) (fun _ => rfl), ← List.cons_append, ← List.append_assoc]
    exact Reachable.answer h hcodes

theorem path_of_invalid {data : Text} (h : (parseRequestLine data).valid = false) :
    (parseRequestLine data).path = [] := by
  rcases parseRequestLine_cases data with hinvalid | hvalid
  · rw [hinvalid]
  · obtain ⟨method, path, version, headers, body, s₁, s₂, s₃, -, -, -, -, -, -, heq⟩ := hvalid
    rw [heq] at h
    contradiction

def statusParams : ConfigParams :=
  .ofConfig [.mk ["handler".toList, "status".toList] (some [.mk ["location".toList, "/status".toList] none])]

def statusData : Text := "GET /status HTTP/1.1\r\n\r\n".toList

def plainEnv : Env Unit := .standalone fun db _ => (db, ⟨[], none⟩)

def scheduled (turns : List (Turn Text)) : Server Unit :=
  Pool.schedule (execute plainEnv) (handleRead plainEnv statusParams) (.initial ()) turns

theorem run_scheduled (turns : List (Turn Text)) : Run plainEnv statusParams () (scheduled turns) :=
  reachable_schedule _ turns

def oddPath : Text := "/a:1\n".toList

def oddData : Text := "GET ".toList ++ oddPath ++ " HTTP/1.1\r\n\r\n".toList

def disturbing : List (Turn Text) :=
  [.spawn oddData, .spawn [], .spawn statusData, .run 0, .run 0, .run 0, .run 2, .run 2, .run 1, .run 2, .run 2, .run 2,
    .run 2, .spawn oddData, .run 3]

def disturbed : Server Unit := scheduled disturbing

theorem status_consistent_iff {c : Server Db} (h : Run env params db c) {i : ℕ} {data : Text} {r : Reply}
    (hi : c.threads[i]? = some (data, .pure r)) (hvalid : (parseRequestLine data).valid = true)
    (hstatus : selectHandler params (parseRequestLine data).path = .status) :
    ∃ t₀ t₁ t₂ total urls codes, StatusPasses env db c.trace i t₀ t₁ t₂ total urls codes ∧
      r.content = StatusHandler.content total urls codes params.handlerPaths ∧
      (total = (urls.map Prod.snd).sum ∧ total = (codes.map Prod.snd).sum ↔ updates t₁ = [] ∧ updates t₂ = []) := by
  obtain ⟨t₀, t₁, t₂, total, urls, codes, hpasses, hcontent⟩ := exists_statusPasses h hi hvalid hstatus
  refine ⟨t₀, t₁, t₂, total, urls, codes, hpasses, hcontent, ?_⟩
  have htotal := hpasses.total_eq.trans (exact_after env db t₀).sum_urls
  have hurls : (urls.map Prod.snd).sum = (updates (t₀ ++ t₁)).length := by
    rw [hpasses.urls_eq]
    exact (exact_after env db _).sum_urls
  have hcodes : (codes.map Prod.snd).sum = (updates (t₀ ++ t₁ ++ t₂)).length := by
    rw [hpasses.codes_eq]
    exact (exact_after env db _).sum_codes
  rw [htotal, hurls, hcodes, ← List.length_eq_zero_iff, ← List.length_eq_zero_iff]
  simp only [updates_append, List.length_append]
  omega

theorem status_consistent_iff_disturbed :
    ∃ r : Reply, ∃ t₀ t₁ t₂ total urls codes, StatusPasses plainEnv () disturbed.trace 2 t₀ t₁ t₂ total urls codes ∧
      r.content = StatusHandler.content total urls codes statusParams.handlerPaths ∧
      (total = (urls.map Prod.snd).sum ∧ total = (codes.map Prod.snd).sum ↔ updates t₁ = [] ∧ updates t₂ = []) :=
  ⟨_, status_consistent_iff (run_scheduled disturbing) (i := 2) rfl (by decide +kernel) rfl⟩

theorem status_inconsistent :
    ∃ (c : Server Unit) (r : Reply), Run plainEnv statusParams () c ∧ c.threads[0]? = some (statusData, .pure r) ∧
      selectHandler statusParams (parseRequestLine statusData).path = .status ∧
      r.content = StatusHandler.content 0 [([], 1)] [(400, 1)] statusParams.handlerPaths ∧
      (0 : ℤ) ≠ ([(([] : Text), (1 : ℤ))].map Prod.snd).sum :=
  ⟨_, _, run_scheduled [.spawn statusData, .spawn [], .run 0, .run 0, .run 1, .run 0, .run 0, .run 0, .run 0],
    rfl, rfl, rfl, by decide⟩

end Bingit.Session
