import Bingit.MemeRefinement

namespace Bingit.Meme

open Text Interleaving Session MemeHandler

namespace Store

structure Has (n : ℕ) (o : Option StoredMeme) (s : Store) : Prop where
  memes_eq : s.memes n = o
  le_count : n ≤ s.count

def Touches (n : ℕ) : Command → Prop
  | .edit k _ => k = n
  | .delete k => k = n
  | _ => False

theorem has_apply {n : ℕ} {o : Option StoredMeme} {s : Store} (h : Has n o s) {c : Command}
    (hc : o = none ∨ ¬ Touches n c) : Has n o (s.apply c) := by
  obtain ⟨hmemes, hle⟩ := h
  cases c with
  | create m =>
    refine ⟨?_, Nat.le_succ_of_le hle⟩
    change Function.update s.memes (s.count + 1) (some m) n = o
    rw [Function.update_of_ne (by omega), hmemes]
  | edit k m =>
    rw [apply]
    split
    · exact ⟨hmemes, hle⟩
    · next hstored =>
      refine ⟨?_, hle⟩
      have hne : n ≠ k := by
        rintro rfl
        rcases hc with rfl | hc
        · exact hstored hmemes
        · exact hc rfl
      change Function.update s.memes k (some m) n = o
      rw [Function.update_of_ne hne, hmemes]
  | delete k =>
    refine ⟨?_, hle⟩
    change Function.update s.memes k none n = o
    by_cases hk : n = k
    · subst hk
      rw [Function.update_self]
      exact (hc.resolve_right fun hno => hno rfl).symm
    · rw [Function.update_of_ne hk, hmemes]
  | view k => exact ⟨hmemes, hle⟩
  | list searchQuery => exact ⟨hmemes, hle⟩

theorem has_step {n : ℕ} {o : Option StoredMeme} {s : Store} (h : Has n o s) {op : Op}
    (hop : o = none ∨ ∀ command ∈ commandOf op, ¬ Touches n command) : Has n o (s.step op) := by
  rw [step]
  cases hcommand : commandOf op with
  | none => exact h
  | some command => exact has_apply h (hop.imp_right fun hquiet => hquiet command hcommand)

def after (trace : List (ℕ × Event Ret)) : Store := empty.run (trace.map Prod.snd)

theorem after_concat (trace : List (ℕ × Event Ret)) (e : ℕ × Event Ret) :
    after (trace ++ [e]) = (after trace).step e.2.1 := by
  rw [after, List.map_append, run_append]
  rfl

def Quiet (n : ℕ) (trace : List (ℕ × Event Ret)) : Prop :=
  ∀ e ∈ trace, ∀ command ∈ commandOf e.2.1, ¬ Touches n command

theorem has_after {n : ℕ} {o : Option StoredMeme} {trace rest : List (ℕ × Event Ret)} (h : Has n o (after trace))
    (hrest : o = none ∨ Quiet n rest) : Has n o (after (trace ++ rest)) := by
  induction rest generalizing trace with
  | nil => rwa [List.append_nil]
  | cons e rest ih =>
    rw [List.append_cons]
    refine ih ?_ (hrest.imp_right fun hquiet f hf => hquiet f (List.mem_cons_of_mem e hf))
    rw [after_concat]
    exact has_step h (hrest.imp_right fun hquiet => hquiet e List.mem_cons_self)

theorem has_delete {n : ℕ} {s : Store} (h : n ≤ s.count) : Has n none (s.step (.query (.delete (decimal n)))) := by
  rw [step, commandOf, decodeNumber_decimal]
  exact ⟨Function.update_self .., h⟩

end Store

variable {Db : Type} {env : Env Db} {params : ConfigParams} {db : Db} {table : Db → ℕ → Option StoredMeme}
  {like : Text → Text → Bool} {c c' : Server Db} {i : ℕ} {h : MemeHandler} {request : Request} {r : Reply}

structure Served (params : ConfigParams) (c : Server Db) (i : ℕ) (h : MemeHandler) (request : Request) (r : Reply) :
    Prop where
  thread : ∃ data, c.threads[i]? = some (data, .pure r) ∧ parseRequestLine data = request
  valid : request.valid = true
  select : selectHandler params request.path = .meme h
  location : ¬ h.LocationMismatch request.path

variable (env params db table like) in
structure GoodRun (c : Server Db) : Prop where
  sqlite : Sqlite env.exec table like
  empty : table db = fun _ => none
  run : Run env params db c
  reads : ∀ (i : ℕ) data q, c.threads[i]? = some (data, q) → GoodRead env params data
  few : (created (c.trace.map Prod.snd)).length < 2 ^ 31

abbrev Before (env : Env Db) (params : ConfigParams) (c c' : Server Db) : Prop :=
  Later (execute env) (handleRead env params) c c'

theorem GoodRun.before (hgood : GoodRun env params db table like c') (hrun : Run env params db c)
    (hlater : Before env params c c') : GoodRun env params db table like c := by
  refine ⟨hgood.sqlite, hgood.empty, hrun, ?_, ?_⟩
  · intro i data q hi
    obtain ⟨q', hq'⟩ := hlater.thread hi
    exact hgood.reads i data q' hq'
  · have hsublist := ((hlater.trace_prefix.map Prod.snd).filterMap createdOf).length_le
    exact hsublist.trans_lt hgood.few

theorem GoodRun.refines (hgood : GoodRun env params db table like c) :
    Refines like .empty (abstraction table c.shared) (c.trace.map Prod.snd) :=
  refines_of_run hgood.sqlite hgood.empty hgood.run hgood.reads hgood.few

theorem GoodRun.answers (hgood : GoodRun env params db table like c) {before after : List (ℕ × Event Ret)}
    {e : Event Ret} (htrace : c.trace = before ++ (i, e) :: after) :
    Answers like (Store.after before) e.1 e.2 := by
  apply hgood.refines.answers (before.map Prod.snd) e (after.map Prod.snd)
  rw [htrace, List.map_append, List.map_cons]

theorem Served.events (hserved : Served params c i h request r) (hrun : Run env params db c) :
    ∃ page es, eventsOf i c.trace = ⟨.createHandler, ()⟩ :: (es ++ finish env.order request.path r) ∧
      Path (h.servePage env request) es (.pure page) ∧
      r = makeReply request.httpVersion page.code page.mimeType page.content := by
  obtain ⟨data, hthread, rfl⟩ := hserved.thread
  obtain ⟨es, hrespond, hevents⟩ := handleRead_done ((Reachable.path hrun).1 i data _ hthread)
  obtain ⟨page, es', rfl, hpage, hr⟩ := meme_path hserved.valid hserved.select hrespond
  exact ⟨page, es', hevents, hpage, hr⟩

theorem GoodRun.renders (hgood : GoodRun env params db table like c) (hserved : Served params c i h request r) :
    ∃ before page, (∀ t, t <+: c.trace → eventsOf i t = [] → t <+: before) ∧ before <+: c.trace ∧
      Renders env like h request (Store.after before) page ∧
      r = makeReply request.httpVersion page.code page.mimeType page.content := by
  obtain ⟨page, es, hevents, hpage, hr⟩ := hserved.events hgood.run
  obtain ⟨hlength, hright⟩ := servePage_renders hserved.location hpage
  obtain ⟨before, hinitial, hown, hnext⟩ := exists_before hevents hlength
  refine ⟨before, page, fun t ht hnone => ?_, hinitial, hright _ fun e he => ?_, hr⟩
  · obtain ⟨first, rest, rfl, -, -⟩ := exists_of_eventsOf_cons hown
    obtain ⟨others, hothers⟩ := hinitial
    rw [← hothers, List.append_assoc] at ht
    exact (prefix_of_eventsOf_eq_nil ht hnone).trans (List.prefix_append _ _)
  · obtain ⟨after, htrace⟩ := hnext e he
    exact hgood.answers htrace

theorem exists_of_mem_eventsOf {trace : List (ℕ × Event Ret)} {e : Event Ret} (he : e ∈ eventsOf i trace) :
    ∃ before after, trace = before ++ (i, e) :: after := by
  obtain ⟨⟨j, f⟩, hf, rfl⟩ := List.mem_map.mp he
  obtain ⟨hmem, hj⟩ := List.mem_filter.mp hf
  obtain rfl : j = i := of_decide_eq_true hj
  exact List.append_of_mem hmem

theorem Served.delete_event (hserved : Served params c i h request r) (hrun : Run env params db c) {memeId : Text}
    (hroute : h.route request.path = .delete memeId) :
    ∃ result before after, c.trace = before ++ (i, ⟨.query (.delete memeId), result⟩) :: after := by
  obtain ⟨page, es, hevents, hpage, -⟩ := hserved.events hrun
  rw [servePage, if_neg hserved.location, hroute] at hpage
  obtain ⟨result, es', rfl, -⟩ := Action.query_inv hpage
  exact ⟨result, exists_of_mem_eventsOf (by simp [hevents])⟩

theorem GoodRun.abstraction_eq (hgood : GoodRun env params db table like c) :
    abstraction table c.shared = Store.after c.trace := hgood.refines.run_eq

theorem GoodRun.renders_has (hgood : GoodRun env params db table like c) (hserved : Served params c i h request r)
    {t rest : List (ℕ × Event Ret)} (htrace : c.trace = t ++ rest) (hnew : eventsOf i t = []) {n : ℕ}
    {o : Option StoredMeme} (hstored : Store.Has n o (Store.after t)) (hrest : o = none ∨ Store.Quiet n rest) :
    ∃ s page, Store.Has n o s ∧ Renders env like h request s page ∧
      r = makeReply request.httpVersion page.code page.mimeType page.content := by
  obtain ⟨before, page, hafter, ⟨others, hothers⟩, hrenders, hr⟩ := hgood.renders hserved
  obtain ⟨between, rfl⟩ := hafter t ⟨rest, htrace.symm⟩ hnew
  rw [htrace, List.append_assoc, List.append_cancel_left_eq] at hothers
  refine ⟨_, page, Store.has_after hstored (hrest.imp_right fun hquiet e he => ?_), hrenders, hr⟩
  exact hquiet e (hothers ▸ List.mem_append_left others he)

theorem page_of_has {s : Store} {n : ℕ} {o : Option StoredMeme} (hstored : Store.Has n o s) {page : Page}
    (hrenders : Renders env like h request s page) :
    (h.route request.path = .edit (decimal n) →
      page = o.elim (memeNotFound (decimal n)) (fun m => editPage env h.handlerRoot m.row (decimal n))) ∧
    (h.route request.path = .view → h.viewId env request.path = some (decimal n) →
      page = o.elim (memeNotFound (decimal n)) (fun m => .html 200 (viewContent m.row (decimal n)))) ∧
    (h.route request.path = .list → ∀ q, h.searchQuery env request.path = some q →
      ∃ rows : List (ℕ × StoredMeme), page = .html 200 (listContent (rows.map listedRow) q) ∧
        ∀ m, (n, m) ∈ rows ↔ o = some m ∧ (q = [] || m.found like q) = true) := by
  unfold Renders at hrenders
  refine ⟨fun hroute => ?_, fun hroute hid => ?_, fun hroute q hq => ?_⟩
  · rw [hroute] at hrenders
    rw [← hstored.memes_eq]
    exact hrenders n rfl
  · rw [hroute] at hrenders
    rw [← hstored.memes_eq]
    exact hrenders n hid
  · rw [hroute] at hrenders
    obtain ⟨rows, hlists, hpage⟩ := hrenders q hq
    refine ⟨rows, hpage, fun m => ?_⟩
    rw [hlists.mem_iff, hstored.memes_eq]

/-- No page shows a meme whose deletion was answered. -/
theorem deleted_stays_deleted {c₀ : Server Db} (hgood : GoodRun env params db table like c')
    (hrun : Run env params db c₀) (hdelete : Before env params c₀ c) (hlater : Before env params c c') {n : ℕ}
    (hn : n ≤ c₀.shared.memeCount) (hi : c₀.threads.length ≤ i) (hserved : Served params c i h request r)
    (hroute : h.route request.path = .delete (decimal n)) :
    table c'.shared.db n = none ∧
    ∀ j h' request' r', c.threads.length ≤ j → Served params c' j h' request' r' →
      ∃ page : Page, r' = makeReply request'.httpVersion page.code page.mimeType page.content ∧
        (h'.route request'.path = .edit (decimal n) → page = memeNotFound (decimal n)) ∧
        (h'.route request'.path = .view → h'.viewId env request'.path = some (decimal n) →
          page = memeNotFound (decimal n)) ∧
        (h'.route request'.path = .list → ∀ q, h'.searchQuery env request'.path = some q →
          ∃ rows : List (ℕ × StoredMeme),
            page = .html 200 (listContent (rows.map listedRow) q) ∧ ∀ m, (n, m) ∉ rows) := by
  have hrun' : Run env params db c := hrun.trans hdelete
  have hgood₀ := (hgood.before hrun' hlater).before hrun hdelete
  obtain ⟨result, before, after, htrace⟩ := hserved.delete_event hrun' hroute
  obtain ⟨between, rfl⟩ := Reachable.trace_prefix_before hrun hdelete hi htrace
  have hcount : n ≤ (Store.after (c₀.trace ++ between)).count := by
    rw [Store.after, List.map_append, Store.run_append]
    refine hn.trans (le_of_eq_of_le ?_ (Store.count_le_run _ _))
    exact congrArg Store.count hgood₀.abstraction_eq
  have hgone : Store.Has n none (Store.after c.trace) := by
    rw [htrace, List.append_cons]
    refine Store.has_after ?_ (.inl rfl)
    rw [Store.after_concat]
    exact Store.has_delete hcount
  obtain ⟨rest, hrest⟩ := hlater.trace_prefix
  constructor
  · have hlast : Store.Has n none (abstraction table c'.shared) := by
      rw [hgood.abstraction_eq, ← hrest]
      exact Store.has_after hgone (.inl rfl)
    exact hlast.memes_eq
  · intro j h' request' r' hj hserved'
    have hnew := (Reachable.path hrun').2 j hj
    obtain ⟨s, page, hstored, hrenders, hr⟩ := hgood.renders_has hserved' hrest.symm hnew hgone (.inl rfl)
    obtain ⟨hedit, hview, hlist⟩ := page_of_has hstored hrenders
    refine ⟨page, hr, hedit, hview, fun hroute' q hq => ?_⟩
    obtain ⟨rows, hpage, hrows⟩ := hlist hroute' q hq
    refine ⟨rows, hpage, fun m hm => ?_⟩
    obtain ⟨hno, -⟩ := (hrows m).mp hm
    contradiction

def viewData : Text := "GET /meme/view?id=1 HTTP/1.1\r\n\r\n".toList

def memeRun (turns : List (Turn Text)) : Server Reference.Table :=
  Pool.schedule (execute (.standalone Reference.exec)) (handleRead (.standalone Reference.exec) memeParams)
    (.initial ∅) turns

theorem before_memeRun (turns more : List (Turn Text)) :
    Before (.standalone Reference.exec) memeParams (memeRun turns) (memeRun (turns ++ more)) := by
  rw [memeRun, memeRun, Pool.schedule, Pool.schedule, List.foldl_append]
  exact later_turns _ more

theorem goodRead_viewData : GoodRead (.standalone Reference.exec) memeParams viewData := by
  intro _ h hselect
  unfold viewData at hselect ⊢
  rw [String.toList_ofList] at hselect ⊢
  obtain rfl := select_meme hselect rfl
  rw [GoodRequest, show MemeHandler.route _ (parseRequestLine _).path = .view by decide +kernel]
  exact ⟨1, by decide +kernel⟩

def outcomes (c : Server Reference.Table) : List (Text × Bool) := c.threads.map fun t => (t.1, t.2.value.isSome)

theorem length_threads (c : Server Reference.Table) : c.threads.length = (outcomes c).length :=
  (List.length_map _).symm

theorem mem_datas {c : Server Reference.Table}
    (h : outcomes c = [(createData, true), (deleteData, true), (viewData, true)]) :
    ∀ t ∈ outcomes c, t.1 ∈ [createData, deleteData, viewData] := by
  intro t ht
  have hmem := List.mem_map_of_mem (f := Prod.fst) ht
  rwa [h] at hmem

theorem goodRun_memeRun {turns : List (Turn Text)}
    (hdata : ∀ t ∈ outcomes (memeRun turns), t.1 ∈ [createData, deleteData, viewData])
    (hfew : (created ((memeRun turns).trace.map Prod.snd)).length < 2 ^ 31) :
    GoodRun (.standalone Reference.exec) memeParams ∅ (fun db n => db[n]?) Reference.like (memeRun turns) where
  sqlite := Reference.sqlite
  empty := by
    funext n
    exact Std.TreeMap.getElem?_emptyc
  run := reachable_schedule _ turns
  reads i data q hi := by
    have hmem := hdata _ (List.mem_map.mpr ⟨_, List.mem_of_getElem? hi, rfl⟩)
    simp only [List.mem_cons, List.not_mem_nil, or_false] at hmem
    rcases hmem with rfl | rfl | rfl
    · exact goodRead_createData
    · exact goodRead_deleteData
    · exact goodRead_viewData
  few := hfew

def creating : List (Turn Text) := [.spawn createData, .run 0, .run 0, .run 0, .run 0]

def deleting : List (Turn Text) := [.spawn deleteData, .run 1, .run 1, .run 1, .run 1]

def viewing (i : ℕ) : List (Turn Text) := [.spawn viewData, .run i, .run i, .run i, .run i]

theorem exists_returned {c : Server Reference.Table} {i : ℕ} {data : Text} (h : (outcomes c)[i]? = some (data, true)) :
    ∃ r, c.threads[i]? = some (data, .pure r) := by
  rw [outcomes, List.getElem?_map] at h
  obtain ⟨⟨data', p⟩, hi, heq⟩ := Option.map_eq_some_iff.mp h
  obtain ⟨rfl, hvalue⟩ := Prod.mk.inj heq
  obtain ⟨r, hr⟩ := Option.isSome_iff_exists.mp hvalue
  exact ⟨r, hi.trans (congrArg some (Prod.ext rfl (Prog.eq_pure_of_value hr)))⟩

theorem served_of_outcomes {c : Server Reference.Table} {i : ℕ} {data : Text}
    (h : (outcomes c)[i]? = some (data, true)) (hvalid : (parseRequestLine data).valid = true)
    (hselect : selectHandler memeParams (parseRequestLine data).path =
      .meme ⟨"./meme".toList, "/meme".toList, "/view".toList⟩)
    (hlocation : find "/meme".toList (parseRequestLine data).path = some 0) :
    ∃ r, Served memeParams c i ⟨"./meme".toList, "/meme".toList, "/view".toList⟩ (parseRequestLine data) r := by
  obtain ⟨r, hi⟩ := exists_returned h
  exact ⟨r, ⟨data, hi, rfl⟩, hvalid, hselect, fun hmismatch => hmismatch hlocation⟩

theorem outcomes_deleted :
    (memeRun creating).shared.memeCount = 1 ∧ outcomes (memeRun creating) = [(createData, true)] ∧
      outcomes (memeRun (creating ++ deleting)) = [(createData, true), (deleteData, true)] ∧
      outcomes (memeRun (creating ++ deleting ++ viewing 2)) =
        [(createData, true), (deleteData, true), (viewData, true)] ∧
      (created ((memeRun (creating ++ deleting ++ viewing 2)).trace.map Prod.snd)).length < 2 ^ 31 := by
  unfold memeRun creating deleting viewing memeParams createData deleteData viewData
  repeat rw [String.toList_ofList]
  decide +kernel

theorem parsed_datas :
    ((parseRequestLine createData).valid = true ∧ find "/meme".toList (parseRequestLine createData).path = some 0 ∧
      MemeHandler.route ⟨"./meme".toList, "/meme".toList, "/view".toList⟩ (parseRequestLine createData).path =
        .create) ∧
    ((parseRequestLine deleteData).valid = true ∧ find "/meme".toList (parseRequestLine deleteData).path = some 0 ∧
      MemeHandler.route ⟨"./meme".toList, "/meme".toList, "/view".toList⟩ (parseRequestLine deleteData).path =
        .delete (decimal 1)) ∧
    (parseRequestLine viewData).valid = true ∧ find "/meme".toList (parseRequestLine viewData).path = some 0 ∧
      MemeHandler.route ⟨"./meme".toList, "/meme".toList, "/view".toList⟩ (parseRequestLine viewData).path = .view ∧
      MemeHandler.viewId (.standalone Reference.exec) ⟨"./meme".toList, "/meme".toList, "/view".toList⟩
        (parseRequestLine viewData).path = some (decimal 1) := by
  unfold createData deleteData viewData
  repeat rw [String.toList_ofList]
  decide +kernel

theorem deleted_stays_deleted_viewed :
    ((memeRun (creating ++ deleting ++ viewing 2)).shared.db[1]? : Option StoredMeme) = none ∧
      ∃ page r, page = memeNotFound (decimal 1) ∧
        (∃ data, (memeRun (creating ++ deleting ++ viewing 2)).threads[2]? = some (data, .pure r) ∧
          parseRequestLine data = parseRequestLine viewData) ∧
        r = makeReply (parseRequestLine viewData).httpVersion page.code page.mimeType page.content := by
  obtain ⟨hcount, hcreated, hdeleted, hviewed, hfew⟩ := outcomes_deleted
  obtain ⟨-, ⟨hvalid, hlocation, hroute⟩, hvalid', hlocation', hroute', hid⟩ := parsed_datas
  obtain ⟨r, hserved⟩ := served_of_outcomes (i := 1) (by rw [hdeleted]; rfl) hvalid rfl hlocation
  obtain ⟨r', hserved'⟩ := served_of_outcomes (i := 2) (by rw [hviewed]; rfl) hvalid' rfl hlocation'
  have hdatas := mem_datas hviewed
  have hn : 1 ≤ (memeRun creating).shared.memeCount := hcount.ge
  have hnew : (memeRun creating).threads.length ≤ 1 := by rw [length_threads, hcreated, List.length_singleton]
  have hnew' : (memeRun (creating ++ deleting)).threads.length ≤ 2 := by
    rw [length_threads, hdeleted, List.length_cons, List.length_singleton]
  have hrun : Run (.standalone Reference.exec) memeParams ∅ (memeRun creating) := reachable_schedule _ creating
  obtain ⟨hgone, hshown⟩ := deleted_stays_deleted (goodRun_memeRun hdatas hfew) hrun
    (before_memeRun creating deleting) (before_memeRun (creating ++ deleting) (viewing 2)) (n := 1) hn hnew hserved
    hroute
  obtain ⟨page, hr, -, hview, -⟩ := hshown 2 _ _ r' hnew' hserved'
  exact ⟨hgone, page, r', hview hroute' hid, hserved'.thread, hr⟩

end Bingit.Meme
