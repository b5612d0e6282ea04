import Bingit.CreateRequests
import Bingit.MemeRefinement

namespace Bingit.Meme

open Text Sql Interleaving Session MemeHandler

variable {Db : Type} {env : Env Db} {like : Text → Text → Bool} {params : ConfigParams}

structure HandledBy (params : ConfigParams) (data : Text) (h : MemeHandler) : Prop where
  valid : (parseRequestLine data).valid = true
  select : selectHandler params (parseRequestLine data).path = .meme h
  location : ¬ h.LocationMismatch (parseRequestLine data).path

inductive Changes (env : Env Db) (params : ConfigParams) (data : Text) : ℕ → Option StoredMeme → Prop
  | delete {h : MemeHandler} {n : ℕ} (hmeme : HandledBy params data h)
      (hroute : h.route (parseRequestLine data).path = .delete (decimal n)) : Changes env params data n none
  | edit {h : MemeHandler} {n : ℕ} {m : StoredMeme} (hmeme : HandledBy params data h)
      (hroute : h.route (parseRequestLine data).path = .create)
      (hform : createForm env (parseRequestLine data).body = some ⟨m.temp, m.top, m.bottom, decimal n⟩)
      (htexts : ∀ t ∈ [m.temp, m.top, m.bottom], t ≠ [] ∧ '\'' ∉ t) : Changes env params data n (some m)

def changeQuery (n : ℕ) : Option StoredMeme → Query
  | none => .delete (decimal n)
  | some m => .update m.temp m.top m.bottom (decimal n)

def Quoteless (change : Option StoredMeme) : Prop :=
  ∀ m ∈ change, ∀ t ∈ [m.temp, m.top, m.bottom], '\'' ∉ t ∧ nul ∉ t

def placeholder : Text := "Choose...".toList

theorem path_query {q : Query} {f : ExecResult → Page} {es : List (Event Ret)} {page : Page}
    (hcode : ∀ result, (f result).code = if result.err ≠ none then 404 else 200)
    (h : Path (Action.query q >>= fun result => pure (f result)) es (.pure page)) :
    ∃ result, es = [⟨.query q, result⟩] ∧ page.code = if result.err ≠ none then 404 else 200 := by
  obtain ⟨result, es', rfl, hdone⟩ := Action.query_inv h
  obtain ⟨rfl, hpage⟩ := Path.pure_inv hdone
  refine ⟨result, rfl, ?_⟩
  rw [Prog.pure.inj hpage, hcode]

theorem code_createdPage (result : ExecResult) (content : Text) :
    (createdPage result content).code = if result.err ≠ none then 404 else 200 := by
  rw [createdPage]
  split <;> rfl

theorem code_deletedPage (result : ExecResult) (memeId : Text) :
    (deletedPage result memeId).code = if result.err ≠ none then 404 else 200 := by
  rw [deletedPage]
  split <;> rfl

theorem path_update {m : StoredMeme} {n : ℕ} {es : List (Event Ret)} {page : Page}
    (h : Path (updatePage m.temp m.top m.bottom (decimal n)) es (.pure page)) :
    ∃ result, es = [⟨.query (changeQuery n (some m)), result⟩] ∧
      page.code = if result.err ≠ none then 404 else 200 :=
  path_query (fun result => code_createdPage result _) h

theorem path_delete {n : ℕ} {es : List (Event Ret)} {page : Page}
    (h : Path (prepareDeleteRequest (decimal n)) es (.pure page)) :
    ∃ result, es = [⟨.query (changeQuery n none), result⟩] ∧
      page.code = if result.err ≠ none then 404 else 200 :=
  path_query (fun result => code_deletedPage result _) h

def Performs (n : ℕ) (change : Option StoredMeme) (own : List (Event Ret)) (code : ℤ) : Prop :=
  ((∀ m ∈ change, m.temp ≠ placeholder) ∧ Quoteless change ∧ ∃ result : ExecResult,
    own = [⟨.query (changeQuery n change), result⟩] ∧ code = if result.err ≠ none then 404 else 200) ∨
  (∃ m ∈ change, m.temp = placeholder) ∧ own = [] ∧ code = 400

theorem Changes.performs {data : Text} {n : ℕ} {change : Option StoredMeme} (h : Changes env params data n change)
    {es : List (Event Ret)} {r : Reply} (hpath : Path (respond env params (parseRequestLine data)) es (.pure r)) :
    ∃ own, es = ⟨.createHandler, ()⟩ :: own ∧ Performs n change own r.code := by
  cases h with
  | @delete h n hmeme hroute =>
    obtain ⟨page, own, rfl, hpage, rfl⟩ := meme_path hmeme.valid hmeme.select hpath
    rw [servePage, if_neg hmeme.location, hroute] at hpage
    obtain ⟨result, rfl, hcode⟩ := path_delete hpage
    exact ⟨_, rfl, .inl ⟨by simp, by simp [Quoteless], result, rfl, hcode⟩⟩
  | @edit h n m hmeme hroute hform htexts =>
    obtain ⟨page, own, rfl, hpage, rfl⟩ := meme_path hmeme.valid hmeme.select hpath
    rw [servePage, if_neg hmeme.location, hroute] at hpage
    have hpage : Path (prepareCreateRequest env (parseRequestLine data).body) own (.pure page) := hpage
    obtain ⟨hpic, htop, hbot, -⟩ := nul_notMem_createForm env hform
    simp only [List.forall_mem_cons, List.not_mem_nil, false_implies, implies_true, and_true] at htexts
    rw [prepareCreateRequest_of_form hform] at hpage
    refine ⟨own, rfl, ?_⟩
    by_cases hplaceholder : m.temp = placeholder
    · rw [if_pos (.inl hplaceholder)] at hpage
      obtain ⟨rfl, hbad⟩ := Path.pure_inv hpage
      exact .inr ⟨⟨m, rfl, hplaceholder⟩, rfl, by rw [Prog.pure.inj hbad]; rfl⟩
    · have haccepted : ¬ CreateForm.Rejected ⟨m.temp, m.top, m.bottom, decimal n⟩ := by
        rintro (hchoose | hempty | hempty | hempty)
        · exact hplaceholder hchoose
        · exact htexts.1.1 hempty
        · exact htexts.2.1.1 hempty
        · exact htexts.2.2.1 hempty
      rw [if_neg haccepted, if_neg (decimal_ne_nil n)] at hpage
      obtain ⟨result, rfl, hcode⟩ := path_update hpage
      refine .inl ⟨?_, ?_, result, rfl, hcode⟩
      · rintro m' hm'
        rwa [← Option.some.inj hm']
      · rintro m' hm'
        rw [← Option.some.inj hm']
        simp only [List.forall_mem_cons, List.not_mem_nil, false_implies, implies_true, and_true]
        exact ⟨⟨htexts.1.2, hpic⟩, ⟨htexts.2.1.2, htop⟩, htexts.2.2.2, hbot⟩

structure ServedAfter (env : Env Db) (c : Server Db) (i : ℕ) (data : Text) (r : Reply) (before : List (ℕ × Event Ret))
    (own : List (Event Ret)) : Prop where
  trace : before ++ own.map (Prod.mk i) <+: c.trace
  started : eventsOf i before = [⟨.createHandler, ()⟩]
  all : eventsOf i c.trace = ⟨.createHandler, ()⟩ :: (own ++ finish env.order (parseRequestLine data).path r)

theorem ServedAfter.initial {c : Server Db} {i : ℕ} {data : Text} {r : Reply} {before : List (ℕ × Event Ret)}
    {own : List (Event Ret)} (h : ServedAfter env c i data r before own) : before <+: c.trace :=
  (List.prefix_append _ _).trans h.trace

theorem exists_servedAfter {data : Text} {n : ℕ} {change : Option StoredMeme} {db : Db} {c : Server Db}
    (h : Changes env params data n change) (hrun : Run env params db c) {i : ℕ} {r : Reply}
    (hthread : c.threads[i]? = some (data, .pure r)) :
    ∃ before own, ServedAfter env c i data r before own ∧ Performs n change own r.code := by
  obtain ⟨es, hrespond, hevents⟩ := handleRead_done ((Reachable.path hrun).1 i data _ hthread)
  obtain ⟨own, rfl, hperforms⟩ := h.performs hrespond
  have hshort : own.length ≤ 1 := by
    rcases hperforms with ⟨-, -, result, rfl, -⟩ | ⟨-, rfl, -⟩
    · exact Nat.le_refl 1
    · exact Nat.zero_le 1
  obtain ⟨before, hinitial, hstarted, hnext⟩ := exists_before hevents hshort
  refine ⟨before, own, ⟨?_, hstarted, hevents⟩, hperforms⟩
  rcases hperforms with ⟨-, -, result, rfl, -⟩ | ⟨-, rfl, -⟩
  · obtain ⟨after, htrace⟩ := hnext _ (List.mem_singleton_self _)
    exact ⟨after, by simp [htrace]⟩
  · simpa using hinitial

theorem ServedAfter.performs {data : Text} {n : ℕ} {change : Option StoredMeme} {db : Db} {c : Server Db}
    {before : List (ℕ × Event Ret)} {own : List (Event Ret)} {i : ℕ} {r : Reply}
    (hserved : ServedAfter env c i data r before own) (h : Changes env params data n change)
    (hrun : Run env params db c) (hthread : c.threads[i]? = some (data, .pure r)) : Performs n change own r.code := by
  obtain ⟨before', own', hserved', hperforms⟩ := exists_servedAfter h hrun hthread
  obtain ⟨-, hown⟩ := List.cons.inj (hserved.all.symm.trans hserved'.all)
  rwa [List.append_cancel_right hown]

end Bingit.Meme
