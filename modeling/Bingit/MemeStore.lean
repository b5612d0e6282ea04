import Bingit.Counters
import Bingit.MemeTable

namespace Bingit.Meme

open Text Sql Interleaving

/-- What the handler is there for. -/
structure Store where
  count : ℕ
  memes : ℕ → Option StoredMeme

inductive Command where
  | create (m : StoredMeme)
  | edit (n : ℕ) (m : StoredMeme)
  | delete (n : ℕ)
  | view (n : ℕ)
  | list (searchQuery : Text)

namespace Store

def empty : Store := ⟨0, fun _ => none⟩

def apply (s : Store) : Command → Store
  | .create m => ⟨s.count + 1, Function.update s.memes (s.count + 1) (some m)⟩
  | .edit n m => if s.memes n = none then s else { s with memes := Function.update s.memes n (some m) }
  | .delete n => { s with memes := Function.update s.memes n none }
  | .view _ => s
  | .list _ => s

def Bounded (s : Store) : Prop := ∀ n m, s.memes n = some m → 1 ≤ n ∧ n ≤ s.count

theorem bounded_empty : empty.Bounded := by
  intro n m h
  contradiction

theorem bounded_apply {s : Store} (h : s.Bounded) (c : Command) : (s.apply c).Bounded := by
  cases c with
  | create m =>
    intro n m' hn
    simp only [apply, Function.update_apply] at hn ⊢
    split at hn
    · omega
    · have hold := h n m' hn
      omega
  | edit n m =>
    rw [apply]
    split
    · exact h
    · next hsome =>
      intro k m' hk
      simp only [Function.update_apply] at hk
      split at hk
      · next hkn =>
        obtain ⟨old, hold⟩ := Option.ne_none_iff_exists'.mp hsome
        exact hkn ▸ h n old hold
      · exact h k m' hk
  | delete n =>
    intro k m' hk
    simp only [apply, Function.update_apply] at hk
    split at hk
    · contradiction
    · exact h k m' hk
  | view n => exact h
  | list searchQuery => exact h

theorem count_apply {s : Store} {c : Command} (h : ∀ m, c ≠ .create m) : (s.apply c).count = s.count := by
  cases c with
  | create m => exact absurd rfl (h m)
  | edit n m =>
    rw [apply]
    split <;> rfl
  | _ => rfl

end Store

def commandOf : Op → Option Command
  | .insertMeme picFile topText botText => some (.create ⟨picFile, topText, botText⟩)
  | .query (.update picFile topText botText uniqueId) =>
    (decodeNumber uniqueId).map (fun n => .edit n ⟨picFile, topText, botText⟩)
  | .query (.select memeId) => (decodeNumber memeId).map .view
  | .query .list => some (.list [])
  | .query (.search searchQuery) => some (.list searchQuery)
  | .query (.delete memeId) => (decodeNumber memeId).map .delete
  | _ => none

def Store.step (s : Store) (op : Op) : Store := (commandOf op).elim s s.apply

def GoodOp : Op → Prop
  | .insertMeme picFile topText botText => ∀ t ∈ [picFile, topText, botText], '\'' ∉ t ∧ nul ∉ t
  | .query (.insert _ _ _ _) => False
  | .query (.update picFile topText botText uniqueId) =>
    (∀ t ∈ [picFile, topText, botText], '\'' ∉ t ∧ nul ∉ t) ∧ ∃ n, uniqueId = decimal n
  | .query (.select memeId) => ∃ n, memeId = decimal n
  | .query .list => True
  | .query (.search searchQuery) => searchQuery ≠ [] ∧ '\'' ∉ searchQuery ∧ nul ∉ searchQuery
  | .query (.delete memeId) => ∃ n, memeId = decimal n
  | _ => True

def Answers (like : Text → Text → Bool) (s : Store) : (op : Op) → Ret op → Prop
  | .insertMeme _ _ _, answer => (answer : ℕ × ExecResult).1 = s.count + 1 ∧ (answer : ℕ × ExecResult).2.err = none
  | .query (.update _ _ _ _), result => (result : ExecResult).err = none
  | .query (.select memeId), result =>
    ∀ n, memeId = decimal n → result = (⟨(s.memes n).toList.map memeColumns, none⟩ : ExecResult)
  | .query .list, result =>
    ∃ rows, Lists rows s.memes (fun _ => true) ∧ result = (⟨rows.map listedColumns, none⟩ : ExecResult)
  | .query (.search searchQuery), result =>
    ∃ rows, Lists rows s.memes (StoredMeme.found like · searchQuery) ∧
      result = (⟨rows.map listedColumns, none⟩ : ExecResult)
  | .query (.delete _), result => (result : ExecResult).err = none
  | _, _ => True

theorem decimal_plain (n : ℕ) : '\'' ∉ decimal n ∧ nul ∉ decimal n :=
  ⟨notMem_decimal (by decide) n, notMem_decimal (by decide) n⟩

section Refinement

variable {Db : Type} {env : Env Db} {table : Db → ℕ → Option StoredMeme} {like : Text → Text → Bool}

def abstraction (table : Db → ℕ → Option StoredMeme) (s : Shared Db) : Store := ⟨s.memeCount, table s.db⟩

theorem tokens_of_harmless {q : Query} (hnul : ∀ t ∈ q.userTexts, nul ∉ t) (hq : q.Harmless) :
    tokens (cString q.sql) = q.statement := (Query.keepsUserText_iff hnul).mpr hq

theorem insertMeme_refines (hsql : Sqlite env.exec table like) {s : Shared Db} (hs : (abstraction table s).Bounded)
    (hroom : s.memeCount + 1 < 2 ^ 31) {picFile topText botText : Text}
    (hgood : ∀ t ∈ [picFile, topText, botText], '\'' ∉ t ∧ nul ∉ t) :
    abstraction table (execute env (.insertMeme picFile topText botText) s).1 =
      (abstraction table s).apply (.create ⟨picFile, topText, botText⟩) ∧
    Answers like (abstraction table s) (.insertMeme picFile topText botText)
      (execute env (.insertMeme picFile topText botText) s).2 := by
  have htokens := tokens_of_harmless (q := .insert (s.memeCount + 1) picFile topText botText)
    (fun t ht => (hgood t ht).2)
    ⟨(hgood picFile (by simp)).1, (hgood topText (by simp)).1, (hgood botText (by simp)).1⟩
  have hfresh : table s.db (s.memeCount + 1) = none := by
    by_contra hne
    obtain ⟨m, hm⟩ := Option.ne_none_iff_exists'.mp hne
    have hle := (hs (s.memeCount + 1) m hm).2
    exact Nat.not_succ_le_self s.memeCount hle
  obtain ⟨htable, herr⟩ := hsql.insert s.db _ _ ⟨picFile, topText, botText⟩ hroom htokens hfresh
  exact ⟨congrArg (Store.mk (s.memeCount + 1)) htable, rfl, herr⟩

theorem query_refines (hsql : Sqlite env.exec table like) (s : Shared Db) {q : Query} (hgood : GoodOp (.query q)) :
    abstraction table (execute env (.query q) s).1 = (abstraction table s).step (.query q) ∧
      Answers like (abstraction table s) (.query q) (execute env (.query q) s).2 := by
  cases q with
  | insert n picFile topText botText => exact absurd hgood id
  | update picFile topText botText uniqueId =>
    obtain ⟨htexts, n, rfl⟩ := hgood
    have hnul : ∀ t ∈ (Query.update picFile topText botText (decimal n)).userTexts, nul ∉ t := by
      simp only [Query.userTexts, List.forall_mem_cons] at htexts ⊢
      exact ⟨htexts.1.2, htexts.2.1.2, htexts.2.2.1.2, (decimal_plain n).2, by simp⟩
    have hharmless : (Query.update picFile topText botText (decimal n)).Harmless :=
      ⟨(htexts picFile (by simp)).1, (htexts topText (by simp)).1, (htexts botText (by simp)).1, isNumber_decimal n⟩
    obtain ⟨htable, herr⟩ :=
      hsql.update s.db _ n ⟨picFile, topText, botText⟩ (tokens_of_harmless hnul hharmless)
    refine ⟨(congrArg (Store.mk s.memeCount) htable).trans ?_, herr⟩
    simp only [Store.step, commandOf, decodeNumber_decimal, Option.map_some, Option.elim_some, Store.apply,
      abstraction]
    split <;> rfl
  | select memeId =>
    obtain ⟨n, rfl⟩ := hgood
    have htokens := tokens_of_harmless (q := .select (decimal n)) (by simp [Query.userTexts, decimal_plain])
      (decimal_plain n).1
    obtain ⟨htable, hresult⟩ := hsql.select s.db _ n htokens
    simp only [Store.step, commandOf, decodeNumber_decimal, Option.map_some, Option.elim_some]
    refine ⟨congrArg (Store.mk s.memeCount) htable, ?_⟩
    intro k hk
    obtain rfl := decimal_injective hk
    exact hresult
  | list =>
    have htokens := tokens_of_harmless (q := .list) (by simp [Query.userTexts]) trivial
    obtain ⟨htable, hresult⟩ := hsql.list s.db _ htokens
    exact ⟨congrArg (Store.mk s.memeCount) htable, hresult⟩
  | search searchQuery =>
    have htokens := tokens_of_harmless (q := .search searchQuery) (by simpa [Query.userTexts] using hgood.2.2)
      hgood.2.1
    obtain ⟨htable, hresult⟩ := hsql.search s.db _ searchQuery htokens
    exact ⟨congrArg (Store.mk s.memeCount) htable, hresult⟩
  | delete memeId =>
    obtain ⟨n, rfl⟩ := hgood
    have htokens := tokens_of_harmless (q := .delete (decimal n)) (by simp [Query.userTexts, decimal_plain])
      (decimal_plain n).1
    obtain ⟨htable, herr⟩ := hsql.delete s.db _ n htokens
    simp only [Store.step, commandOf, decodeNumber_decimal, Option.map_some, Option.elim_some]
    exact ⟨congrArg (Store.mk s.memeCount) htable, herr⟩

theorem execute_refines (hsql : Sqlite env.exec table like) {s : Shared Db} (hs : (abstraction table s).Bounded)
    {op : Op} (hroom : ((abstraction table s).step op).count < 2 ^ 31) (hgood : GoodOp op) :
    abstraction table (execute env op s).1 = (abstraction table s).step op ∧
      Answers like (abstraction table s) op (execute env op s).2 := by
  cases op with
  | insertMeme picFile topText botText => exact insertMeme_refines hsql hs hroom hgood
  | query q => exact query_refines hsql s hgood
  | _ => exact ⟨rfl, trivial⟩

def Store.run (s : Store) (es : List (Event Ret)) : Store := es.foldl (fun s e => s.step e.1) s

theorem Store.run_append (s : Store) (es fs : List (Event Ret)) : s.run (es ++ fs) = (s.run es).run fs :=
  List.foldl_append

theorem Store.bounded_step {s : Store} (h : s.Bounded) (op : Op) : (s.step op).Bounded := by
  rw [Store.step]
  cases commandOf op with
  | none => exact h
  | some c => exact Store.bounded_apply h c

def createdOf : Event Ret → Option ℕ
  | ⟨.insertMeme _ _ _, answer⟩ => some (answer : ℕ × ExecResult).1
  | _ => none

def created (es : List (Event Ret)) : List ℕ := es.filterMap createdOf

theorem created_cons (e : Event Ret) (es : List (Event Ret)) :
    created (e :: es) = (createdOf e).toList ++ created es := by
  cases h : createdOf e with
  | none => exact List.filterMap_cons_none h
  | some n => exact List.filterMap_cons_some h

theorem Store.count_step (s : Store) (e : Event Ret) :
    (s.step e.1).count = s.count + (createdOf e).toList.length := by
  obtain ⟨op, answer⟩ := e
  cases op with
  | insertMeme picFile topText botText => rfl
  | query q =>
    change ((commandOf (.query q)).elim s s.apply).count = s.count
    cases hcommand : commandOf (.query q) with
    | none => rfl
    | some c => exact Store.count_apply (by rintro m rfl; cases q <;> simp [commandOf] at hcommand)
  | _ => rfl

theorem Store.count_run (s : Store) (es : List (Event Ret)) : (s.run es).count = s.count + (created es).length := by
  induction es generalizing s with
  | nil => rfl
  | cons e es ih =>
    change ((s.step e.1).run es).count = _
    rw [ih, Store.count_step, created_cons, List.length_append, Nat.add_assoc]

structure Refines (like : Text → Text → Bool) (s t : Store) (es : List (Event Ret)) : Prop where
  run_eq : t = s.run es
  bounded : t.Bounded
  answers : ∀ before e after, es = before ++ e :: after → Answers like (s.run before) e.1 e.2
  increasing : (created es).Pairwise (· < ·)
  created_gt : ∀ n ∈ created es, s.count < n

theorem createdOf_spec {s : Store} {e : Event Ret} (hanswer : Answers like s e.1 e.2) :
    ∀ n ∈ (createdOf e).toList, n = s.count + 1 ∧ (s.step e.1).count = n := by
  intro n hn
  obtain ⟨op, answer⟩ := e
  cases op with
  | insertMeme picFile topText botText =>
    have hid : (answer : ℕ × ExecResult).1 = n := (List.mem_singleton.mp hn).symm
    have hcount : n = s.count + 1 := hid ▸ hanswer.1
    exact ⟨hcount, hcount.symm⟩
  | _ => contradiction

theorem Refines.cons {s t : Store} {e : Event Ret} {es : List (Event Ret)} (hanswer : Answers like s e.1 e.2)
    (htail : Refines like (s.step e.1) t es) : Refines like s t (e :: es) := by
  have hspec := createdOf_spec hanswer
  refine ⟨htail.run_eq, htail.bounded, ?_, ?_, ?_⟩
  · intro before f after hsplit
    cases before with
    | nil =>
      obtain ⟨rfl, -⟩ := List.cons.inj hsplit
      exact hanswer
    | cons b before =>
      obtain ⟨rfl, hes⟩ := List.cons.inj hsplit
      exact htail.answers before f after hes
  · rw [created_cons]
    apply List.pairwise_append.mpr
    refine ⟨?_, htail.increasing, ?_⟩
    · cases createdOf e <;> simp
    · intro n hn k hk
      have hgt := htail.created_gt k hk
      rwa [(hspec n hn).2] at hgt
  · intro k hk
    rw [created_cons] at hk
    rcases List.mem_append.mp hk with hk | hk
    · have hid := (hspec k hk).1
      omega
    · have hgt := htail.created_gt k hk
      rw [Store.count_step] at hgt
      omega

theorem replay_refines (hsql : Sqlite env.exec table like) {es : List (Event Ret)} {s : Shared Db}
    (hs : (abstraction table s).Bounded) (hfew : s.memeCount + (created es).length < 2 ^ 31)
    (hgood : ∀ e ∈ es, GoodOp e.1) (hanswered : Answered (execute env) s es) :
    Refines like (abstraction table s) (abstraction table (replay (execute env) s es)) es := by
  induction es generalizing s with
  | nil => exact ⟨rfl, hs, by simp, .nil, by simp [created]⟩
  | cons e es ih =>
    rw [List.forall_mem_cons] at hgood
    rw [created_cons, List.length_append] at hfew
    have hcount : ((abstraction table s).step e.1).count = s.memeCount + (createdOf e).toList.length :=
      Store.count_step (abstraction table s) e
    obtain ⟨hstep, hanswer⟩ := execute_refines hsql hs (by omega) hgood.1
    obtain ⟨heq, hrest⟩ := hanswered
    rw [← heq] at hanswer
    have hbounded : (abstraction table (execute env e.1 s).1).Bounded := by
      rw [hstep]
      exact Store.bounded_step hs e.1
    have hmemeCount : (execute env e.1 s).1.memeCount = ((abstraction table s).step e.1).count :=
      congrArg Store.count hstep
    have htail := ih hbounded (by omega) hgood.2 hrest
    rw [hstep] at htail
    exact htail.cons hanswer

theorem Store.count_le_run (s : Store) (es : List (Event Ret)) : s.count ≤ (s.run es).count := by
  rw [Store.count_run]
  exact Nat.le_add_right _ _

end Refinement

end Bingit.Meme
