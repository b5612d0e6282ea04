import Bingit.EditTemplate
import Bingit.MemeRefinement
import Bingit.ReplacementOrder

namespace Bingit.MemeHandler

open Text Interleaving Meme Placeholders

namespace Placeholder

def value (row : MemeRow) (memeId : Text) : Placeholder → Text
  | .top => row.top
  | .bot => row.bottom
  | .id => memeId

end Placeholder

open Placeholder

def placeholders : List Placeholder := [.top, .bot, .id]

theorem mem_placeholders (k : Placeholder) : k ∈ placeholders := by
  cases k <;> decide

theorem three_placeholders : Three Placeholder.top Placeholder.bot Placeholder.id :=
  ⟨by decide, by decide, by decide, fun k => by cases k <;> simp⟩

theorem editContent_eq_replaceEach (template : Text) (row : MemeRow) (memeId : Text) :
    editContent template row memeId = replaceEach mark (value row memeId) placeholders template := rfl

section Request

variable {Db : Type} {env : Env Db} {s : Shared Db} {path memeId template : Text} {row : MemeRow}

structure SelectsRow (env : Env Db) (s : Shared Db) (memeId : Text) (row : MemeRow) : Prop where
  err : (execute env (.query (.select memeId)) s).2.err = none
  rows : (execute env (.query (.select memeId)) s).2.rows.foldlM viewCallback {} = some row
  found : row.dataFound = true

theorem SelectsRow.returns_iff (hrow : SelectsRow env s memeId row) (page : Page) :
    Returns (execute env) s (prepareEditRequest env path memeId) page ↔ page = editPage env path row memeId := by
  have hrest (result : ExecResult) (herr : result.err = none) (hrows : result.rows.foldlM viewCallback {} = some row) :
      (Prog.ofOption .thrown (result.rows.foldlM viewCallback {}) >>= fun row =>
        if result.err ≠ none ∨ row.dataFound = false then (Prog.pure (memeNotFound memeId) : Action Page)
        else Prog.pure (editPage env path row memeId)) = Prog.pure (editPage env path row memeId) := by
    rw [hrows]
    exact if_neg (by simp [herr, hrow.found])
  exact returns_query_iff.trans ((iff_of_eq (congrArg (Returns (execute env) _ · page)
    (hrest _ hrow.err hrow.rows))).trans returns_pure_iff)

def EditSubstitutes (env : Env Db) (s : Shared Db) (path memeId template : Text) (row : MemeRow) : Prop :=
  ∃ page, Returns (execute env) s (prepareEditRequest env path memeId) page ∧
    page = .html 200 (substitute mark placeholders (value row memeId) template) ∧
    ∀ order : List Placeholder, order.Nodup → (∀ k, k ∈ order) →
      replaceEach mark (value row memeId) order template = page.content

theorem editSubstitutes_iff_anyOrder (hrow : SelectsRow env s memeId row)
    (htemplate : env.readFile (path ++ "/edit.html".toList) = some template) :
    EditSubstitutes env s path memeId template row ↔ AnyOrder mark (value row memeId) placeholders template := by
  have hpage : editPage env path row memeId = .html 200 (editContent template row memeId) := by
    rw [editPage, htemplate]
  constructor
  · rintro ⟨page, -, rfl, horder⟩
    exact horder
  · intro hany
    have hcontent := hany placeholders (by decide) mem_placeholders
    rw [← editContent_eq_replaceEach] at hcontent
    refine ⟨_, (hrow.returns_iff _).mpr rfl, ?_, ?_⟩
    · rw [hpage, hcontent]
    · intro order hnodup hmem
      rw [hpage, hany order hnodup hmem, ← hcontent]
      rfl

theorem editSubstitutes_iff (hrow : SelectsRow env s memeId row)
    (htemplate : env.readFile (path ++ "/edit.html".toList) = some template) :
    EditSubstitutes env s path memeId template row ↔
      ∀ k : Placeholder, value row memeId k = k.mark ∨
        occurrences k.mark (substitute mark placeholders (Function.update (value row memeId) k k.mark) template) =
          occurrences k.mark template := by
  rw [editSubstitutes_iff_anyOrder hrow htemplate, anyOrder_iff markers mem_placeholders three_placeholders]
  exact forall_congr' fun k => safe_iff markers mem_placeholders k template

theorem selectsRow_of_stored {table : Db → ℕ → Option StoredMeme} {like : Text → Text → Bool}
    (hsql : Sqlite env.exec table like) {n : ℕ} {m : StoredMeme} (hm : table s.db n = some m) :
    SelectsRow env s (decimal n) m.row := by
  have hresult := (query_refines hsql s (q := .select (decimal n)) ⟨n, rfl⟩).2 n rfl
  have hmemes : (abstraction table s).memes n = some m := hm
  rw [hmemes] at hresult
  refine ⟨?_, ?_, rfl⟩
  · rw [hresult]
  · rw [hresult]
    exact foldlM_viewCallback (some m)

def editEnv (template : Text) : Env Reference.Table :=
  { Env.standalone Reference.exec with readFile := fun _ => some template }

def edited (top : Text) : Shared Reference.Table :=
  .initial ((∅ : Reference.Table).insert 1 ⟨"cat.jpg".toList, top, "me".toList⟩)

def storedRow (top : Text) : MemeRow := StoredMeme.row ⟨"cat.jpg".toList, top, "me".toList⟩

theorem selectsRow_edited (template top : Text) :
    SelectsRow (editEnv template) (edited top) (decimal 1) (storedRow top) :=
  selectsRow_of_stored Reference.sqlite Std.TreeMap.getElem?_insert_self

theorem editSubstitutes_plain :
    EditSubstitutes (editEnv "$meme.id: $meme.top, $meme.bot".toList) (edited "hi".toList) "./meme".toList (decimal 1)
      "$meme.id: $meme.top, $meme.bot".toList (storedRow "hi".toList) := by
  refine (editSubstitutes_iff (selectsRow_edited _ _) rfl).mpr fun k => .inr ?_
  rw [String.toList_ofList]
  cases k <;> decide +kernel

theorem editTemplate_rewritten :
    editContent editTemplate (storedRow "$meme.bot".toList) (decimal 1) ≠
      substitute mark placeholders (value (storedRow "$meme.bot".toList) (decimal 1)) editTemplate := by
  unfold editTemplate editHead editMiddle editAfterTop editAfterBottom editTail
  repeat rw [String.toList_ofList]
  decide +kernel

theorem top_text_rewritten :
    SelectsRow (editEnv editTemplate) (edited "$meme.bot".toList) (decimal 1) (storedRow "$meme.bot".toList) ∧
      (∃ content, Returns (execute (editEnv editTemplate)) (edited "$meme.bot".toList)
          (prepareEditRequest (editEnv editTemplate) "./meme".toList (decimal 1)) (.html 200 content) ∧
        content ≠ substitute mark placeholders (value (storedRow "$meme.bot".toList) (decimal 1)) editTemplate) ∧
      ¬ EditSubstitutes (editEnv editTemplate) (edited "$meme.bot".toList) "./meme".toList (decimal 1) editTemplate
        (storedRow "$meme.bot".toList) := by
  have hrow := selectsRow_edited editTemplate "$meme.bot".toList
  refine ⟨hrow, ⟨_, (hrow.returns_iff _).mpr rfl, editTemplate_rewritten⟩, ?_⟩
  rintro ⟨page, hpage, hcontent, -⟩
  rw [(hrow.returns_iff page).mp hpage] at hcontent
  exact editTemplate_rewritten (congrArg Page.content hcontent)

end Request

end Bingit.MemeHandler
