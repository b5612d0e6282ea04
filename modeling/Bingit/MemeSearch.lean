import Bingit.CreateRequests
import Bingit.LikePattern
import Bingit.PageStructure

namespace Bingit.Meme

open Text Sql Html Interleaving MemeHandler

variable {Db : Type} {env : Env Db} {like : Text → Text → Bool} {character : Text → Prop} {reserved : Char → Bool}
  {h : MemeHandler} {table : Db → ℕ → Option StoredMeme} {q : Text}

def StoredMeme.Mentions (m : StoredMeme) (q : Text) : Prop := Contains q m.top ∨ Contains q m.bottom

instance (m : StoredMeme) (q : Text) : Decidable (m.Mentions q) := inferInstanceAs (Decidable (_ ∨ _))

def resultParts (rows : List (ℕ × StoredMeme)) (q : Text) (notice : Bool) : List Part :=
  .markup listHead :: ((rows.map listedRow).flatMap itemParts ++ .markup "</ul>".toList ::
    ((if notice then noticeParts q else []) ++ clearParts))

def ListsMentions (memes : ℕ → Option StoredMeme) (q : Text) (page : Page) : Prop :=
  ∃ rows notice, (rows.map Prod.fst).Nodup ∧ (∀ n m, (n, m) ∈ rows ↔ memes n = some m ∧ m.Mentions q) ∧
    (notice = true ↔ ∀ n m, memes n = some m → ¬ m.Mentions q) ∧
    page = .html 200 (pageText (resultParts rows q notice))

def searchPath (reserved : Char → Bool) (q : Text) : Text := "/meme/list?query=".toList ++ formEncode reserved q

def SearchesRight (env : Env Db) (table : Db → ℕ → Option StoredMeme) (reserved : Char → Bool) (h : MemeHandler)
    (q : Text) (s : Shared Db) : Prop :=
  ∃ page, Returns (execute env) s (h.prepareListRequest env (searchPath reserved q)) page ∧
    ListsMentions (table s.db) q page

def FindsMentions (character : Text → Prop) (memes : ℕ → Option StoredMeme) (q : Text) : Prop :=
  ∀ n m, memes n = some m →
    Like character ('%' :: (q ++ ['%'])) m.top ∨ Like character ('%' :: (q ++ ['%'])) m.bottom → m.Mentions q

theorem found_iff (hlike : ∀ p t, like p t = true ↔ Like character p t) (m : StoredMeme) (q : Text) :
    m.found like q = true ↔
      Like character ('%' :: (q ++ ['%'])) m.top ∨ Like character ('%' :: (q ++ ['%'])) m.bottom := by
  rw [StoredMeme.found, Bool.or_eq_true, hlike, hlike]

theorem found_of_mentions (hlike : ∀ p t, like p t = true ↔ Like character p t) (hcharacter : Characters character)
    {m : StoredMeme} (hm : m.Mentions q) : m.found like q = true :=
  (found_iff hlike m q).mpr (hm.imp (Like.of_contains hcharacter) (Like.of_contains hcharacter))

section Request

structure SearchInput (env : Env Db) (h : MemeHandler) (reserved : Char → Bool) (q : Text) : Prop where
  unescape : env.unescape = percentDecode
  location : h.location = "/meme".toList
  reserves : Reserves reserved
  bytes : IsByteText q
  ne_nil : q ≠ []
  noQuote : '\'' ∉ q
  fits : (formEncode reserved q).length < env.sizeofString

theorem searchQuery_of_scan {path : Text} {stored : List Text} (hlocation : h.location = "/meme".toList)
    (hscan : sscanf (formDirectives ["/meme/list?query=".toList]) (cString path) = some stored)
    (hfew : stored.length ≤ 1) (hfit : ∀ t ∈ stored, t.length + 1 ≤ env.sizeofString) :
    h.searchQuery env path = some (decodeField env (stored.getD 0 [])) := by
  have hformat : directives (cString (h.location ++ "/list".toList ++ "?query=%[^&]".toList)) =
      formDirectives ["/meme/list?query=".toList] := by
    rw [hlocation]
    repeat rw [String.toList_ofList]
    rfl
  rw [← hformat] at hscan
  rw [MemeHandler.searchQuery, scanField, scanFields_eq_of_sscanf env hscan, if_pos hfit]
  rcases stored with _ | ⟨field, _ | ⟨field', stored⟩⟩
  · rfl
  · rfl
  · simp at hfew

theorem sscanf_searchPath (hreserves : Reserves reserved) (hq : IsByteText q) :
    sscanf (formDirectives ["/meme/list?query=".toList]) (cString (searchPath reserved q)) =
      some (if q = [] then [] else [formEncode reserved q]) := by
  obtain ⟨hamp, hnul⟩ := notMem_formEncode hreserves hq
  have hpath : nul ∉ searchPath reserved q := by
    unfold searchPath
    rw [List.mem_append, not_or, String.toList_ofList]
    exact ⟨by decide, hnul⟩
  rw [cString_of_notMem hpath]
  unfold searchPath formDirectives
  rw [List.flatMap_singleton, sscanf_literals]
  split
  · next hempty =>
    subst hempty
    rfl
  · next hne => exact sscanf_field ((formEncode_eq_nil_iff reserved q).not.mpr hne) hamp

theorem searchQuery_searchPath (hunescape : env.unescape = percentDecode) (hlocation : h.location = "/meme".toList)
    (hreserves : Reserves reserved) (hq : IsByteText q) (hfit : (formEncode reserved q).length < env.sizeofString) :
    h.searchQuery env (searchPath reserved q) = some q := by
  rw [searchQuery_of_scan hlocation (sscanf_searchPath hreserves hq)]
  · split
    · next hempty =>
      subst hempty
      exact congrArg some (decodeField_nil hunescape)
    · exact congrArg some (decodeField_formEncode hreserves hunescape hq)
  · split <;> simp
  · split
    · simp
    · exact List.forall_mem_singleton.mpr hfit

theorem prepareListRequest_of_searchQuery {path : Text} (hquery : h.searchQuery env path = some q) :
    h.prepareListRequest env path = searchFor q := by
  rw [prepareListRequest, hquery]
  rfl

theorem listAnswer_listed (q : Text) (rows : List (ℕ × StoredMeme)) :
    listAnswer q ⟨rows.map listedColumns, none⟩ = .pure (.html 200 (listContent (rows.map listedRow) q)) := by
  rw [listAnswer, foldlM_listCallback, List.nil_append]
  rfl

theorem returns_searchFor (hsql : Sqlite env.exec table like) (s : Shared Db) (hquote : '\'' ∉ q) (hnul : nul ∉ q) :
    ∃ found, Lists found (table s.db) (fun m => q = [] || m.found like q) ∧
      ∀ page, Returns (execute env) s (searchFor q) page ↔ page = .html 200 (listContent (found.map listedRow) q) := by
  have hgood : GoodOp (.query (if q = [] then .list else .search q)) := by
    split
    · trivial
    · next hne => exact ⟨hne, hquote, hnul⟩
  obtain ⟨found, hlists, hresult⟩ := answers_listing (query_refines hsql s hgood).2
  refine ⟨found, hlists, fun page => ?_⟩
  rw [searchFor, returns_query_iff, hresult, listAnswer_listed]
  exact returns_pure_iff

theorem SearchInput.returns_iff (hinput : SearchInput env h reserved q) (hsql : Sqlite env.exec table like)
    (s : Shared Db) : ∃ rows, Lists rows (table s.db) (fun m => m.found like q) ∧
      ∀ page, Returns (execute env) s (h.prepareListRequest env (searchPath reserved q)) page ↔
        page = .html 200 (listContent (rows.map listedRow) q) := by
  have hquery : h.searchQuery env (searchPath reserved q) = some q :=
    searchQuery_searchPath hinput.unescape hinput.location hinput.reserves hinput.bytes hinput.fits
  have hreturns := returns_searchFor hsql s hinput.noQuote hinput.bytes.noNul
  simp only [hinput.ne_nil, decide_false, Bool.false_or] at hreturns
  rw [prepareListRequest_of_searchQuery hquery]
  exact hreturns

end Request

theorem listContent_eq_result (hne : q ≠ []) (rows : List (ℕ × StoredMeme)) :
    listContent (rows.map listedRow) q = pageText (resultParts rows q (decide (rows = []))) := by
  rw [listContent_eq, listParts, listTail, resultParts, if_pos hne]
  simp only [List.map_eq_nil_iff, decide_eq_true_eq]

theorem pageText_resultParts (rows : List (ℕ × StoredMeme)) (q : Text) (notice : Bool) :
    pageText (resultParts rows q notice) = listHead ++ ((rows.map listedRow).flatMap listItem ++
      ("</ul>".toList ++ pageText ((if notice then noticeParts q else []) ++ clearParts))) := by
  rw [resultParts, pageText_cons, pageText_append, pageText_items, pageText_cons]
  rfl

theorem listItem_eq_cons (row : MemeRow) : ∃ s, listItem row = '<' :: 'l' :: s := by
  unfold listItem
  rw [String.toList_ofList]
  exact ⟨_, rfl⟩

theorem listItem_length_pos (row : MemeRow) : 0 < (listItem row).length := by
  obtain ⟨s, hs⟩ := listItem_eq_cons row
  rw [hs]
  exact Nat.succ_pos _

theorem listItem_append_ne (row : MemeRow) (s t : Text) : listItem row ++ s ≠ "</ul>".toList ++ t := by
  obtain ⟨item, hitem⟩ := listItem_eq_cons row
  rw [hitem, String.toList_ofList]
  simp

theorem subset_of_resultParts_eq {rows shown : List (ℕ × StoredMeme)} {notice : Bool} (hnodup : shown.Nodup)
    (hsubset : shown ⊆ rows) (hnotice : notice = true ↔ shown = [])
    (h : pageText (resultParts rows q (decide (rows = []))) = pageText (resultParts shown q notice)) :
    rows ⊆ shown := by
  obtain ⟨shown', hshown, hsublist⟩ := List.subperm_of_subset hnodup hsubset
  obtain ⟨rest, hrest⟩ := hsublist.exists_perm_append
  have hperm : rows.Perm (shown ++ rest) := hrest.trans (hshown.append_right rest)
  cases rest with
  | nil =>
    rw [List.append_nil] at hperm
    exact hperm.subset
  | cons r rest =>
    exfalso
    have hrows : rows ≠ [] := by
      rintro rfl
      simpa using hperm.length_eq
    rw [pageText_resultParts, pageText_resultParts, List.append_cancel_left_eq, decide_eq_false hrows] at h
    cases shown with
    | nil =>
      cases rows with
      | nil => exact hrows rfl
      | cons r' rows =>
        rw [List.map_cons, List.flatMap_cons, List.append_assoc] at h
        exact listItem_append_ne _ _ _ h
    | cons r' shown =>
      have hfalse : notice = false := by simpa using hnotice
      rw [hfalse] at h
      have hitems := congrArg List.length (List.append_cancel_right h)
      have hlength := ((hperm.map listedRow).flatMap_right listItem).length_eq
      rw [List.map_append, List.flatMap_append, List.length_append] at hlength
      have hpos : 0 < (((r :: rest).map listedRow).flatMap listItem).length := by
        rw [List.map_cons, List.flatMap_cons, List.length_append]
        exact Nat.add_pos_left (listItem_length_pos _) _
      omega

theorem searchesRight_iff_findsMentions (hlike : ∀ p t, like p t = true ↔ Like character p t)
    (hcharacter : Characters character) (hsql : Sqlite env.exec table like) (hinput : SearchInput env h reserved q) (s : Shared Db) :
    SearchesRight env table reserved h q s ↔ FindsMentions character (table s.db) q := by
  obtain ⟨rows, hlists, hreturns⟩ := hinput.returns_iff hsql s
  constructor
  · rintro ⟨page, hpage, shown, notice, hnodup, hmem, hnotice, hcontent⟩
    rw [hreturns page, listContent_eq_result hinput.ne_nil] at hpage
    have hsubset : shown ⊆ rows := by
      rintro ⟨n, m⟩ hshown
      obtain ⟨hstored, hm⟩ := (hmem n m).mp hshown
      exact (hlists.mem_iff n m).mpr ⟨hstored, found_of_mentions hlike hcharacter hm⟩
    have hempty : (∀ n m, table s.db n = some m → ¬ m.Mentions q) ↔ shown = [] := by
      rw [List.eq_nil_iff_forall_not_mem, Prod.forall]
      simp only [hmem, not_and]
    have hback := subset_of_resultParts_eq (List.Nodup.of_map _ hnodup) hsubset (hnotice.trans hempty)
      (congrArg Page.content (hpage.symm.trans hcontent))
    intro n m hstored hfound
    exact ((hmem n m).mp (hback ((hlists.mem_iff n m).mpr ⟨hstored, (found_iff hlike m q).mpr hfound⟩))).2
  · intro hfinds
    have hmem (n : ℕ) (m : StoredMeme) : (n, m) ∈ rows ↔ table s.db n = some m ∧ m.Mentions q := by
      rw [hlists.mem_iff]
      refine and_congr_right fun hstored => ⟨?_, found_of_mentions hlike hcharacter⟩
      intro hfound
      exact hfinds n m hstored ((found_iff hlike m q).mp hfound)
    refine ⟨_, (hreturns _).mpr rfl, rows, decide (rows = []), hlists.nodup, hmem, ?_, ?_⟩
    · rw [decide_eq_true_eq, List.eq_nil_iff_forall_not_mem, Prod.forall]
      simp only [hmem, not_and]
    · rw [listContent_eq_result hinput.ne_nil]

theorem findsMentions_of_plain (hplain : ∀ c ∈ q, c ≠ '%' ∧ c ≠ '_') (memes : ℕ → Option StoredMeme) :
    FindsMentions character memes q := by
  intro n m _ hfound
  exact hfound.imp (Like.contains hplain) (Like.contains hplain)

theorem exists_stored (hsql : Sqlite env.exec table like) (db : Db) {m : StoredMeme}
    (hm : ∀ t ∈ [m.temp, m.top, m.bottom], '\'' ∉ t ∧ nul ∉ t) : ∃ db', table db' 1 = some m := by
  have hdelete := tokens_of_harmless (q := .delete (decimal 1)) (by simp [Query.userTexts, decimal_plain])
    (decimal_plain 1).1
  have hinsert := tokens_of_harmless (q := .insert 1 m.temp m.top m.bottom) (fun t ht => (hm t ht).2)
    ⟨(hm m.temp (by simp)).1, (hm m.top (by simp)).1, (hm m.bottom (by simp)).1⟩
  have hfree : table (env.exec db (cString (Query.delete (decimal 1)).sql)).1 1 = none := by
    rw [(hsql.delete db _ 1 hdelete).1, Function.update_self]
  refine ⟨_, congrFun (hsql.insert _ _ 1 m (by decide) hinsert hfree).1 1 |>.trans ?_⟩
  rw [Function.update_self]

theorem notMem_deceive {c : Char} (hc : c ≠ 'x') (hq : c ∉ q) : c ∉ deceive q := by
  intro hmem
  obtain ⟨d, hd, rfl⟩ := List.mem_map.mp hmem
  rw [replaceWildcard] at hc hq
  split at hc
  · exact hc rfl
  · next hplain =>
    rw [if_neg hplain] at hq
    exact hq hd

theorem searchesRight_iff [Nonempty Db] (hlike : ∀ p t, like p t = true ↔ Like character p t)
    (hcharacter : Characters character) (hsql : Sqlite env.exec table like) (hinput : SearchInput env h reserved q) :
    (∀ s, SearchesRight env table reserved h q s ↔ FindsMentions character (table s.db) q) ∧
    ((∀ s, SearchesRight env table reserved h q s) ↔ ∀ c ∈ q, c ≠ '%' ∧ c ≠ '_') := by
  have hiff := searchesRight_iff_findsMentions hlike hcharacter hsql hinput
  refine ⟨hiff, ?_⟩
  constructor
  · intro hall
    by_contra hwild
    simp only [not_forall, not_and_or, not_not] at hwild
    obtain ⟨c, hc, hwild⟩ := hwild
    obtain ⟨db⟩ := ‹Nonempty Db›
    have hquote : '\'' ∉ deceive q := notMem_deceive (by decide) hinput.noQuote
    have hnul : nul ∉ deceive q := notMem_deceive (by decide) hinput.bytes.noNul
    obtain ⟨db', hstored⟩ := exists_stored hsql db (m := ⟨[], deceive q, deceive q⟩) (by simp [hquote, hnul])
    have hfound : Like character ('%' :: (q ++ ['%'])) (deceive q) := by
      have hend : Like character (q ++ ['%']) (deceive q ++ []) := (like_deceive hcharacter q).append (.any [] .nil)
      rw [List.append_nil] at hend
      exact .any [] hend
    have hmentions := (hiff (.initial db')).mp (hall _) 1 _ hstored (.inl hfound)
    exact not_contains_deceive hc hwild (or_self_iff.mp hmentions)
  · intro hplain s
    exact (hiff s).mpr (findsMentions_of_plain hplain _)

theorem single_cons_iff {c : Char} {p t : Text} (hpercent : c ≠ '%') :
    Like (fun s => ∃ c, s = [c]) (c :: p) t ↔
      ∃ d t', t = d :: t' ∧ (c = '_' ∨ c.toLower = d.toLower) ∧ Like (fun s => ∃ c, s = [c]) p t' := by
  constructor
  · intro hlike
    cases hlike with
    | any s hlike => exact absurd rfl hpercent
    | one hs hlike =>
      obtain ⟨d, rfl⟩ := hs
      exact ⟨d, _, rfl, .inl rfl, hlike⟩
    | char hplain hcase hlike => exact ⟨_, _, rfl, .inr hcase, hlike⟩
  · rintro ⟨d, t', rfl, hcase, hlike⟩
    by_cases hunder : c = '_'
    · subst hunder
      exact .one (s := [d]) ⟨d, rfl⟩ hlike
    · exact .char ⟨hpercent, hunder⟩ (hcase.resolve_left hunder) hlike

theorem reference_like_iff (p t : Text) : Reference.like p t = true ↔ Like (fun s => ∃ c, s = [c]) p t := by
  induction p generalizing t with
  | nil =>
    cases t with
    | nil => exact iff_of_true rfl .nil
    | cons d t =>
      refine iff_of_false Bool.false_ne_true ?_
      intro hlike
      cases hlike
  | cons c p ih =>
    unfold Reference.like
    split
    · next hpercent =>
      subst hpercent
      rw [Like.any_iff, List.any_eq_true]
      constructor
      · rintro ⟨t', ht', hlike⟩
        obtain ⟨s, rfl⟩ := (List.mem_tails t' t).mp ht'
        exact ⟨s, t', rfl, (ih t').mp hlike⟩
      · rintro ⟨s, t', rfl, hlike⟩
        exact ⟨t', (List.mem_tails _ _).mpr (List.suffix_append _ _), (ih t').mpr hlike⟩
    · next hpercent =>
      rw [single_cons_iff hpercent]
      cases t with
      | nil => simp
      | cons d t =>
        simp only [Bool.and_eq_true, Bool.or_eq_true, decide_eq_true_eq, ih]
        constructor
        · rintro ⟨hcase, hlike⟩
          exact ⟨d, t, rfl, hcase, hlike⟩
        · rintro ⟨d', t', ht, hcase, hlike⟩
          obtain ⟨rfl, rfl⟩ := List.cons.inj ht
          exact ⟨hcase, hlike⟩

def memeHandler : MemeHandler := ⟨"./meme".toList, "/meme".toList, "/view".toList⟩

def stored (top : Text) : Shared Reference.Table :=
  .initial ((∅ : Reference.Table).insert 1 ⟨"cat.jpg".toList, top, "me".toList⟩)

theorem searchInput_plain {q : Text} (hbytes : q.all (fun c => decide (c.toNat < 256 ∧ c ≠ nul)) = true) (hne : q ≠ [])
    (hquote : '\'' ∉ q) (hfit : (formEncode plainReserved q).length < 32) :
    SearchInput (.standalone Reference.exec) memeHandler plainReserved q :=
  ⟨rfl, rfl, ⟨rfl, rfl, rfl, rfl⟩, isByteText_of_all hbytes, hne, hquote, hfit⟩

theorem characters_single : Characters (fun s => ∃ c, s = [c]) := ⟨fun c _ => ⟨c, rfl⟩⟩

theorem searchesRight_cat :
    SearchesRight (.standalone Reference.exec) (fun db n => db[n]?) plainReserved memeHandler "cat".toList
      (stored "My Cats".toList) := by
  have hinput := searchInput_plain (q := "cat".toList) rfl (by decide) (by decide) (by decide)
  exact ((searchesRight_iff reference_like_iff characters_single Reference.sqlite hinput).2.mpr
    (List.forall_iff_forall_mem.mp (by decide))) _

theorem percent_lists_all :
    SearchInput (.standalone Reference.exec) memeHandler plainReserved "%".toList ∧
      ¬ SearchesRight (.standalone Reference.exec) (fun db n => db[n]?) plainReserved memeHandler "%".toList
        (stored "hi".toList) := by
  have hinput := searchInput_plain (q := "%".toList) rfl (by decide) (by decide) (by decide)
  refine ⟨hinput, ?_⟩
  intro hright
  have hfinds :=
    (searchesRight_iff_findsMentions reference_like_iff characters_single Reference.sqlite hinput _).mp hright
  have hrow : ((∅ : Reference.Table).insert 1 ⟨"cat.jpg".toList, "hi".toList, "me".toList⟩)[1]? =
      some ⟨"cat.jpg".toList, "hi".toList, "me".toList⟩ := Std.TreeMap.getElem?_insert_self
  have hfound := (reference_like_iff ('%' :: ("%".toList ++ ['%'])) "hi".toList).mp (by decide)
  exact absurd (hfinds 1 _ hrow (.inl hfound)) (by decide)

end Bingit.Meme
