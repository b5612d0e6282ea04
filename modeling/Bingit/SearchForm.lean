import Bingit.MemeForms
import Bingit.MemeSearch

namespace Bingit.MemeHandler

open Text Interleaving Html Meme

section ListPage

variable {inText inValue : References} {rows : List MemeRow} {q : Text} {user : User}

def searchControls : List Control :=
  [.form [] "get".toList, .input "text".toList "query".toList [], .input "submit".toList [] "Search".toList]

def linkTag (address : Text) : Element := ⟨false, "a".toList, [("href".toList, address)]⟩

theorem list_events :
    FormState.initial.scan (run .data listHead).2 = (.initial, searchControls) ∧
      FormState.initial.scan (run .data "<li><a href=/meme/view?id=".toList).2 =
        (⟨some (linkTag "/meme/view?id=".toList), none, none⟩, []) ∧
      FormState.initial.scan (run .data itemTail).2 = (.initial, []) ∧
      FormState.initial.scan (run .data "</ul>".toList).2 = (.initial, []) ∧
      FormState.initial.scan (run .data "<div>".toList).2 = (.initial, []) ∧
      FormState.initial.scan (run .data "</div>".toList).2 = (.initial, []) ∧
      (run .data "<a href=\"/meme/list\">Clear search</a>".toList).1 = .data ∧
      FormState.initial.scan (run .data "<a href=\"/meme/list\">Clear search</a>".toList).2 = (.initial, []) := by
  unfold listHead searchControls linkTag itemTail
  repeat rw [String.toList_ofList]
  decide +kernel

theorem feed_linkTag (address : Text) :
    (FormState.mk (some (linkTag address)) none none).feed .closeTag = (.initial, []) := by
  unfold linkTag
  repeat rw [String.toList_ofList]
  rfl

theorem decimal_unquoted (n : ℕ) : ∀ c ∈ decimal n, isBlank c = false ∧ c ≠ '>' := by
  intro c hc
  have hdigit := isDigit_of_mem_decimal hc
  have hne {d : Char} (hd : d.isDigit = false) : c ≠ d := ne_of_mem_of_not_mem hc (notMem_decimal hd n)
  refine ⟨?_, hne (by decide)⟩
  by_contra hblank
  simp only [isBlank, Bool.not_eq_false, Bool.or_eq_true, decide_eq_true_eq] at hblank
  rcases hblank with (((rfl | rfl) | rfl) | rfl) | rfl <;> contradiction

theorem yields_itemHead (n : ℕ) : Yields [.markup (itemHead (decimal n))] [] := by
  have hrun : run .data (itemHead (decimal n)) = (.data, (run .data "<li><a href=/meme/view?id=".toList).2 ++
      ((decimal n).map Event.value ++ [.closeTag])) :=
    run_unquoted_close list_markup.2.2.2.2.2.1 (decimal_unquoted n)
  have hvalue : (linkTag "/meme/view?id=".toList).addValue (decimal n) =
      linkTag ("/meme/view?id=".toList ++ decimal n) := rfl
  apply yields_markup
  · rw [hrun]
  · rw [hrun, scan_append, list_events.2.1, scan_append, scan_value, Option.map_some, hvalue, FormState.scan,
      FormState.scan, feed_linkTag]
    rfl

theorem yields_items (hids : Numbered rows) : Yields (rows.flatMap itemParts) [] := by
  induction rows with
  | nil => exact yields_nil
  | cons row rows ih =>
    obtain ⟨⟨n, hn⟩, hrest⟩ := List.forall_mem_cons.mp hids
    have htail : Yields [.markup itemTail] [] := yields_markup list_markup.2.1.1 list_events.2.2.1
    have hitem : Yields (itemParts row) [] := by
      rw [itemParts, hn]
      exact (yields_itemHead n).append ((yields_text _).append htail)
    exact hitem.append (ih hrest)

theorem yields_listTail (rows : List MemeRow) (q : Text) : Yields (listTail rows q) [] := by
  obtain ⟨-, -, -, -, hopen, hclose, hclear, hclearScan⟩ := list_events
  have hnotice : Yields (if rows = [] then noticeParts q else []) [] := by
    split
    · exact (yields_markup list_markup.2.2.2.1.1 hopen).append
        ((yields_text _).append (yields_markup list_markup.2.2.2.2.1.1 hclose))
    · exact yields_nil
  refine hnotice.append ?_
  split
  · exact yields_markup hclear hclearScan
  · exact yields_nil

theorem controls_listContent (hids : Numbered rows) (hitems : ∀ row ∈ rows, PlainItem inText row)
    (hquery : rows = [] → PlainText inText q) : controls (listContent rows q) = searchControls := by
  have hhead : Yields [.markup listHead] searchControls := yields_markup list_markup.1.1 list_events.1
  have hlist : Yields [.markup "</ul>".toList] [] := yields_markup list_markup.2.2.1.1 list_events.2.2.2.1
  rw [listContent_eq]
  exact controls_pageText (reads_list hids hitems hquery)
    (hhead.append ((yields_items hids).append (hlist.append (yields_listTail rows q))))

theorem submission_listContent (hids : Numbered rows) (hitems : ∀ row ∈ rows, PlainItem inText row)
    (hquery : rows = [] → PlainText inText q) :
    submission inText inValue user (listContent rows q) = [("query".toList, typedText user "query".toList [])] := by
  have hbutton := (@entry_inputs inText inValue user ['b'] "Search".toList (by decide)).2.2
  have hword := (@entry_inputs inText inValue user "query".toList [] (by decide)).1
  have hform : Control.entry inText inValue user (.form [] "get".toList) = none := rfl
  rw [submission, controls_listContent hids hitems hquery, searchControls]
  simp only [List.filterMap_cons, List.filterMap_nil, hform, hword, hbutton]
  rfl

theorem target_listContent (hids : Numbered rows) (hitems : ∀ row ∈ rows, PlainItem inText row)
    (hquery : rows = [] → PlainText inText q) : target (listContent rows q) = some ([], "GET".toList) := by
  have hform : Control.target (.form [] "get".toList) = some ([], "GET".toList) := by
    have hmethod : "get".toList.map Char.toUpper = "GET".toList := by decide
    rw [Control.target, hmethod]
  rw [target, controls_listContent hids hitems hquery, searchControls, List.findSome?_cons, hform]

end ListPage

section Search

variable {Db : Type} {env : Env Db} {reserved : Char → Bool} {h : MemeHandler} {w base : Text}

theorem eq_of_query {a b r r' : Text} (ha : '?' ∉ a) (hb : '?' ∉ b) (h : a ++ '?' :: r = b ++ '?' :: r') : a = b := by
  have hstop {r : Text} : ∀ c ∈ ('?' :: r).head?, c = '?' := by
    rintro c ⟨⟩
    rfl
  rw [← (takeWhile_dropWhile_ne ha hstop).1, h, (takeWhile_dropWhile_ne hb hstop).1]

theorem search_directives :
    formDirectives ["/meme/list?query=".toList] = "/meme/list?query=".toList.map .literal ++ [.field] := by
  rw [formDirectives, List.flatMap_singleton]

/-- Below `/meme/list` some addresses show the list without a query. -/
def searchWord (address w : Text) : Text := if address.takeWhile (· ≠ '?') = "/meme/list".toList then w else []

theorem notMem_searchWord {c : Char} (hw : c ∉ w) (address : Text) : c ∉ searchWord address w := by
  unfold searchWord
  split
  · exact hw
  · exact List.not_mem_nil

theorem searchQuery_submitted (hencoding : PlainEncoding reserved) (hunescape : env.unescape = percentDecode)
    (hlocation : h.location = "/meme".toList) (hw : IsByteText w)
    (hfit : (formEncode reserved w).length < env.sizeofString) (hbase : '?' ∉ base) :
    h.searchQuery env (base ++ '?' :: ("query=".toList ++ formEncode reserved w)) =
      some (if base = "/meme/list".toList then w else []) := by
  have hformat : "/meme/list?query=".toList = "/meme/list".toList ++ '?' :: "query=".toList := by
    repeat rw [String.toList_ofList]
    rfl
  by_cases hlist : base = "/meme/list".toList
  · have hpath : base ++ '?' :: ("query=".toList ++ formEncode reserved w) = searchPath reserved w := by
      unfold searchPath
      rw [hlist, hformat, List.append_assoc, List.cons_append]
    rw [if_pos hlist, hpath]
    exact searchQuery_searchPath hunescape hlocation hencoding.reserves hw hfit
  · have hscan : sscanf (formDirectives ["/meme/list?query=".toList])
        (cString (base ++ '?' :: ("query=".toList ++ formEncode reserved w))) = some [] := by
      rw [search_directives]
      rcases sscanf_literals_cases "/meme/list?query=".toList [.field]
        (cString (base ++ '?' :: ("query=".toList ++ formEncode reserved w))) with ⟨rest, hrest, -⟩ | ⟨-, hscan⟩
      · obtain ⟨after, hafter⟩ := List.takeWhile_prefix (p := (· ≠ nul))
          (l := base ++ '?' :: ("query=".toList ++ formEncode reserved w))
        change cString _ ++ after = _ at hafter
        rw [hrest, hformat, List.append_assoc, List.append_assoc, List.cons_append] at hafter
        exact absurd (eq_of_query (by decide) hbase hafter).symm hlist
      · exact hscan
    rw [if_neg hlist, searchQuery_of_scan hlocation hscan (Nat.zero_le 1) (by simp)]
    exact congrArg some (decodeField_nil hunescape)

theorem route_list (hlocation : h.location = "/meme".toList) (hview : h.viewPath = "/view".toList) (rest : Text) :
    h.route ("/meme/list".toList ++ rest) = .list := by
  unfold MemeHandler.route
  simp only [find_eq_zero_iff, view_eq hlocation hview]
  repeat rw [String.toList_ofList]
  rw [if_neg (append_ne (by decide) _), if_neg (not_prefix_append (by decide) (by decide) _),
    if_neg (append_ne (by decide) _), if_neg (not_prefix_append (by decide) (by decide) _),
    if_pos (List.prefix_append _ _)]

theorem servePage_list (hlocation : h.location = "/meme".toList) (hview : h.viewPath = "/view".toList)
    {request : Request} (hpath : "/meme/list".toList <+: request.path) :
    h.servePage env request = h.prepareListRequest env request.path := by
  have hmeme : h.location <+: "/meme/list".toList := by
    rw [hlocation]
    repeat rw [String.toList_ofList]
    decide
  obtain ⟨rest, hrest⟩ := hpath
  have hmatch : ¬ h.LocationMismatch request.path := by
    rw [← hrest]
    exact Session.meme_not_mismatch (hmeme.trans (List.prefix_append _ _))
  have hroute : h.route request.path = .list := by
    rw [← hrest]
    exact route_list hlocation hview rest
  rw [servePage, if_neg hmatch, hroute]

theorem encodeEntries_query (hencoding : PlainEncoding reserved) (w : Text) :
    encodeEntries reserved [("query".toList, w)] = "query=".toList ++ formEncode reserved w := by
  have hname : formEncode reserved "query".toList = "query".toList := by
    rw [String.toList_ofList]
    exact formEncode_of_alphanum hencoding rfl
  rw [encodeEntries, List.map_singleton, hname]
  repeat rw [String.toList_ofList]
  simp [List.intercalate]

variable {inText inValue : References} {rows : List MemeRow} {q : Text} {user : User}

theorem submitted_search (hencoding : PlainEncoding reserved) (hunescape : env.unescape = percentDecode)
    (hlocation : h.location = "/meme".toList) (hview : h.viewPath = "/view".toList) (hids : Numbered rows)
    (hitems : ∀ row ∈ rows, PlainItem inText row) (hquery : rows = [] → PlainText inText q) {address : Text}
    (haddress : "/meme/list".toList <+: address) {request : Request}
    (hsubmits : Submits reserved inText inValue user address (listContent rows q) request)
    (hfits : FitsArrays env reserved (submission inText inValue user (listContent rows q)))
    {like : Text → Text → Bool} {table : Db → ℕ → Option StoredMeme} (hsql : Sqlite env.exec table like)
    (hquote : '\'' ∉ typedText user "query".toList []) (s : Shared Db) :
    request.method = "GET".toList ∧
      ∃ found, Lists found (table s.db) (fun m => searchWord address (typedText user "query".toList []) = [] ||
          m.found like (searchWord address (typedText user "query".toList []))) ∧
        ∀ page, Returns (execute env) s (h.servePage env request) page ↔
          page = .html 200
            (listContent (found.map listedRow) (searchWord address (typedText user "query".toList []))) := by
  have hentries := @submission_listContent inText inValue _ _ user hids hitems hquery
  obtain ⟨hmethod, hpath⟩ := hsubmits.get_inv (target_listContent hids hitems hquery)
  rw [if_pos rfl, hentries, encodeEntries_query hencoding] at hpath
  rw [hentries] at hfits
  have hbytes := hfits.bytes _ (List.mem_singleton_self _)
  have hmark : '?' ∉ address.takeWhile (· ≠ '?') := by
    intro hmem
    have hne := List.mem_takeWhile_imp hmem
    simp at hne
  have hlist : "/meme/list".toList <+: request.path := by
    obtain ⟨rest, rfl⟩ := haddress
    have hplain : ∀ c ∈ "/meme/list".toList, decide (c ≠ '?') = true := by
      rw [String.toList_ofList]
      exact List.all_eq_true.mp rfl
    rw [hpath, List.takeWhile_append_of_pos hplain, List.append_assoc]
    exact List.prefix_append _ _
  have hword : h.searchQuery env request.path = some (searchWord address (typedText user "query".toList [])) := by
    rw [hpath]
    exact searchQuery_submitted hencoding hunescape hlocation hbytes (hfits.length _ (List.mem_singleton_self _)) hmark
  rw [servePage_list hlocation hview hlist, prepareListRequest_of_searchQuery hword]
  exact ⟨hmethod, returns_searchFor hsql s (notMem_searchWord hquote address) (notMem_searchWord hbytes.noNul address)⟩

end Search

def searchingUser : User := ⟨fun _ => some "cat".toList, fun _ => none⟩

def searchRequest : Request :=
  ⟨"GET".toList, "/meme/list?query=cat".toList, "HTTP/1.1".toList, .empty, [], [], true⟩

def catRow : MemeRow := listedRow (1, ⟨"cat.jpg".toList, "My Cats".toList, "me".toList⟩)

theorem submitted_search_cat :
    ∃ found, Lists found (fun n => (stored "My Cats".toList).db[n]?) (fun m => m.found Reference.like "cat".toList) ∧
      Returns (execute (.standalone Reference.exec)) (stored "My Cats".toList)
        (memeHandler.servePage (.standalone Reference.exec) searchRequest)
        (.html 200 (listContent (found.map listedRow) "cat".toList)) := by
  have hids : Numbered [catRow] := List.forall_mem_singleton.mpr ⟨1, rfl⟩
  have hitems : ∀ row ∈ [catRow], PlainItem (fun _ => none) row :=
    List.forall_mem_singleton.mpr ⟨plainText_of_notMem (by decide), plainText_of_notMem (by decide)⟩
  have hquery : [catRow] = [] → PlainText (fun _ => none) [] := nofun
  have hword : typedText searchingUser "query".toList [] = "cat".toList := by
    unfold searchingUser
    repeat rw [String.toList_ofList]
    decide
  have hentries : submission (fun _ => none) (fun _ => none) searchingUser (listContent [catRow] []) =
      [("query".toList, "cat".toList)] := by
    rw [submission_listContent hids hitems hquery, hword]
  have hsubmits : Submits plainReserved (fun _ => none) (fun _ => none) searchingUser "/meme/list".toList
      (listContent [catRow] []) searchRequest := by
    refine .get _ (target_listContent hids hitems hquery) rfl ?_ rfl
    rw [hentries, encodeEntries_query plainEncoding_plainReserved, if_pos rfl]
    unfold searchRequest
    repeat rw [String.toList_ofList]
    decide +kernel
  have hfits : FitsArrays (.standalone Reference.exec) plainReserved
      (submission (fun _ => none) (fun _ => none) searchingUser (listContent [catRow] [])) := by
    rw [hentries]
    constructor
    · exact List.forall_mem_singleton.mpr (isByteText_of_all (by decide +kernel))
    · exact List.forall_mem_singleton.mpr (by decide +kernel)
  have hquote : '\'' ∉ typedText searchingUser "query".toList [] := by
    rw [hword, String.toList_ofList]
    decide
  obtain ⟨-, found, hlists, hreturns⟩ := @submitted_search Reference.Table (.standalone Reference.exec) plainReserved
    memeHandler _ _ [catRow] [] searchingUser plainEncoding_plainReserved rfl rfl rfl hids hitems hquery _
    (List.prefix_refl _) searchRequest hsubmits hfits _ _ Reference.sqlite hquote (stored "My Cats".toList)
  have hsame : searchWord "/meme/list".toList (typedText searchingUser "query".toList []) = "cat".toList := by
    rw [hword, searchWord, if_pos (by decide)]
  rw [hsame] at hlists hreturns
  exact ⟨found, hlists, (hreturns _).mpr rfl⟩

end Bingit.MemeHandler
