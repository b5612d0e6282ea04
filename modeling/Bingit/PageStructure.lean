import Bingit.Html
import Bingit.MemeRefinement
import Bingit.MemeRoutes

namespace Bingit.MemeHandler

open Text Html Meme

def viewStyle : Text :=
  "body\x7bposition: relative; background-color: #283747;\x7d             ".toList ++
    ".container\x7bposition: relative; width: 100%;                          ".toList ++
    "display:flex;justify-content:center;align-items:center;                 ".toList ++
    "flex-direction: row; position: relative;                 ".toList ++
    "color: white; font: 2em bold Impact, sans-serif;                 ".toList ++
    "text-align:center; font-weight: bold;             ".toList ++
    "\x7d             ".toList ++
    "#top\x7btop:3%; left: 50%; transform: translate(-50%); position:absolute;\x7d             ".toList ++
    "#bottom\x7bbottom:3%; left: 50%; transform: translate(-50%); position:absolute\x7d             ".toList ++
    "a\x7bleft: 50%; transform: translate(-50%); position:absolute; font: 2em bold Impact, sans-serif;\x7d         ".toList

def viewHead : Text :=
  "</style>         ".toList ++
    "<body>             ".toList ++
    "<div class=\"container\">                 ".toList ++
    "<img src=\"".toList

def viewToTop : Text := "\">                 ".toList ++ "<div id=\"top\">".toList

def viewToBottom : Text := "</div>                 ".toList ++ "<div id=\"bottom\">".toList

def viewToEdit : Text :=
  "</div>             ".toList ++ "</div>             ".toList ++ "<br><a href=\"/meme/edit?update=".toList

def viewToDelete : Text := "\">Edit This Meme</a>             ".toList ++ "<br><a href=\"/meme/delete?id=".toList

def viewTail : Text :=
  "\" onclick=\"return confirm('Are you sure?')\">Delete This Meme</a>         ".toList ++ "</body>".toList

def viewParts (row : MemeRow) (memeId : Text) : List Part :=
  [.markup "<style>             ".toList, .text viewStyle, .markup viewHead, .value ("/static/".toList ++ row.temp),
    .markup viewToTop, .text row.top, .markup viewToBottom, .text row.bottom, .markup viewToEdit, .value memeId,
    .markup viewToDelete, .value memeId, .markup viewTail]

theorem viewContent_eq (row : MemeRow) (memeId : Text) : viewContent row memeId = pageText (viewParts row memeId) := by
  unfold viewContent viewParts viewStyle viewHead viewToTop viewToBottom viewToEdit viewToDelete viewTail
  -- the characters of the literals: evaluating `String.toList` decodes their bytes
  repeat rw [String.toList_ofList]
  simp only [pageText, List.flatMap_cons, List.flatMap_nil, Part.chars, List.append_assoc, List.append_nil]
  rfl

theorem view_markup :
    (run .data "<style>             ".toList).1 = .data ∧ '<' ∉ viewStyle ∧
      Spans .data viewHead .doubleQuoted .openEnd (.attributeChar 'c') ∧
      Spans .doubleQuoted viewToTop .data .closeTag .closeTag ∧ Spans .data viewToBottom .data .openEnd .closeTag ∧
      Spans .data viewToEdit .doubleQuoted .openEnd (.value '=') ∧
      (run .doubleQuoted viewToDelete).1 = .doubleQuoted := by
  unfold viewStyle viewHead viewToTop viewToBottom viewToEdit viewToDelete
  repeat rw [String.toList_ofList]
  decide +kernel

/-- A run of the page that decodes to itself. -/
def Shows (reference : References) (kind : Char → Event) (page before s after : Text) : Prop :=
  HasRun kind page (before ++ s ++ after) ∧ decode reference (before ++ s ++ after) = before ++ s ++ after

section Plain

variable (inText inValue : References)

structure PlainView (row : MemeRow) : Prop where
  temp : PlainValue inValue row.temp
  top : PlainText inText row.top
  bottom : PlainText inText row.bottom

structure PlainItem (row : MemeRow) : Prop where
  top : PlainText inText row.top
  bottom : PlainText inText row.bottom

-- a placeholder in a text put in before is replaced, too
structure PlainEdit (row : MemeRow) : Prop where
  top : PlainValue inValue row.top
  bottom : PlainValue inValue row.bottom
  bot_top : ¬ "$meme.bot".toList <:+: row.top
  id_top : ¬ "$meme.id".toList <:+: row.top
  id_bottom : ¬ "$meme.id".toList <:+: row.bottom

end Plain

variable {inText inValue : References}

theorem PlainView.unmarked {row : MemeRow} (h : PlainView inText inValue row) :
    PlainView noReferences noReferences row :=
  ⟨plainValue_noReferences.mpr h.temp.noQuote, plainText_noReferences.mpr h.top.noMarkup,
    plainText_noReferences.mpr h.bottom.noMarkup⟩

theorem PlainItem.unmarked {row : MemeRow} (h : PlainItem inText row) : PlainItem noReferences row :=
  ⟨plainText_noReferences.mpr h.top.noMarkup, plainText_noReferences.mpr h.bottom.noMarkup⟩

theorem PlainEdit.unmarked {row : MemeRow} (h : PlainEdit inValue row) : PlainEdit noReferences row :=
  { h with
    top := plainValue_noReferences.mpr h.top.noQuote
    bottom := plainValue_noReferences.mpr h.bottom.noQuote }

theorem quote_notMem_decimal (n : ℕ) : '"' ∉ decimal n := notMem_decimal (by decide) n

theorem plainValue_static {temp : Text} (h : PlainValue inValue temp) :
    PlainValue inValue ("/static/".toList ++ temp) :=
  h.append_of_notMem (by rw [String.toList_ofList]; decide)

theorem view_heads : viewHead.head? = some '<' ∧ viewToBottom.head? = some '<' ∧ viewToEdit.head? = some '<' := by
  unfold viewHead viewToBottom viewToEdit
  repeat rw [String.toList_ofList]
  exact ⟨rfl, rfl, rfl⟩

theorem reads_view {row : MemeRow} (h : PlainView inText inValue row) (n : ℕ) :
    Reads .data (viewParts row (decimal n)) := by
  obtain ⟨hstyle, hcss, himage, htop, hbottom, hedit, hdelete⟩ := view_markup
  obtain ⟨hhead, hhead', hhead''⟩ := view_heads
  simp only [viewParts, Reads, hstyle, himage.1, htop.1, hbottom.1, hedit.1, hdelete, true_and, and_true]
  exact ⟨noMarkup_of_notMem hcss, pageText_head hhead _, (plainValue_static h.temp).noQuote, h.top.noMarkup,
    pageText_head hhead' _, h.bottom.noMarkup, pageText_head hhead'' _, quote_notMem_decimal n, quote_notMem_decimal n⟩

theorem samePart_view (row row' : MemeRow) (memeId : Text) :
    List.Forall₂ SamePart (viewParts row memeId) (viewParts row' memeId) := by
  repeat' constructor

theorem view_shows {row : MemeRow} (h : PlainView inText inValue row) (n : ℕ) :
    Shows inValue .value (viewContent row (decimal n)) "/static/".toList row.temp [] ∧
      Shows inText .text (viewContent row (decimal n)) [] row.top [] ∧
      Shows inText .text (viewContent row (decimal n)) [] row.bottom [] := by
  have hreads := reads_view h n
  obtain ⟨hstyle, -, himage, htop, hbottom, hedit, -⟩ := view_markup
  simp only [Shows, List.append_nil, List.nil_append, viewContent_eq]
  refine ⟨⟨?_, decode_of_noReference (plainValue_static h.temp).noReference⟩,
    ⟨?_, decode_of_noReference h.top.noReference⟩, ?_, decode_of_noReference h.bottom.noReference⟩
  · have hparts : viewParts row (decimal n) = (viewParts row (decimal n)).take 2 ++ .markup viewHead ::
        .value ("/static/".toList ++ row.temp) :: .markup viewToTop :: (viewParts row (decimal n)).drop 5 := rfl
    have hbefore : (readParts .data ((viewParts row (decimal n)).take 2)).1 = .data := by
      simp only [viewParts, List.take_succ_cons, List.take_zero, readParts, hstyle]
    exact hasRun_of_parts (fun _ _ => rfl) hparts hreads hbefore himage htop (fun _ => rfl) rfl rfl
  · have hparts : viewParts row (decimal n) = (viewParts row (decimal n)).take 4 ++ .markup viewToTop ::
        .text row.top :: .markup viewToBottom :: (viewParts row (decimal n)).drop 7 := rfl
    have hbefore : (readParts .data ((viewParts row (decimal n)).take 4)).1 = .doubleQuoted := by
      simp only [viewParts, List.take_succ_cons, List.take_zero, readParts, hstyle, himage.1]
    exact hasRun_of_parts (fun _ _ => rfl) hparts hreads hbefore htop hbottom (fun _ => rfl) rfl rfl
  · have hparts : viewParts row (decimal n) = (viewParts row (decimal n)).take 6 ++ .markup viewToBottom ::
        .text row.bottom :: .markup viewToEdit :: (viewParts row (decimal n)).drop 9 := rfl
    have hbefore : (readParts .data ((viewParts row (decimal n)).take 6)).1 = .data := by
      simp only [viewParts, List.take_succ_cons, List.take_zero, readParts, hstyle, himage.1, htop.1]
    exact hasRun_of_parts (fun _ _ => rfl) hparts hreads hbefore hbottom hedit (fun _ => rfl) rfl rfl

def listHead : Text :=
  "<h1>List of All Memes</h1>         ".toList ++
    "<form method=\"get\">             ".toList ++
    "<input type=\"text\" name=\"query\" >             ".toList ++
    "<input type=\"submit\" value=\"Search\">         ".toList ++
    "</form>     ".toList ++
    "<ul>".toList

def itemHead (memeId : Text) : Text := "<li><a href=/meme/view?id=".toList ++ (memeId ++ ['>'])

def itemTop (memeId : Text) : Text := memeId ++ " top: ".toList

def itemText (row : MemeRow) : Text := itemTop row.id ++ row.top ++ (" bot: ".toList ++ row.bottom)

def itemTail : Text := "</a></li>".toList

def itemParts (row : MemeRow) : List Part := [.markup (itemHead row.id), .text (itemText row), .markup itemTail]

def noticeHead : Text := "No memes with '".toList

def noticeTail : Text := "' in the top or bottom text".toList

def noticeParts (searchQuery : Text) : List Part :=
  [.markup "<div>".toList, .text (noticeHead ++ searchQuery ++ noticeTail), .markup "</div>".toList]

def clearParts : List Part := [.markup "<a href=\"/meme/list\">Clear search</a>".toList]

def listTail (rows : List MemeRow) (searchQuery : Text) : List Part :=
  (if rows = [] then noticeParts searchQuery else []) ++ (if searchQuery ≠ [] then clearParts else [])

def listParts (rows : List MemeRow) (searchQuery : Text) : List Part :=
  .markup listHead :: (rows.flatMap itemParts ++ .markup "</ul>".toList :: listTail rows searchQuery)

theorem pageText_item (row : MemeRow) : pageText (itemParts row) = listItem row := by
  have hclose : ">".toList = ['>'] := rfl
  unfold itemParts itemHead itemText itemTop itemTail listItem
  rw [hclose]
  simp only [pageText, List.flatMap_cons, List.flatMap_nil, Part.chars, List.append_assoc, List.append_nil]

theorem pageText_items (rows : List MemeRow) : pageText (rows.flatMap itemParts) = rows.flatMap listItem := by
  induction rows with
  | nil => rfl
  | cons row rows ih => rw [List.flatMap_cons, List.flatMap_cons, pageText_append, pageText_item, ih]

theorem pageText_notice (searchQuery : Text) : pageText (noticeParts searchQuery) =
    "<div>No memes with '".toList ++ searchQuery ++ "' in the top or bottom text</div>".toList := by
  have hhead : "<div>No memes with '".toList = "<div>".toList ++ noticeHead := by
    unfold noticeHead
    repeat rw [String.toList_ofList]
    rfl
  have htail : "' in the top or bottom text</div>".toList = noticeTail ++ "</div>".toList := by
    unfold noticeTail
    repeat rw [String.toList_ofList]
    rfl
  rw [hhead, htail]
  simp only [pageText, noticeParts, List.flatMap_cons, List.flatMap_nil, Part.chars, List.append_assoc, List.append_nil]

theorem listContent_eq (rows : List MemeRow) (searchQuery : Text) :
    listContent rows searchQuery = pageText (listParts rows searchQuery) := by
  have hnotice : pageText (if rows = [] then noticeParts searchQuery else []) =
      if rows = [] then "<div>No memes with '".toList ++ searchQuery ++ "' in the top or bottom text</div>".toList
      else [] := by
    split
    · exact pageText_notice searchQuery
    · rfl
  have hclear : pageText (if searchQuery ≠ [] then clearParts else []) =
      if searchQuery ≠ [] then "<a href=\"/meme/list\">Clear search</a>".toList else [] := by
    split
    · exact List.append_nil _
    · rfl
  unfold listContent listParts listTail
  rw [pageText_cons, pageText_append, pageText_cons, pageText_append, pageText_items, hnotice, hclear]
  unfold listHead
  simp only [Part.chars, List.append_assoc]

theorem list_markup :
    Spans .data listHead .data .openStart .closeTag ∧ Spans .data itemTail .data .openEnd .closeTag ∧
      Spans .data "</ul>".toList .data .openEnd .closeTag ∧ Spans .data "<div>".toList .data .openStart .closeTag ∧
      Spans .data "</div>".toList .data .openEnd .closeTag ∧
      Spans .data "<li><a href=/meme/view?id=".toList .unquoted .openStart (.value '=') := by
  unfold listHead itemTail
  repeat rw [String.toList_ofList]
  decide +kernel

theorem itemHead_spans (n : ℕ) : Spans .data (itemHead (decimal n)) .data .openStart .closeTag := by
  obtain ⟨-, -, -, -, -, hlink⟩ := list_markup
  have hdigits : ∀ c ∈ decimal n, isBlank c = false ∧ c ≠ '>' := by
    intro c hc
    have hne {d : Char} (hd : d.isDigit = false) : c ≠ d := ne_of_mem_of_not_mem hc (notMem_decimal hd n)
    simp only [isBlank, Bool.or_eq_false_iff, decide_eq_false_iff_not]
    exact ⟨⟨⟨⟨⟨hne (by decide), hne (by decide)⟩, hne (by decide)⟩, hne (by decide)⟩, hne (by decide)⟩, hne (by decide)⟩
  have hrun := run_unquoted_close hlink.1 hdigits
  unfold itemHead Spans
  rw [hrun]
  refine ⟨rfl, ?_, ?_⟩
  · rw [List.head?_append, hlink.2.1]
    rfl
  · rw [← List.append_assoc]
    exact List.getLast?_concat

def Numbered (rows : List MemeRow) : Prop := ∀ row ∈ rows, ∃ n, row.id = decimal n

theorem readParts_item {row : MemeRow} (hid : ∃ n, row.id = decimal n) :
    (readParts .data (itemParts row)).1 = .data := by
  obtain ⟨n, hn⟩ := hid
  simp only [itemParts, readParts, hn, (itemHead_spans n).1, list_markup.2.1.1]

theorem readParts_items {rows : List MemeRow} (hids : Numbered rows) :
    (readParts .data (rows.flatMap itemParts)).1 = .data := by
  induction rows with
  | nil => rfl
  | cons row rows ih =>
    obtain ⟨hid, hrest⟩ := List.forall_mem_cons.mp hids
    rw [List.flatMap_cons, readParts_append, readParts_item hid, ih hrest]

theorem plainText_item {row : MemeRow} (hid : ∃ n, row.id = decimal n) (h : PlainItem inText row) :
    PlainText inText (itemText row) := by
  obtain ⟨n, hn⟩ := hid
  have hbetween : '<' ∉ " bot: ".toList ∧ '&' ∉ " bot: ".toList := by
    repeat rw [String.toList_ofList]
    decide
  have htop : '<' ∉ " top: ".toList ∧ '&' ∉ " top: ".toList := by
    repeat rw [String.toList_ofList]
    decide
  have hafter : PlainText inText (" bot: ".toList ++ row.bottom) := h.bottom.append_of_notMem hbetween
  have hbefore : '<' ∉ itemTop row.id ∧ '&' ∉ itemTop row.id := by
    rw [itemTop, hn, List.mem_append, List.mem_append, not_or, not_or]
    exact ⟨⟨notMem_decimal (by decide) n, htop.1⟩, notMem_decimal (by decide) n, htop.2⟩
  rw [itemText, List.append_assoc]
  refine .append_of_notMem hbefore (h.top.append hafter ?_)
  rintro c ⟨⟩
  exact ⟨rfl, rfl⟩

theorem reads_items {rows : List MemeRow} (hids : Numbered rows) (h : ∀ row ∈ rows, PlainItem inText row) :
    Reads .data (rows.flatMap itemParts) := by
  induction rows with
  | nil => trivial
  | cons row rows ih =>
    obtain ⟨hid, hrest⟩ := List.forall_mem_cons.mp hids
    obtain ⟨hrow, hrows⟩ := List.forall_mem_cons.mp h
    obtain ⟨n, hn⟩ := hid
    have hend : itemTail.head? = some '<' := by
      unfold itemTail
      rw [String.toList_ofList]
      rfl
    have hitem : Reads .data (itemParts row) := by
      simp only [itemParts, Reads, hn, (itemHead_spans n).1, true_and, and_true]
      exact ⟨(plainText_item ⟨n, hn⟩ hrow).noMarkup, pageText_head hend _⟩
    refine hitem.append ?_
    rw [readParts_item ⟨n, hn⟩]
    exact ih hrest hrows

theorem notice_notMem : ('<' ∉ noticeHead ∧ '&' ∉ noticeHead) ∧ '<' ∉ noticeTail ∧ '&' ∉ noticeTail := by
  unfold noticeHead noticeTail
  repeat rw [String.toList_ofList]
  decide

theorem plainText_notice {searchQuery : Text} (h : PlainText inText searchQuery) :
    PlainText inText (noticeHead ++ searchQuery ++ noticeTail) := by
  have htail : PlainText inText noticeTail := plainText_of_notMem notice_notMem.2
  rw [List.append_assoc]
  refine .append_of_notMem notice_notMem.1 (h.append htail ?_)
  rintro c ⟨⟩
  exact ⟨rfl, rfl⟩

theorem reads_notice {searchQuery : Text} (h : PlainText inText searchQuery) :
    Reads .data (noticeParts searchQuery) := by
  have hend : "</div>".toList.head? = some '<' := by
    rw [String.toList_ofList]
    rfl
  obtain ⟨-, -, -, hopen, -, -⟩ := list_markup
  unfold noticeParts
  simp only [Reads, hopen.1, true_and, and_true]
  exact ⟨(plainText_notice h).noMarkup, pageText_head hend _⟩

theorem reads_listTail {rows : List MemeRow} {searchQuery : Text} (h : rows = [] → PlainText inText searchQuery) :
    Reads .data (listTail rows searchQuery) := by
  have hclear {state : Html.State} : Reads state (if searchQuery ≠ [] then clearParts else []) := by
    split <;> trivial
  refine Reads.append ?_ hclear
  split
  · next hrows => exact reads_notice (h hrows)
  · trivial

theorem reads_list {rows : List MemeRow} {searchQuery : Text} (hids : Numbered rows)
    (h : ∀ row ∈ rows, PlainItem inText row) (hquery : rows = [] → PlainText inText searchQuery) :
    Reads .data (listParts rows searchQuery) := by
  obtain ⟨hhead, -, hclose, -, -, -⟩ := list_markup
  have htail : Reads .data (.markup "</ul>".toList :: listTail rows searchQuery) := by
    rw [Reads, hclose.1]
    exact reads_listTail hquery
  rw [listParts, Reads, hhead.1]
  refine (reads_items hids h).append ?_
  rwa [readParts_items hids]

theorem samePart_items {rows rows' : List MemeRow} (h : rows.map MemeRow.id = rows'.map MemeRow.id) :
    List.Forall₂ SamePart (rows.flatMap itemParts) (rows'.flatMap itemParts) := by
  induction rows generalizing rows' with
  | nil =>
    obtain rfl := List.map_eq_nil_iff.mp h.symm
    exact .nil
  | cons row rows ih =>
    cases rows' with
    | nil => cases h
    | cons row' rows' =>
      obtain ⟨hid, hrest⟩ := List.cons.inj h
      have hitem : List.Forall₂ SamePart (itemParts row) (itemParts row') := by
        rw [itemParts, itemParts, hid]
        repeat' constructor
      exact List.rel_append hitem (ih hrest)

theorem samePart_list {rows rows' : List MemeRow} {q q' : Text} (h : rows.map MemeRow.id = rows'.map MemeRow.id)
    (hq : q = [] ↔ q' = []) : List.Forall₂ SamePart (listParts rows q) (listParts rows' q') := by
  have hempty : rows = [] ↔ rows' = [] := by
    rw [← List.map_eq_nil_iff, h, List.map_eq_nil_iff]
  have hnotice : List.Forall₂ SamePart (if rows = [] then noticeParts q else [])
      (if rows' = [] then noticeParts q' else []) := by
    by_cases hrows : rows = []
    · rw [if_pos hrows, if_pos (hempty.mp hrows)]
      repeat' constructor
    · rw [if_neg hrows, if_neg (hrows ∘ hempty.mpr)]
      exact .nil
  have hclear : List.Forall₂ SamePart (if q ≠ [] then clearParts else []) (if q' ≠ [] then clearParts else []) := by
    by_cases hsearch : q = []
    · rw [if_neg (not_not.mpr hsearch), if_neg (not_not.mpr (hq.mp hsearch))]
      exact .nil
    · rw [if_pos hsearch, if_pos (hsearch ∘ hq.mpr)]
      repeat' constructor
  exact .cons (.markup _) (List.rel_append (samePart_items h) (.cons (.markup _) (List.rel_append hnotice hclear)))

theorem item_shows {rows : List MemeRow} {searchQuery : Text} (hids : Numbered rows)
    (h : ∀ row ∈ rows, PlainItem inText row) {row : MemeRow} (hrow : row ∈ rows) :
    Shows inText .text (listContent rows searchQuery) (itemTop row.id) row.top (" bot: ".toList ++ row.bottom) ∧
      Shows inText .text (listContent rows searchQuery) (itemTop row.id ++ row.top ++ " bot: ".toList) row.bottom [] := by
  have hquery : rows = [] → PlainText inText searchQuery := fun hrows => absurd hrow (hrows ▸ List.not_mem_nil)
  have hreads := reads_list hids h hquery
  obtain ⟨n, hn⟩ := hids row hrow
  have hdecode := decode_of_noReference (plainText_item ⟨n, hn⟩ (h row hrow)).noReference
  obtain ⟨before, after, hrows⟩ := List.append_of_mem hrow
  have hparts : listParts rows searchQuery = (.markup listHead :: before.flatMap itemParts) ++
      .markup (itemHead (decimal n)) :: .text (itemText row) :: .markup itemTail ::
        (after.flatMap itemParts ++ .markup "</ul>".toList :: listTail rows searchQuery) := by
    rw [listParts]
    nth_rewrite 1 [hrows]
    rw [List.flatMap_append, List.flatMap_cons, itemParts, hn]
    simp only [List.append_assoc, List.cons_append, List.nil_append]
  have hbefore : (readParts .data (.markup listHead :: before.flatMap itemParts)).1 = .data := by
    rw [readParts, list_markup.1.1]
    refine readParts_items fun row' hrow' => hids row' ?_
    rw [hrows]
    exact List.mem_append_left _ hrow'
  have hrun : HasRun .text (listContent rows searchQuery) (itemText row) := by
    rw [listContent_eq]
    exact hasRun_of_parts (fun _ _ => rfl) hparts hreads hbefore (itemHead_spans n)
      list_markup.2.1 (fun _ => rfl) rfl rfl
  have htext : itemTop row.id ++ row.top ++ " bot: ".toList ++ row.bottom ++ [] = itemText row := by
    rw [List.append_nil, List.append_assoc, itemText]
  exact ⟨⟨hrun, hdecode⟩, by rwa [htext], by rwa [htext]⟩

theorem notice_shows {searchQuery : Text} (h : PlainText inText searchQuery) :
    Shows inText .text (listContent [] searchQuery) noticeHead searchQuery noticeTail := by
  have hnone : Numbered [] := nofun
  have hreads := reads_list hnone (fun _ hrow => absurd hrow List.not_mem_nil) fun _ => h
  have hparts : listParts [] searchQuery = [.markup listHead, .markup "</ul>".toList] ++ .markup "<div>".toList ::
      .text (noticeHead ++ searchQuery ++ noticeTail) :: .markup "</div>".toList ::
        (if searchQuery ≠ [] then clearParts else []) := rfl
  obtain ⟨hhead, -, hclose, hopen, hend, -⟩ := list_markup
  have hbefore : (readParts .data [.markup listHead, .markup "</ul>".toList]).1 = .data := by
    rw [readParts, readParts, readParts, hhead.1, hclose.1]
  refine ⟨?_, decode_of_noReference (plainText_notice h).noReference⟩
  rw [listContent_eq]
  exact hasRun_of_parts (fun _ _ => rfl) hparts hreads hbefore hopen hend (fun _ => rfl) rfl rfl

def editParts (row : MemeRow) (memeId : Text) : List Part :=
  [.markup editHead, .text memeId, .markup editMiddle, .value row.top, .markup editAfterTop, .value row.bottom,
    .markup editAfterBottom, .value memeId, .markup editTail]

theorem editContent_parts {row : MemeRow} (h : PlainEdit inValue row) (memeId : Text) :
    editContent editTemplate row memeId = pageText (editParts row memeId) := by
  rw [editContent_plain h.bot_top h.id_top h.id_bottom, editParts]
  simp only [pageText, List.flatMap_cons, List.flatMap_nil, Part.chars, List.append_nil]

theorem edit_markup :
    (run .data editHead).1 = .data ∧ Spans .data editMiddle .doubleQuoted .openEnd (.attributeChar 'e') ∧
      Spans .doubleQuoted editAfterTop .doubleQuoted .closeTag (.attributeChar 'e') ∧
      Spans .doubleQuoted editAfterBottom .doubleQuoted .closeTag (.attributeChar 'e') := by
  unfold editHead editMiddle editAfterTop editAfterBottom
  repeat rw [String.toList_ofList]
  decide +kernel

theorem reads_edit {row : MemeRow} (h : PlainEdit inValue row) (n : ℕ) : Reads .data (editParts row (decimal n)) := by
  obtain ⟨hhead, hmiddle, htop, hbottom⟩ := edit_markup
  have hstart : editMiddle.head? = some '<' := by
    unfold editMiddle
    repeat rw [String.toList_ofList]
    rfl
  simp only [editParts, Reads, hhead, hmiddle.1, htop.1, hbottom.1, true_and, and_true]
  exact ⟨noMarkup_of_notMem (notMem_decimal (by decide) n), pageText_head hstart _, h.top.noQuote, h.bottom.noQuote,
    quote_notMem_decimal n⟩

theorem samePart_edit (row row' : MemeRow) (memeId : Text) :
    List.Forall₂ SamePart (editParts row memeId) (editParts row' memeId) := by
  repeat' constructor

theorem edit_shows {row : MemeRow} (h : PlainEdit inValue row) (n : ℕ) :
    Shows inValue .value (editContent editTemplate row (decimal n)) [] row.top [] ∧
      Shows inValue .value (editContent editTemplate row (decimal n)) [] row.bottom [] := by
  have hreads := reads_edit h n
  obtain ⟨hhead, hmiddle, htop, hbottom⟩ := edit_markup
  simp only [Shows, List.append_nil, List.nil_append, editContent_parts h]
  refine ⟨⟨?_, decode_of_noReference h.top.noReference⟩, ?_, decode_of_noReference h.bottom.noReference⟩
  · have hparts : editParts row (decimal n) = (editParts row (decimal n)).take 2 ++ .markup editMiddle ::
        .value row.top :: .markup editAfterTop :: (editParts row (decimal n)).drop 5 := rfl
    have hbefore : (readParts .data ((editParts row (decimal n)).take 2)).1 = .data := by
      simp only [editParts, List.take_succ_cons, List.take_zero, readParts, hhead]
    exact hasRun_of_parts (fun _ _ => rfl) hparts hreads hbefore hmiddle htop (fun _ => rfl) rfl rfl
  · have hparts : editParts row (decimal n) = (editParts row (decimal n)).take 4 ++ .markup editAfterTop ::
        .value row.bottom :: .markup editAfterBottom :: (editParts row (decimal n)).drop 7 := rfl
    have hbefore : (readParts .data ((editParts row (decimal n)).take 4)).1 = .doubleQuoted := by
      simp only [editParts, List.take_succ_cons, List.take_zero, readParts, hhead, hmiddle.1]
    exact hasRun_of_parts (fun _ _ => rfl) hparts hreads hbefore htop hbottom (fun _ => rfl) rfl rfl

section Pages

variable {Db : Type} (env : Env Db) (like : Text → Text → Bool)

def Viewed (s : Store) (n : ℕ) (page : Page) : Prop :=
  page = (s.memes n).elim (memeNotFound (decimal n)) (fun m => .html 200 (viewContent m.row (decimal n)))

def Edited (root : Text) (s : Store) (n : ℕ) (page : Page) : Prop :=
  page = (s.memes n).elim (memeNotFound (decimal n)) (fun m => editPage env root m.row (decimal n))

def Listed (s : Store) (q : Text) (ids : List ℕ) (page : Page) : Prop :=
  ∃ rows, rows.map Prod.fst = ids ∧ Lists rows s.memes (fun m => q = [] || m.found like q) ∧
    page = .html 200 (listContent (rows.map listedRow) q)

variable {env like} {h : MemeHandler} {request : Request} {s s' : Store} {page page' : Page} {n : ℕ}

theorem viewed_of_renders (hpage : Renders env like h request s page) (hroute : h.route request.path = .view)
    (hid : h.viewId env request.path = some (decimal n)) : Viewed s n page := by
  rw [Renders, hroute] at hpage
  exact hpage n hid

theorem edited_of_renders (hpage : Renders env like h request s page)
    (hroute : h.route request.path = .edit (decimal n)) : Edited env h.handlerRoot s n page := by
  rw [Renders, hroute] at hpage
  exact hpage n rfl

theorem listed_of_renders (hpage : Renders env like h request s page) (hroute : h.route request.path = .list) {q : Text}
    (hquery : h.searchQuery env request.path = some q) : ∃ ids, Listed like s q ids page := by
  rw [Renders, hroute] at hpage
  obtain ⟨rows, hlists, hcontent⟩ := hpage q hquery
  exact ⟨_, rows, rfl, hlists, hcontent⟩

theorem memes_same (hids : ∀ n, (s.memes n).isSome = (s'.memes n).isSome) (n : ℕ) :
    (s.memes n = none ∧ s'.memes n = none) ∨ ∃ m m', s.memes n = some m ∧ s'.memes n = some m' := by
  have hid := hids n
  cases hm : s.memes n with
  | none =>
    rw [hm, Option.isSome_none] at hid
    exact .inl ⟨rfl, Option.isNone_iff_eq_none.mp (Option.isSome_eq_false_iff.mp hid.symm)⟩
  | some m =>
    rw [hm, Option.isSome_some] at hid
    obtain ⟨m', hm'⟩ := Option.isSome_iff_exists.mp hid.symm
    exact .inr ⟨m, m', rfl, hm'⟩

-- what looks like a character reference changes no tag
theorem viewed_same (hids : ∀ n, (s.memes n).isSome = (s'.memes n).isSome) (hpage : Viewed s n page)
    (hpage' : Viewed s' n page') (hplain : ∀ m ∈ s.memes n, PlainView noReferences noReferences m.row)
    (hplain' : ∀ m ∈ s'.memes n, PlainView noReferences noReferences m.row) : tags page.content = tags page'.content := by
  subst hpage hpage'
  rcases memes_same hids n with ⟨hm, hm'⟩ | ⟨m, m', hm, hm'⟩
  · rw [hm, hm']
  · rw [hm, hm']
    change tags (viewContent m.row (decimal n)) = tags (viewContent m'.row (decimal n))
    rw [viewContent_eq, viewContent_eq]
    exact tags_same (samePart_view m.row m'.row _) (reads_view (hplain m hm) n) (reads_view (hplain' m' hm') n)

theorem editPage_content {root : Text} (htemplate : env.readFile (root ++ "/edit.html".toList) = some editTemplate)
    (row : MemeRow) (memeId : Text) :
    (editPage env root row memeId).content = editContent editTemplate row memeId := by
  rw [editPage, htemplate]
  rfl

theorem edited_same {root : Text} (htemplate : env.readFile (root ++ "/edit.html".toList) = some editTemplate)
    (hids : ∀ n, (s.memes n).isSome = (s'.memes n).isSome) (hpage : Edited env root s n page)
    (hpage' : Edited env root s' n page') (hplain : ∀ m ∈ s.memes n, PlainEdit noReferences m.row)
    (hplain' : ∀ m ∈ s'.memes n, PlainEdit noReferences m.row) : tags page.content = tags page'.content := by
  subst hpage hpage'
  rcases memes_same hids n with ⟨hm, hm'⟩ | ⟨m, m', hm, hm'⟩
  · rw [hm, hm']
  · rw [hm, hm', Option.elim_some, Option.elim_some, editPage_content htemplate, editPage_content htemplate,
      editContent_parts (hplain m hm), editContent_parts (hplain' m' hm')]
    exact tags_same (samePart_edit m.row m'.row _) (reads_edit (hplain m hm) n) (reads_edit (hplain' m' hm') n)

theorem numbered_listedRow (rows : List (ℕ × StoredMeme)) : Numbered (rows.map listedRow) := by
  intro row hrow
  obtain ⟨r, -, rfl⟩ := List.mem_map.mp hrow
  exact ⟨r.1, rfl⟩

theorem map_id_listedRow (rows : List (ℕ × StoredMeme)) :
    (rows.map listedRow).map MemeRow.id = (rows.map Prod.fst).map decimal := by
  rw [List.map_map, List.map_map]
  rfl

theorem plainItem_listedRow {rows : List (ℕ × StoredMeme)} {p : StoredMeme → Bool} (hlists : Lists rows s.memes p)
    (hplain : ∀ n ∈ rows.map Prod.fst, ∀ m ∈ s.memes n, PlainItem inText m.row) :
    ∀ row ∈ rows.map listedRow, PlainItem inText row := by
  intro row hrow
  obtain ⟨⟨n, m⟩, hmem, rfl⟩ := List.mem_map.mp hrow
  have hitem := hplain n (List.mem_map_of_mem hmem) m ((hlists.mem_iff n m).mp hmem).1
  exact ⟨hitem.top, hitem.bottom⟩

theorem listed_same {q q' : Text} {ids : List ℕ} (hpage : Listed like s q ids page)
    (hpage' : Listed like s' q' ids page') (hq : q = [] ↔ q' = [])
    (hplain : ∀ n ∈ ids, ∀ m ∈ s.memes n, PlainItem noReferences m.row)
    (hplain' : ∀ n ∈ ids, ∀ m ∈ s'.memes n, PlainItem noReferences m.row)
    (hquery : ids = [] → NoMarkup q ∧ NoMarkup q') : tags page.content = tags page'.content := by
  obtain ⟨rows, rfl, hlists, rfl⟩ := hpage
  obtain ⟨rows', hids, hlists', rfl⟩ := hpage'
  have hsame : (rows.map listedRow).map MemeRow.id = (rows'.map listedRow).map MemeRow.id := by
    rw [map_id_listedRow, map_id_listedRow, hids]
  have hreads := reads_list (numbered_listedRow rows) (plainItem_listedRow hlists hplain) fun hrows =>
    plainText_noReferences.mpr (hquery (by rw [List.map_eq_nil_iff.mp hrows, List.map_nil])).1
  have hreads' := reads_list (numbered_listedRow rows') (plainItem_listedRow hlists' (hids ▸ hplain')) fun hrows =>
    plainText_noReferences.mpr (hquery (by rw [← hids, List.map_eq_nil_iff.mp hrows, List.map_nil])).2
  change tags (listContent (rows.map listedRow) q) = tags (listContent (rows'.map listedRow) q')
  rw [listContent_eq, listContent_eq]
  exact tags_same (samePart_list hsame hq) hreads hreads'

theorem listed_shows {q : Text} {ids : List ℕ} (hpage : Listed like s q ids page)
    (hplain : ∀ n ∈ ids, ∀ m ∈ s.memes n, PlainItem inText m.row) {n : ℕ} (hn : n ∈ ids) {m : StoredMeme}
    (hm : m ∈ s.memes n) :
    Shows inText .text page.content (itemTop (decimal n)) m.top (" bot: ".toList ++ m.bottom) ∧
      Shows inText .text page.content (itemTop (decimal n) ++ m.top ++ " bot: ".toList) m.bottom [] := by
  obtain ⟨rows, rfl, hlists, rfl⟩ := hpage
  obtain ⟨r, hmem, rfl⟩ := List.mem_map.mp hn
  have hstored := ((hlists.mem_iff r.1 r.2).mp hmem).1
  obtain rfl := Option.some.inj (hm.symm.trans hstored)
  have hrow : listedRow r ∈ rows.map listedRow := List.mem_map_of_mem hmem
  have hshows := @item_shows inText _ q (numbered_listedRow rows) (plainItem_listedRow hlists hplain) _ hrow
  exact hshows

theorem pages_keep_structure (inText inValue : References) {root : Text}
    (htemplate : env.readFile (root ++ "/edit.html".toList) = some editTemplate)
    (hids : ∀ n, (s.memes n).isSome = (s'.memes n).isSome) (page page' : Page) :
    (∀ n, Viewed s n page → Viewed s' n page' → (∀ m ∈ s.memes n, PlainView inText inValue m.row) →
      (∀ m ∈ s'.memes n, PlainView inText inValue m.row) →
      tags page.content = tags page'.content ∧ ∀ m ∈ s.memes n,
        Shows inValue .value page.content "/static/".toList m.temp [] ∧
        Shows inText .text page.content [] m.top [] ∧ Shows inText .text page.content [] m.bottom []) ∧
    (∀ n, Edited env root s n page → Edited env root s' n page' → (∀ m ∈ s.memes n, PlainEdit inValue m.row) →
      (∀ m ∈ s'.memes n, PlainEdit inValue m.row) →
      tags page.content = tags page'.content ∧ ∀ m ∈ s.memes n,
        Shows inValue .value page.content [] m.top [] ∧ Shows inValue .value page.content [] m.bottom []) ∧
    ∀ q q' ids, Listed like s q ids page → Listed like s' q' ids page' → (q = [] ↔ q' = []) →
      (∀ n ∈ ids, ∀ m ∈ s.memes n, PlainItem inText m.row) → (∀ n ∈ ids, ∀ m ∈ s'.memes n, PlainItem inText m.row) →
      (ids = [] → PlainText inText q ∧ PlainText inText q') →
      tags page.content = tags page'.content ∧
      (∀ n ∈ ids, ∀ m ∈ s.memes n,
        Shows inText .text page.content (itemTop (decimal n)) m.top (" bot: ".toList ++ m.bottom) ∧
        Shows inText .text page.content (itemTop (decimal n) ++ m.top ++ " bot: ".toList) m.bottom []) ∧
      (ids = [] → Shows inText .text page.content noticeHead q noticeTail) := by
  refine ⟨?_, ?_, ?_⟩
  · intro n hpage hpage' hplain hplain'
    refine ⟨viewed_same hids hpage hpage' (fun m hm => (hplain m hm).unmarked) fun m hm => (hplain' m hm).unmarked, ?_⟩
    intro m hm
    rw [Viewed, hm] at hpage
    rw [hpage]
    exact view_shows (hplain m hm) n
  · intro n hpage hpage' hplain hplain'
    refine ⟨edited_same htemplate hids hpage hpage' (fun m hm => (hplain m hm).unmarked) fun m hm =>
      (hplain' m hm).unmarked, ?_⟩
    intro m hm
    rw [Edited, hm, Option.elim_some] at hpage
    rw [hpage, editPage_content htemplate]
    exact edit_shows (hplain m hm) n
  · intro q q' ids hpage hpage' hq hplain hplain' hquery
    refine ⟨listed_same hpage hpage' hq (fun n hn m hm => (hplain n hn m hm).unmarked)
      (fun n hn m hm => (hplain' n hn m hm).unmarked)
      fun hnone => (hquery hnone).imp PlainText.noMarkup PlainText.noMarkup, ?_, ?_⟩
    · intro n hn m hm
      exact listed_shows hpage hplain hn hm
    · rintro rfl
      obtain ⟨rows, hrows, -, rfl⟩ := hpage
      obtain rfl := List.map_eq_nil_iff.mp hrows
      exact notice_shows (hquery rfl).1

end Pages

def oneMeme (top : Text) : Store :=
  ⟨1, fun n => if n = 1 then some ⟨"cat.jpg".toList, top, "me".toList⟩ else none⟩

theorem oneMeme_ids (top top' : Text) (n : ℕ) :
    ((oneMeme top).memes n).isSome = ((oneMeme top').memes n).isSome := by
  simp only [oneMeme]
  split <;> rfl

theorem lists_oneMeme (top : Text) (p : StoredMeme → Bool) (hp : ∀ m, p m = true) :
    Lists [(1, ⟨"cat.jpg".toList, top, "me".toList⟩)] (oneMeme top).memes p := by
  refine ⟨List.nodup_singleton 1, ?_⟩
  intro n m
  rw [List.mem_singleton, Prod.mk.injEq, hp m, eq_self, and_true, oneMeme]
  by_cases hn : n = 1
  · simp only [hn, if_true, true_and, Option.some.injEq, eq_comm]
  · simp only [hn, if_false, false_and, reduceCtorEq]

theorem pages_keep_structure_oneMeme :
    tags (viewContent (StoredMeme.row ⟨"cat.jpg".toList, "hi".toList, "me".toList⟩) (decimal 1)) =
      tags (viewContent (StoredMeme.row ⟨"cat.jpg".toList, "x < y".toList, "me".toList⟩) (decimal 1)) := by
  have hplain : PlainText (fun _ => none) "hi".toList ∧ PlainText (fun _ => none) "x < y".toList ∧
      PlainText (fun _ => none) "me".toList ∧ PlainValue (fun _ => none) "cat.jpg".toList := by
    repeat rw [String.toList_ofList]
    exact ⟨plainText_of_notMem (by decide), ⟨by decide, noReference_of_notMem (by decide)⟩,
      plainText_of_notMem (by decide), by decide, noReference_of_notMem (by decide)⟩
  have hpages := @pages_keep_structure Unit
    { Env.standalone (fun (db : Unit) _ => (db, ⟨[], none⟩)) with readFile := fun _ => some editTemplate }
    (fun _ _ => true) (oneMeme "hi".toList) (oneMeme "x < y".toList) (fun _ => none) (fun _ => none) [] rfl
    (oneMeme_ids _ _) (.html 200 (viewContent (StoredMeme.row ⟨"cat.jpg".toList, "hi".toList, "me".toList⟩) (decimal 1)))
    (.html 200 (viewContent (StoredMeme.row ⟨"cat.jpg".toList, "x < y".toList, "me".toList⟩) (decimal 1)))
  refine (hpages.1 1 rfl rfl ?_ ?_).1
  · rintro m ⟨⟩
    exact ⟨hplain.2.2.2, hplain.1, hplain.2.2.1⟩
  · rintro m ⟨⟩
    exact ⟨hplain.2.2.2, hplain.2.1, hplain.2.2.1⟩

theorem stored_tag_changes_structure :
    ¬ ∀ (s s' : Store) (q q' : Text) (ids : List ℕ) (page page' : Page),
      (∀ n, (s.memes n).isSome = (s'.memes n).isSome) → Listed (fun _ _ => true) s q ids page →
      Listed (fun _ _ => true) s' q' ids page' → (q = [] ↔ q' = []) → tags page.content = tags page'.content := by
  intro h
  have hlisted (top : Text) : Listed (fun _ _ => true) (oneMeme top) [] [1]
      (.html 200 (listContent [listedRow (1, ⟨"cat.jpg".toList, top, "me".toList⟩)] [])) :=
    ⟨_, rfl, lists_oneMeme top _ fun _ => rfl, rfl⟩
  have hsame := h _ _ [] [] [1] _ _ (oneMeme_ids "hi".toList "<b>".toList) (hlisted _) (hlisted _) Iff.rfl
  have hdiffer : tags (listContent [listedRow (1, ⟨"cat.jpg".toList, "hi".toList, "me".toList⟩)] []) ≠
      tags (listContent [listedRow (1, ⟨"cat.jpg".toList, "<b>".toList, "me".toList⟩)] []) := by
    unfold listContent
    repeat rw [String.toList_ofList]
    decide +kernel
  exact hdiffer hsame

end Bingit.MemeHandler
