import Bingit.CreateRequests
import Bingit.HtmlForms
import Bingit.PageStructure

namespace Bingit

open Text Interleaving Html
open Session (IsDigits meme_not_mismatch)

def encodeEntries (reserved : Char → Bool) (entries : List (Text × Text)) : Text :=
  "&".toList.intercalate (entries.map fun entry => formEncode reserved entry.1 ++ '=' :: formEncode reserved entry.2)

/-- A form without an address goes to that of its page. -/
inductive Submits (reserved : Char → Bool) (inText inValue : References) (user : User) (address page : Text)
    (request : Request) : Prop
  | get (action : Text) (htarget : target page = some (action, "GET".toList)) (hmethod : request.method = "GET".toList)
      (hpath : request.path = (if action = [] then address else action).takeWhile (· ≠ '?') ++ '?' ::
        encodeEntries reserved (submission inText inValue user page))
      (hbody : request.body = [])
  | post (action : Text) (htarget : target page = some (action, "POST".toList))
      (hmethod : request.method = "POST".toList) (hpath : request.path = if action = [] then address else action)
      (hbody : request.body = encodeEntries reserved (submission inText inValue user page))

section

variable {reserved : Char → Bool} {inText inValue : References} {user : User} {address page : Text} {request : Request}
  {action : Text}

theorem target_unique {method action' method' : Text} (h : target page = some (action, method))
    (h' : target page = some (action', method')) : action = action' ∧ method = method' := by
  rw [h, Option.some.injEq, Prod.mk.injEq] at h'
  exact h'

theorem Submits.get_inv (h : Submits reserved inText inValue user address page request)
    (htarget : target page = some (action, "GET".toList)) :
    request.method = "GET".toList ∧ request.path = (if action = [] then address else action).takeWhile (· ≠ '?') ++
      '?' :: encodeEntries reserved (submission inText inValue user page) := by
  cases h with
  | get action' htarget' hmethod hpath hbody =>
    obtain ⟨rfl, -⟩ := target_unique htarget htarget'
    exact ⟨hmethod, hpath⟩
  | post action' htarget' hmethod hpath hbody =>
    have hmethods : "GET".toList ≠ "POST".toList := by decide
    exact absurd (target_unique htarget htarget').2 hmethods

theorem Submits.post_inv (h : Submits reserved inText inValue user address page request)
    (htarget : target page = some (action, "POST".toList)) (haction : action ≠ []) :
    request.method = "POST".toList ∧ request.path = action ∧
      request.body = encodeEntries reserved (submission inText inValue user page) := by
  cases h with
  | get action' htarget' hmethod hpath hbody =>
    have hmethods : "POST".toList ≠ "GET".toList := by decide
    exact absurd (target_unique htarget htarget').2 hmethods
  | post action' htarget' hmethod hpath hbody =>
    obtain ⟨rfl, -⟩ := target_unique htarget htarget'
    rw [if_neg haction] at hpath
    exact ⟨hmethod, hpath, hbody⟩

end

theorem formEncode_of_notReserved {reserved : Char → Bool} {s : Text}
    (h : ∀ c ∈ s, c ≠ ' ' ∧ reserved c = false) : formEncode reserved s = s := by
  induction s with
  | nil => rfl
  | cons c s ih =>
    obtain ⟨⟨hspace, hc⟩, hrest⟩ := List.forall_mem_cons.mp h
    have hchar : encodeChar reserved c = [c] := by
      rw [encodeChar, if_neg hspace, hc]
      rfl
    rw [formEncode, List.flatMap_cons, hchar]
    exact congrArg (c :: ·) (ih hrest)

namespace MemeHandler

/-- The file `static_roots/meme/new.html`. -/
def newTemplate : Text :=
  "<style>\n".toList ++
    "body \x7b\n".toList ++
    "    background-color: #283747;\n".toList ++
    "    color: white;\n".toList ++
    "    font-family: Impact;\n".toList ++
    "    text-align: center;\n".toList ++
    "\x7d\n".toList ++
    "h1 \x7b\n".toList ++
    "    font-size: 100px;\n".toList ++
    "\x7d\n".toList ++
    "form \x7b\n".toList ++
    "    font-size:30px;\n".toList ++
    "\x7d\n".toList ++
    "select \x7b\n".toList ++
    "    height:30px;\n".toList ++
    "    width:280px;\n".toList ++
    "\x7d\n".toList ++
    "input \x7b\n".toList ++
    "    height:35px;\n".toList ++
    "    width:280px;\n".toList ++
    "\x7d\n".toList ++
    "</style>\n".toList ++
    "\n".toList ++
    "<body>\n".toList ++
    "    <h1>Meme<br>Generator</h1>\n".toList ++
    "    <form action=\"/meme/create\" method=\"post\">\n".toList ++
    "        Meme Template:<br>\n".toList ++
    "        <select name=\"image\">\n".toList ++
    "            <option>Choose...</option>\n".toList ++
    "            <option value=\"simply.jpg\">One Does Not Simply</option>\n".toList ++
    "            <option value=\"grumpy.jpg\">Grumpy Cat</option>\n".toList ++
    "            <option value=\"pikachu.jpg\">Surprised Pikachu</option>\n".toList ++
    "        </select>\n".toList ++
    "        <br><br>\n".toList ++
    "        Top Text:<br>\n".toList ++
    "        <input type=\"text\" name=\"top\"><br><br>\n".toList ++
    "        Bottom Text:<br>\n".toList ++
    "        <input type=\"text\" name=\"bottom\"><br><br>\n".toList ++
    "        <input type=\"submit\" style=\"width:100px;\" value=\"Generate\">\n".toList ++
    "    </form>\n".toList ++
    "</body>".toList

def pictureOptions : List MenuOption :=
  [(none, "Choose...".toList), (some "simply.jpg".toList, "One Does Not Simply".toList),
    (some "grumpy.jpg".toList, "Grumpy Cat".toList), (some "pikachu.jpg".toList, "Surprised Pikachu".toList)]

def pictureMenu : Control := .select "image".toList pictureOptions

theorem controls_newTemplate :
    controls newTemplate = [.form "/meme/create".toList "post".toList, pictureMenu,
      .input "text".toList "top".toList [], .input "text".toList "bottom".toList [],
      .input "submit".toList [] "Generate".toList] := by
  unfold newTemplate pictureMenu pictureOptions
  repeat rw [String.toList_ofList]
  decide +kernel

def inputTag (kind name value : Text) : Element :=
  ⟨false, "input".toList, [("type".toList, kind), ("name".toList, name), ("value".toList, value)]⟩

theorem feed_inputTag (kind name value : Text) :
    (FormState.mk (some (inputTag kind name value)) none none).feed .closeTag =
      (.initial, [.input kind name value]) := by
  unfold inputTag
  repeat rw [String.toList_ofList]
  rfl

theorem scan_inputTag (kind name value : Text) {m : Text} {rest : List Event} {st : FormState} {cs : List Control}
    (hm : (run .doubleQuoted m).2 = .closeTag :: rest) (hrest : FormState.initial.scan rest = (st, cs)) :
    (FormState.mk (some (inputTag kind name [])) none none).scan (value.map Event.value ++ (run .doubleQuoted m).2) =
      (st, .input kind name value :: cs) := by
  have hvalue : (inputTag kind name []).addValue value = inputTag kind name value := rfl
  rw [scan_append, scan_value, hm, FormState.scan]
  simp only [Option.map_some, hvalue, feed_inputTag, hrest, List.nil_append, List.singleton_append]

theorem edit_events :
    FormState.initial.scan (run .data editHead).2 = (.initial, []) ∧
      FormState.initial.scan (run .data editMiddle).2 =
        (⟨some (inputTag "text".toList "top".toList []), none, none⟩,
          [.form "/meme/create".toList "post".toList, pictureMenu]) ∧
      (run .doubleQuoted editAfterTop).2 = .closeTag :: (run .doubleQuoted editAfterTop).2.tail ∧
      FormState.initial.scan (run .doubleQuoted editAfterTop).2.tail =
        (⟨some (inputTag "text".toList "bottom".toList []), none, none⟩, []) ∧
      (run .doubleQuoted editAfterBottom).2 = .closeTag :: (run .doubleQuoted editAfterBottom).2.tail ∧
      FormState.initial.scan (run .doubleQuoted editAfterBottom).2.tail =
        (⟨some (inputTag "hidden".toList "update".toList []), none, none⟩, []) ∧
      (run .doubleQuoted editTail).1 = .data ∧
      (run .doubleQuoted editTail).2 = .closeTag :: (run .doubleQuoted editTail).2.tail ∧
      FormState.initial.scan (run .doubleQuoted editTail).2.tail =
        (.initial, [.input "submit".toList [] "Update".toList]) := by
  unfold editHead editMiddle editAfterTop editAfterBottom editTail inputTag pictureMenu pictureOptions
  repeat rw [String.toList_ofList]
  decide +kernel

theorem controls_editContent {inValue : References} {row : MemeRow} (h : PlainEdit inValue row) (n : ℕ) :
    controls (editContent editTemplate row (decimal n)) =
      [.form "/meme/create".toList "post".toList, pictureMenu, .input "text".toList "top".toList row.top,
        .input "text".toList "bottom".toList row.bottom, .input "hidden".toList "update".toList (decimal n),
        .input "submit".toList [] "Update".toList] := by
  obtain ⟨hhead, hmiddle, htop, htopRest, hbottom, hbottomRest, hend, htail, htailRest⟩ := edit_events
  obtain ⟨hheadState, hmiddleState, htopState, hbottomState⟩ := edit_markup
  have htopInput := scan_inputTag "text".toList "top".toList row.top htop htopRest
  have hbottomInput := scan_inputTag "text".toList "bottom".toList row.bottom hbottom hbottomRest
  have hidInput := scan_inputTag "hidden".toList "update".toList (decimal n) htail htailRest
  rw [controls, editContent_parts h, events, run_pageText (reads_edit h n)]
  simp only [editParts, readParts, hheadState, hmiddleState.1, htopState.1, hbottomState.1, hend, finish,
    List.append_nil]
  rw [scan_append, hhead, scan_append, scan_text rfl, scan_append, hmiddle]
  rw [← List.append_assoc, scan_append, htopInput, ← List.append_assoc, scan_append, hbottomInput, hidInput]
  rfl

def pictures : List Text := ["Choose...".toList, "simply.jpg".toList, "grumpy.jpg".toList, "pikachu.jpg".toList]

def pickedPicture (user : User) : Text :=
  ((user.picked "image".toList).bind fun i => pictures[i]?).getD "Choose...".toList

def typedText (user : User) (name : Text) (initial : Text) : Text := stripNewlines ((user.typed name).getD initial)

section Submission

variable {inText inValue : References} {user : User}

theorem map_choice_pictureOptions : pictureOptions.map (MenuOption.choice inText inValue) = pictures := by
  have hplain {reference : References} {s : Text} (hs : '&' ∉ s) : decode reference s = s :=
    decode_of_noReference (noReference_of_notMem hs)
  have hcollapse : collapse "Choose...".toList = "Choose...".toList := by
    rw [String.toList_ofList]
    decide +kernel
  have hchoose : decode inText "Choose...".toList = "Choose...".toList := hplain (by decide)
  simp only [pictureOptions, pictures, List.map_cons, List.map_nil, MenuOption.choice, Option.elim_none,
    Option.elim_some, hchoose, hcollapse]
  rw [hplain (by decide), hplain (by decide), hplain (by decide)]

theorem entry_pictureMenu :
    Control.entry inText inValue user pictureMenu = some ("image".toList, pickedPicture user) := by
  have hname : "image".toList ≠ [] := by decide
  have hpicked : ((user.picked "image".toList).bind fun i => pictureOptions[i]?).map
      (MenuOption.choice inText inValue) = (user.picked "image".toList).bind fun i => pictures[i]? := by
    rw [Option.map_bind, ← @map_choice_pictureOptions inText inValue]
    congr 1
    funext i
    exact List.getElem?_map.symm
  have hfirst : pictureOptions.head?.map (MenuOption.choice inText inValue) = some "Choose...".toList := by
    rw [← List.head?_map, map_choice_pictureOptions]
    rfl
  rw [pictureMenu, Control.entry, if_neg hname, pickedPicture, ← hpicked]
  cases (user.picked "image".toList).bind fun i => pictureOptions[i]? with
  | some option => rfl
  | none =>
    rw [Option.none_or, Option.map_none, Option.getD_none]
    obtain ⟨first, hhead, hvalue⟩ := Option.map_eq_some_iff.mp hfirst
    rw [hhead, ← hvalue]
    rfl

theorem entry_inputs (name initial : Text) (hname : name ≠ []) :
    Control.entry inText inValue user (.input "text".toList name initial) =
        some (name, typedText user name (decode inValue initial)) ∧
      Control.entry inText inValue user (.input "hidden".toList name initial) = some (name, decode inValue initial) ∧
      Control.entry inText inValue user (.input "submit".toList [] initial) = none := by
  have hkinds : "text".toList.map Char.toLower ≠ ['s', 'u', 'b', 'm', 'i', 't'] ∧
      "text".toList.map Char.toLower ≠ ['h', 'i', 'd', 'd', 'e', 'n'] ∧
      "hidden".toList.map Char.toLower ≠ ['s', 'u', 'b', 'm', 'i', 't'] ∧
      "hidden".toList.map Char.toLower = ['h', 'i', 'd', 'd', 'e', 'n'] := by
    decide
  obtain ⟨htext, htext', hhidden, hhidden'⟩ := hkinds
  refine ⟨?_, ?_, ?_⟩
  · rw [Control.entry, if_neg (not_or.mpr ⟨hname, htext⟩), if_neg htext']
    rfl
  · rw [Control.entry, if_neg (not_or.mpr ⟨hname, hhidden⟩), if_pos hhidden']
  · rw [Control.entry, if_pos (Or.inl rfl)]

theorem submission_newTemplate :
    submission inText inValue user newTemplate = [("image".toList, pickedPicture user),
      ("top".toList, typedText user "top".toList []), ("bottom".toList, typedText user "bottom".toList [])] := by
  have hbutton := (@entry_inputs inText inValue user ['b'] "Generate".toList (by decide)).2.2
  have htop := (@entry_inputs inText inValue user "top".toList [] (by decide)).1
  have hbottom := (@entry_inputs inText inValue user "bottom".toList [] (by decide)).1
  have hform : Control.entry inText inValue user (.form "/meme/create".toList "post".toList) = none := rfl
  rw [submission, controls_newTemplate]
  simp only [List.filterMap_cons, List.filterMap_nil, entry_pictureMenu, hform, htop, hbottom, hbutton]
  rfl

theorem submission_editContent {row : MemeRow} (h : PlainEdit inValue row) (n : ℕ) :
    submission inText inValue user (editContent editTemplate row (decimal n)) =
      [("image".toList, pickedPicture user), ("top".toList, typedText user "top".toList row.top),
        ("bottom".toList, typedText user "bottom".toList row.bottom), ("update".toList, decimal n)] := by
  have hbutton := (@entry_inputs inText inValue user ['b'] "Update".toList (by decide)).2.2
  have htop := (@entry_inputs inText inValue user "top".toList row.top (by decide)).1
  have hbottom := (@entry_inputs inText inValue user "bottom".toList row.bottom (by decide)).1
  have hid := (@entry_inputs inText inValue user "update".toList (decimal n) (by decide)).2.1
  have hform : Control.entry inText inValue user (.form "/meme/create".toList "post".toList) = none := rfl
  have hdecode : decode inValue (decimal n) = decimal n :=
    decode_of_noReference (noReference_of_notMem (notMem_decimal (by decide) n))
  rw [submission, controls_editContent h]
  simp only [List.filterMap_cons, List.filterMap_nil, entry_pictureMenu, hform, htop, hbottom, hid, hbutton, hdecode,
    decode_of_noReference h.top.noReference, decode_of_noReference h.bottom.noReference]

end Submission

inductive FormPage where
  | new
  | edit (n : ℕ) (row : MemeRow)

namespace FormPage

def page {Db : Type} (env : Env Db) (root : Text) : FormPage → Page
  | .new => prepareNewRequest env root
  | .edit n row => editPage env root row (decimal n)

def topText : FormPage → Text
  | .new => []
  | .edit _ row => row.top

def bottomText : FormPage → Text
  | .new => []
  | .edit _ row => row.bottom

def id : FormPage → Option Text
  | .new => none
  | .edit n _ => some (decimal n)

def IsPlain (inValue : References) : FormPage → Prop
  | .new => True
  | .edit _ row => PlainEdit inValue row

def meme (form : FormPage) (user : User) : Meme.StoredMeme :=
  ⟨pickedPicture user, typedText user "top".toList form.topText, typedText user "bottom".toList form.bottomText⟩

def Incomplete (form : FormPage) (user : User) : Prop :=
  (form.meme user).temp = "Choose...".toList ∨ (form.meme user).top = [] ∨ (form.meme user).bottom = []

def command : FormPage → Meme.StoredMeme → Meme.Command
  | .new, m => .create m
  | .edit n _, m => .edit n m

def donePage (memeCount : ℕ) : FormPage → Page
  | .new => .html 200 (createdContent (decimal (memeCount + 1)) "Generated".toList)
  | .edit n _ => .html 200 (createdContent (decimal n) "Updated".toList)

end FormPage

def formEntries (t a b : Text) (u : Option Text) : List (Text × Text) :=
  [("image".toList, t), ("top".toList, a), ("bottom".toList, b)] ++ u.toList.map fun id => ("update".toList, id)

section Served

variable {Db : Type} {env : Env Db} {reserved : Char → Bool} {inText inValue : References} {user : User}

structure HasTemplates (env : Env Db) (root : Text) : Prop where
  new : env.readFile (root ++ "/new.html".toList) = some newTemplate
  edit : env.readFile (root ++ "/edit.html".toList) = some editTemplate

structure PlainEncoding (reserved : Char → Bool) : Prop where
  reserves : Reserves reserved
  alphanum : ∀ c, c.isAlphanum = true → reserved c = false

structure FitsArrays (env : Env Db) (reserved : Char → Bool) (entries : List (Text × Text)) : Prop where
  bytes : ∀ entry ∈ entries, IsByteText entry.2
  length : ∀ entry ∈ entries, (formEncode reserved entry.2).length < env.sizeofString

theorem newPage_content {root : Text} (hfiles : HasTemplates env root) :
    (FormPage.new.page env root).content = newTemplate := by
  rw [FormPage.page, prepareNewRequest, hfiles.new]
  rfl

theorem submission_formPage {root : Text} (hfiles : HasTemplates env root) {form : FormPage}
    (hplain : form.IsPlain inValue) :
    submission inText inValue user (form.page env root).content =
      formEntries (pickedPicture user) (typedText user "top".toList form.topText)
        (typedText user "bottom".toList form.bottomText) form.id := by
  cases form with
  | new =>
    rw [newPage_content hfiles, submission_newTemplate]
    rfl
  | edit n row =>
    rw [FormPage.page, editPage_content hfiles.edit, submission_editContent hplain]
    rfl

theorem target_formPage {root : Text} (hfiles : HasTemplates env root) {form : FormPage}
    (hplain : form.IsPlain inValue) :
    target (form.page env root).content = some ("/meme/create".toList, "POST".toList) := by
  have hform : Control.target (.form "/meme/create".toList "post".toList) =
      some ("/meme/create".toList, "POST".toList) := by
    have hmethod : "post".toList.map Char.toUpper = "POST".toList := by decide
    rw [Control.target, hmethod]
  cases form with
  | new =>
    rw [newPage_content hfiles, target, controls_newTemplate, List.findSome?_cons, hform]
  | edit n row =>
    rw [FormPage.page, editPage_content hfiles.edit, target, controls_editContent hplain, List.findSome?_cons, hform]

theorem formEncode_of_alphanum (h : PlainEncoding reserved) {s : Text} (hs : s.all Char.isAlphanum = true) :
    formEncode reserved s = s := by
  apply formEncode_of_notReserved
  intro c hc
  have halphanum := List.all_eq_true.mp hs c hc
  refine ⟨?_, h.alphanum c halphanum⟩
  rintro rfl
  contradiction

theorem encode_names (h : PlainEncoding reserved) :
    formEncode reserved "image".toList = "image".toList ∧ formEncode reserved "top".toList = "top".toList ∧
      formEncode reserved "bottom".toList = "bottom".toList ∧
      formEncode reserved "update".toList = "update".toList := by
  repeat rw [String.toList_ofList]
  exact ⟨formEncode_of_alphanum h rfl, formEncode_of_alphanum h rfl, formEncode_of_alphanum h rfl,
    formEncode_of_alphanum h rfl⟩

theorem formEncode_digits (h : PlainEncoding reserved) {id : Text} (hid : IsDigits id) :
    formEncode reserved id = id := by
  apply formEncode_of_alphanum h
  rw [List.all_eq_true]
  intro c hc
  rw [Char.isAlphanum, hid.isDigit c hc, Bool.or_true]

theorem encodeEntries_formEntries (h : PlainEncoding reserved) (t a b : Text) {u : Option Text}
    (hu : ∀ id ∈ u, IsDigits id) : encodeEntries reserved (formEntries t a b u) = formBody reserved t a b u := by
  obtain ⟨himage, htop, hbottom, hupdate⟩ := encode_names h
  rw [formBody_eq, encodeEntries, formEntries]
  cases u with
  | none =>
    simp only [Option.toList_none, List.map_nil, List.append_nil, List.map_cons, himage, htop, hbottom,
      Option.elim_none]
    repeat rw [String.toList_ofList]
    simp [List.intercalate]
  | some id =>
    have hid := formEncode_digits h (hu id rfl)
    simp only [Option.toList_some, List.map_cons, List.map_nil, List.cons_append, List.nil_append, himage, htop,
      hbottom, hupdate, hid, Option.elim_some]
    repeat rw [String.toList_ofList]
    simp [List.intercalate]

theorem servePage_create {h : MemeHandler} {request : Request} (hpath : request.path = "/meme/create".toList)
    (hlocation : ¬ h.LocationMismatch request.path) :
    h.servePage env request = prepareCreateRequest env request.body := by
  have hroute : h.route request.path = .create := by
    unfold MemeHandler.route
    simp only [find_eq_zero_iff]
    rw [hpath]
    repeat rw [String.toList_ofList]
    rw [if_neg (by decide), if_neg (by decide), if_pos rfl]
  rw [servePage, if_neg hlocation, hroute]

theorem formInput_of_fits (hencoding : PlainEncoding reserved) {t a b : Text} {u : Option Text}
    (hu : ∀ id ∈ u, IsDigits id) (hfits : FitsArrays env reserved (formEntries t a b u)) :
    FormInput reserved t a b u ∧ ∀ field ∈ formFields reserved t a b u, field.2.length < env.sizeofString := by
  have hbytes := hfits.bytes
  have hlength := hfits.length
  simp only [formEntries, List.forall_mem_append, List.forall_mem_cons, List.forall_mem_map, Option.mem_toList]
    at hbytes hlength
  obtain ⟨⟨ht, ha, hb, -⟩, -⟩ := hbytes
  obtain ⟨⟨htFits, haFits, hbFits, -⟩, huFits⟩ := hlength
  refine ⟨⟨hencoding.reserves, ht, ha, hb, hu⟩, ?_⟩
  simp only [formFields, List.forall_mem_append, List.forall_mem_cons, List.forall_mem_map, Option.mem_toList]
  refine ⟨⟨htFits, haFits, hbFits, by simp⟩, ?_⟩
  intro id hid
  rw [← formEncode_digits hencoding (hu id hid)]
  exact huFits id hid

theorem prepareCreateRequest_entries (hencoding : PlainEncoding reserved) (hunescape : env.unescape = percentDecode)
    {t a b : Text} {u : Option Text} (hu : ∀ id ∈ u, IsDigits id)
    (hfits : FitsArrays env reserved (formEntries t a b u)) :
    prepareCreateRequest env (encodeEntries reserved (formEntries t a b u)) =
      if t = [] ∨ a = [] ∨ b = [] ∨ t = "Choose...".toList then pure .badRequest
      else u.elim (insertPage t a b) (updatePage t a b) := by
  obtain ⟨hinput, hfit⟩ := formInput_of_fits hencoding hu hfits
  obtain ⟨form, hform, hcases⟩ := hinput.createForm_eq hunescape hfit
  rw [encodeEntries_formEntries hencoding t a b hu, prepareCreateRequest_of_form hform]
  rcases hcases with ⟨hempty, hrejected⟩ | rfl
  · have hbad : t = [] ∨ a = [] ∨ b = [] ∨ t = "Choose...".toList :=
      hempty.imp_right fun hempty => hempty.imp_right .inl
    rw [if_pos hrejected, if_pos hbad]
  · simp only [rejected_iff]
    congr 1
    cases u with
    | none => exact if_pos rfl
    | some id => exact if_neg (hu id rfl).ne_nil

theorem pickedPicture_mem (user : User) : pickedPicture user ∈ pictures := by
  unfold pickedPicture
  cases hpicked : (user.picked "image".toList).bind fun i => pictures[i]? with
  | none => exact List.mem_cons_self
  | some t =>
    obtain ⟨i, -, hi⟩ := Option.bind_eq_some_iff.mp hpicked
    exact List.mem_of_getElem? hi

theorem pictures_plain : ∀ t ∈ pictures, t ≠ [] ∧ '\'' ∉ t ∧ nul ∉ t := by
  unfold pictures
  repeat rw [String.toList_ofList]
  decide

theorem isDigits_id {form : FormPage} : ∀ id ∈ form.id, IsDigits id := by
  intro id hid
  cases form with
  | new => contradiction
  | edit n row =>
    obtain rfl := Option.some.inj hid
    exact ⟨decimal_ne_nil n, fun c hc => isDigit_of_mem_decimal hc⟩

instance (form : FormPage) (user : User) : Decidable (form.Incomplete user) := inferInstanceAs (Decidable (_ ∨ _ ∨ _))

theorem servePage_submitted (hencoding : PlainEncoding reserved) (hunescape : env.unescape = percentDecode)
    {h : MemeHandler} (hlocation : h.location <+: "/meme/create".toList) {form : FormPage} {request : Request}
    (hpath : request.path = "/meme/create".toList)
    (hbody : request.body = encodeEntries reserved (formEntries (form.meme user).temp (form.meme user).top
      (form.meme user).bottom form.id))
    (hfits : FitsArrays env reserved (formEntries (form.meme user).temp (form.meme user).top (form.meme user).bottom
      form.id)) :
    h.servePage env request = if form.Incomplete user then pure .badRequest
      else form.id.elim (insertPage (form.meme user).temp (form.meme user).top (form.meme user).bottom)
        (updatePage (form.meme user).temp (form.meme user).top (form.meme user).bottom) := by
  have hmatch : ¬ h.LocationMismatch request.path := by
    rw [hpath]
    exact meme_not_mismatch hlocation
  have hcases : ((form.meme user).temp = [] ∨ (form.meme user).top = [] ∨ (form.meme user).bottom = [] ∨
      (form.meme user).temp = "Choose...".toList) ↔ form.Incomplete user := by
    have hne : (form.meme user).temp ≠ [] := (pictures_plain _ (pickedPicture_mem user)).1
    unfold FormPage.Incomplete
    tauto
  rw [servePage_create hpath hmatch, hbody, prepareCreateRequest_entries hencoding hunescape isDigits_id hfits]
  simp only [hcases]

section Stored

variable {like : Text → Text → Bool} {table : Db → ℕ → Option Meme.StoredMeme} {s : Shared Db}

theorem insertPage_stores (hsql : Meme.Sqlite env.exec table like) (hs : (Meme.abstraction table s).Bounded)
    (hroom : s.memeCount + 1 < 2 ^ 31) {m : Meme.StoredMeme}
    (htexts : ∀ t ∈ [m.temp, m.top, m.bottom], '\'' ∉ t ∧ nul ∉ t) :
    ∃ s', ReturnsIn (execute env) s (insertPage m.temp m.top m.bottom)
        (.html 200 (createdContent (decimal (s.memeCount + 1)) "Generated".toList)) s' ∧
      Meme.abstraction table s' = (Meme.abstraction table s).apply (.create m) := by
  obtain ⟨hstore, hid, herr⟩ := Meme.insertMeme_refines hsql hs hroom htexts
  refine ⟨_, .call ?_, hstore⟩
  have hpage := Meme.createdPage_of_err herr (createdContent (decimal (s.memeCount + 1)) "Generated".toList)
  rw [← hpage]
  exact returnsIn_pure _ _

theorem updatePage_stores (hsql : Meme.Sqlite env.exec table like) {m : Meme.StoredMeme}
    (htexts : ∀ t ∈ [m.temp, m.top, m.bottom], '\'' ∉ t ∧ nul ∉ t) (n : ℕ) :
    ∃ s', ReturnsIn (execute env) s (updatePage m.temp m.top m.bottom (decimal n))
        (.html 200 (createdContent (decimal n) "Updated".toList)) s' ∧
      Meme.abstraction table s' = (Meme.abstraction table s).apply (.edit n m) := by
  have hgood : Meme.GoodOp (.query (.update m.temp m.top m.bottom (decimal n))) := ⟨htexts, n, rfl⟩
  obtain ⟨hstore, herr⟩ := Meme.query_refines hsql s hgood
  rw [Meme.Store.step, Meme.commandOf, decodeNumber_decimal] at hstore
  refine ⟨_, .call ?_, hstore⟩
  have hpage := Meme.createdPage_of_err herr (createdContent (decimal n) "Updated".toList)
  rw [← hpage]
  exact returnsIn_pure _ _

theorem submitted_form (hencoding : PlainEncoding reserved) (hunescape : env.unescape = percentDecode) {h : MemeHandler}
    (hfiles : HasTemplates env h.handlerRoot) (hlocation : h.location <+: "/meme/create".toList) {form : FormPage}
    (hplain : form.IsPlain inValue) {request : Request} {address : Text}
    (hsubmits : Submits reserved inText inValue user address (form.page env h.handlerRoot).content request)
    (hfits : FitsArrays env reserved (submission inText inValue user (form.page env h.handlerRoot).content))
    (hquote : '\'' ∉ (form.meme user).top ∧ '\'' ∉ (form.meme user).bottom)
    (hsql : Meme.Sqlite env.exec table like) (hs : (Meme.abstraction table s).Bounded)
    (hroom : s.memeCount + 1 < 2 ^ 31) :
    request.method = "POST".toList ∧
      (form.Incomplete user → h.servePage env request = pure .badRequest) ∧
      (¬ form.Incomplete user → ∃ s',
        ReturnsIn (execute env) s (h.servePage env request) (form.donePage s.memeCount) s' ∧
          Meme.abstraction table s' = (Meme.abstraction table s).apply (form.command (form.meme user))) ∧
      (user.picked "image".toList = none → form.Incomplete user) := by
  obtain ⟨hmethod, hpath, hbody⟩ := hsubmits.post_inv (target_formPage hfiles hplain) (by decide)
  rw [submission_formPage hfiles hplain] at hbody hfits
  have hpage := servePage_submitted hencoding hunescape hlocation hpath hbody hfits
  have htexts : ∀ t ∈ [(form.meme user).temp, (form.meme user).top, (form.meme user).bottom], '\'' ∉ t ∧ nul ∉ t := by
    obtain ⟨hinput, -⟩ := formInput_of_fits hencoding isDigits_id hfits
    simp only [List.forall_mem_cons]
    exact ⟨(pictures_plain _ (pickedPicture_mem user)).2, ⟨hquote.1, hinput.top.noNul⟩,
      ⟨hquote.2, hinput.bottom.noNul⟩, by simp⟩
  refine ⟨hmethod, fun hincomplete => ?_, fun hcomplete => ?_, fun hnone => ?_⟩
  · rw [hpage, if_pos hincomplete]
  · rw [hpage, if_neg hcomplete]
    cases form with
    | new => exact insertPage_stores hsql hs hroom htexts
    | edit n row => exact updatePage_stores hsql htexts n
  · left
    change pickedPicture user = _
    rw [pickedPicture, hnone]
    rfl

end Stored

end Served

def formEnv : Env Meme.Reference.Table :=
  { Env.standalone Meme.Reference.exec with
    readFile := fun path => some (if path = "/new.html".toList then newTemplate else editTemplate) }

def editingUser : User :=
  ⟨fun name => if name = "top".toList then some "1+1 = 2".toList else none, fun _ => some 1⟩

def storedCat : Meme.StoredMeme := ⟨"cat.jpg".toList, "hi".toList, "me".toList⟩

def editedMeme : FormPage := .edit 5 storedCat.row

def editingState : Shared Meme.Reference.Table := ⟨∅, ∅, 5, (∅ : Meme.Reference.Table).insert 5 storedCat⟩

def editingRequest : Request :=
  ⟨"POST".toList, "/meme/create".toList, "HTTP/1.1".toList, .empty,
    formBody plainReserved "simply.jpg".toList "1+1 = 2".toList "me".toList (some (decimal 5)), [], true⟩

theorem meme_editing :
    editedMeme.meme editingUser = ⟨"simply.jpg".toList, "1+1 = 2".toList, "me".toList⟩ := by
  unfold editingUser editedMeme storedCat FormPage.meme pickedPicture pictures FormPage.topText FormPage.bottomText
  repeat rw [String.toList_ofList]
  decide

theorem bounded_editing :
    (Meme.abstraction (fun (db : Meme.Reference.Table) (n : ℕ) => db[n]?) editingState).Bounded := by
  intro n m hn
  have hinsert : ((∅ : Meme.Reference.Table).insert 5 storedCat)[n]? = some m := hn
  rw [Std.TreeMap.getElem?_insert] at hinsert
  split_ifs at hinsert with heq
  · obtain rfl : 5 = n := Std.compare_eq_iff_eq.mp heq
    exact ⟨by decide, Nat.le_refl 5⟩
  · rw [Std.TreeMap.getElem?_emptyc] at hinsert
    contradiction

theorem plainEncoding_plainReserved : PlainEncoding plainReserved := by
  refine ⟨⟨rfl, rfl, rfl, rfl⟩, ?_⟩
  intro c hc
  rw [plainReserved, decide_eq_false_iff_not]
  intro hmem
  simp only [List.mem_cons, List.not_mem_nil, or_false] at hmem
  rcases hmem with rfl | rfl | rfl | rfl <;> contradiction

theorem submitted_form_editing :
    ∃ s', ReturnsIn (execute formEnv) editingState
        ((MemeHandler.mk [] "/meme".toList "/view".toList).servePage formEnv editingRequest)
        (.html 200 (createdContent (decimal 5) "Updated".toList)) s' ∧
      (s'.db[5]? : Option Meme.StoredMeme) = some ⟨"simply.jpg".toList, "1+1 = 2".toList, "me".toList⟩ := by
  have hfiles : HasTemplates formEnv [] := by
    refine ⟨congrArg some (if_pos rfl), congrArg some (if_neg ?_)⟩
    rw [String.toList_ofList, String.toList_ofList]
    decide
  have hplain : editedMeme.IsPlain fun _ => none := by
    have hvalue {s : Text} (hs : '"' ∉ s ∧ '&' ∉ s) : PlainValue (fun _ => none) s :=
      ⟨hs.1, noReference_of_notMem hs.2⟩
    refine ⟨hvalue (by decide), hvalue (by decide), ?_, ?_, ?_⟩ <;> decide +kernel
  have hentries : submission (fun _ => none) (fun _ => none) editingUser (editedMeme.page formEnv []).content =
      formEntries "simply.jpg".toList "1+1 = 2".toList "me".toList (some (decimal 5)) := by
    have hmeme := meme_editing
    rw [FormPage.meme, Meme.StoredMeme.mk.injEq] at hmeme
    obtain ⟨hpicked, htop, hbottom⟩ := hmeme
    rw [submission_formPage hfiles hplain, hpicked, htop, hbottom]
    rfl
  have hid : ∀ id ∈ some (decimal 5), IsDigits id := by
    rintro id ⟨⟩
    exact ⟨decimal_ne_nil 5, fun c hc => isDigit_of_mem_decimal hc⟩
  have hsubmits : Submits plainReserved (fun _ => none) (fun _ => none) editingUser (memeUrl (.edit 5))
      (editedMeme.page formEnv []).content editingRequest := by
    refine .post _ (target_formPage hfiles hplain) rfl (if_neg (by decide)).symm ?_
    rw [hentries, encodeEntries_formEntries plainEncoding_plainReserved _ _ _ hid]
    rfl
  have hfits : FitsArrays formEnv plainReserved
      (submission (fun _ => none) (fun _ => none) editingUser (editedMeme.page formEnv []).content) := by
    rw [hentries]
    constructor
    · have hall : ∀ entry ∈ formEntries "simply.jpg".toList "1+1 = 2".toList "me".toList (some (decimal 5)),
          entry.2.all (fun c => decide (c.toNat < 256 ∧ c ≠ nul)) = true := by
        unfold formEntries
        repeat rw [String.toList_ofList]
        decide +kernel
      exact fun entry hentry => isByteText_of_all (hall entry hentry)
    · decide +kernel
  have hquote : '\'' ∉ (editedMeme.meme editingUser).top ∧ '\'' ∉ (editedMeme.meme editingUser).bottom := by
    rw [meme_editing]
    repeat rw [String.toList_ofList]
    decide
  have hcomplete : ¬ editedMeme.Incomplete editingUser := by
    rw [FormPage.Incomplete, meme_editing]
    repeat rw [String.toList_ofList]
    decide
  have hlocation : (MemeHandler.mk [] "/meme".toList "/view".toList).location <+: "/meme/create".toList := by
    repeat rw [String.toList_ofList]
    decide
  obtain ⟨-, -, hstored, -⟩ := submitted_form plainEncoding_plainReserved rfl
    (h := ⟨[], "/meme".toList, "/view".toList⟩) hfiles hlocation hplain hsubmits hfits hquote Meme.Reference.sqlite
    bounded_editing (by decide)
  obtain ⟨s', hreturns, hstore⟩ := hstored hcomplete
  refine ⟨s', hreturns, ?_⟩
  have hmemes := congrFun (congrArg Meme.Store.memes hstore) 5
  rw [meme_editing] at hmemes
  refine hmemes.trans ?_
  change (Meme.Store.apply _ (.edit 5 _)).memes 5 = _
  rw [Meme.Store.apply, if_neg]
  · simp only [Function.update_self]
  · change ((∅ : Meme.Reference.Table).insert 5 storedCat)[5]? ≠ none
    rw [Std.TreeMap.getElem?_insert_self]
    exact Option.some_ne_none storedCat

end MemeHandler

end Bingit
