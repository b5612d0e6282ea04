import Bingit.ConfigTree
import Bingit.Environment
import Bingit.ReplaceAll

namespace Bingit

open Text Interleaving Meme

inductive Directive where
  | literal (c : Char)
  | space
  | percent
  | field
  | other

def directives : Text → List Directive
  | [] => []
  | c :: format =>
    if c = '%' then
      match format with
      | '%' :: format => .percent :: directives format
      | '[' :: '^' :: '&' :: ']' :: format => .field :: directives format
      | _ => [.other]
    else if isSpace c then .space :: directives format
    else .literal c :: directives format

/-- A conversion other than `%[^&]` has no argument left. -/
def sscanf : List Directive → Text → Option (List Text)
  | [], _ => some []
  | .literal c :: format, s => if s.head? = some c then sscanf format s.tail else some []
  | .space :: format, s => sscanf format (s.dropWhile isSpace)
  | .percent :: format, s =>
    if (s.dropWhile isSpace).head? = some '%' then sscanf format (s.dropWhile isSpace).tail else some []
  | .field :: format, s =>
    let field := s.takeWhile (· ≠ '&')
    if field = [] then some [] else (sscanf format (s.dropWhile (· ≠ '&'))).map (field :: ·)
  | .other :: _, _ => none

def plusToSpace (s : Text) : Text := s.map (fun c => if c = '+' then ' ' else c)

def afterFirst (pattern s : Text) : Text := ((find pattern s).map (fun pos => s.drop (pos + pattern.length))).getD []

structure MemeRow where
  temp : Text := []
  top : Text := []
  bottom : Text := []
  id : Text := []
  dataFound : Bool := false

abbrev ColumnSetter := Text × (MemeRow → Text → MemeRow)

def viewColumns : List ColumnSetter :=
  [("TEMPLATE".toList, fun row val => { row with temp := val }),
    ("TOP".toList, fun row val => { row with top := val }),
    ("BOTTOM".toList, fun row val => { row with bottom := val })]

def listColumns : List ColumnSetter := ("ID".toList, fun row val => { row with id := val }) :: viewColumns

-- `none`: a null column becomes a `std::string`
def readColumns (columns : List ColumnSetter) : List (Text × Option Text) → Bool → MemeRow → Option MemeRow
  | [], foundData, row => some { row with dataFound := foundData }
  | (_, none) :: _, _, _ => none
  | (name, some val) :: rest, foundData, row =>
    match columns.lookup name with
    | some set => readColumns columns rest true (set row val)
    | none => readColumns columns rest foundData row

def viewCallback (mrp : MemeRow) (result : List (Text × Option Text)) : Option MemeRow :=
  readColumns viewColumns result false mrp

def listCallback (memeRows : List MemeRow) (result : List (Text × Option Text)) : Option (List MemeRow) :=
  (readColumns listColumns result false {}).map (fun row => memeRows ++ [row])

structure Page where
  code : ℤ
  mimeType : Text
  content : Text

def Page.notFound : Page := ⟨404, "text/plain".toList, "404 Error: Page not found".toList⟩

def Page.badRequest : Page := ⟨400, "text/plain".toList, "400 Error: Bad Request".toList⟩

def Page.html (code : ℤ) (content : Text) : Page := ⟨code, "text/html".toList, content⟩

structure MemeHandler where
  handlerRoot : Text
  location : Text
  viewPath : Text

namespace MemeHandler

def create (config : NginxConfig) (serverRoot : Text) : MemeHandler :=
  let configRoot := config.getKeyValue "root".toList
  { handlerRoot :=
      if configRoot = [] then serverRoot
      else if configRoot.head? = some '/' ∨ configRoot = ".".toList then configRoot
      else serverRoot ++ configRoot
    location := config.getKeyValue "location".toList
    viewPath := config.getKeyValue "view".toList }

variable {Db : Type} (env : Env Db) (h : MemeHandler)

-- a text that does not fit its array with the final zero byte is written past the end
def scanFields (format s : Text) : Option (List Text) := do
  let stored ← sscanf (directives (cString format)) (cString s)
  if stored.all (·.length < env.sizeofString) then some stored else none

def scanField (format s : Text) : Option Text := do
  match ← scanFields env format s with
  | [] => some []
  | [field] => some field
  | _ => none

def decodeField (field : Text) : Text := cString (env.unescape (plusToSpace field))

def prepareNewRequest (path : Text) : Page :=
  match env.readFile (path ++ "/new.html".toList) with
  | some content => .html 200 content
  | none => .notFound

def memeNotFound (memeId : Text) : Page :=
  .html 404 ("<header>Meme ".toList ++ memeId ++ " not found :(</header>".toList)

def editContent (template : Text) (row : MemeRow) (memeId : Text) : Text :=
  replaceAll "$meme.id".toList memeId
    (replaceAll "$meme.bot".toList row.bottom (replaceAll "$meme.top".toList row.top template))

def editPage (path : Text) (row : MemeRow) (memeId : Text) : Page :=
  match env.readFile (path ++ "/edit.html".toList) with
  | some template => .html 200 (editContent template row memeId)
  | none => .notFound

def readMeme (memeId : Text) (found : MemeRow → Page) : Action Page := do
  let result ← Action.query (.select memeId)
  let row ← .ofOption .thrown (result.rows.foldlM viewCallback {})
  if result.err ≠ none ∨ row.dataFound = false then pure (memeNotFound memeId)
  else pure (found row)

def prepareEditRequest (path memeId : Text) : Action Page :=
  readMeme memeId (fun row => editPage env path row memeId)

structure CreateForm where
  picFile : Text
  topText : Text
  botText : Text
  editId : Text
  deriving DecidableEq

def createFormat (body : Text) : Text :=
  if find "&update=".toList body = none then "image=%[^&]&top=%[^&]&bottom=%[^&]".toList
  else "image=%[^&]&top=%[^&]&bottom=%[^&]&update=%[^&]".toList

def createForm (body : Text) : Option CreateForm := do
  let stored ← scanFields env (createFormat body) body
  some
    { picFile := decodeField env (stored.getD 0 [])
      topText := decodeField env (stored.getD 1 [])
      botText := decodeField env (stored.getD 2 [])
      editId := stored.getD 3 [] }

def CreateForm.Rejected (form : CreateForm) : Prop :=
  form.picFile = "Choose...".toList ∨ form.picFile = [] ∨ form.topText = [] ∨ form.botText = []

instance (form : CreateForm) : Decidable form.Rejected := inferInstanceAs (Decidable (_ ∨ _))

def createdContent (uniqueId done : Text) : Text :=
  "<header>Meme ".toList ++ uniqueId ++ " ".toList ++ done ++ "!</header><a href=\"/meme/view?id=".toList ++
    uniqueId ++ "\">Click here to see your meme</a>".toList ++
    "<br><a href=\"/meme/new\">Click here to create another meme</a>".toList ++
    "<br><a href=\"/meme/list\">Click here to look at all the memes</a>".toList

def createdPage (result : ExecResult) (content : Text) : Page :=
  if result.err ≠ none then .html 404 "<header>Couldn't create meme :( Try again later</header>".toList
  else .html 200 content

def insertPage (picFile topText botText : Text) : Action Page := do
  let (uniqueId, result) ← Action.insertMeme picFile topText botText
  pure (createdPage result (createdContent (decimal uniqueId) "Generated".toList))

def updatePage (picFile topText botText editId : Text) : Action Page := do
  let result ← Action.query (.update picFile topText botText editId)
  pure (createdPage result (createdContent editId "Updated".toList))

def prepareCreateRequest (body : Text) : Action Page := do
  let form ← .ofOption .undefined (createForm env body)
  if form.Rejected then pure .badRequest
  else if form.editId = [] then insertPage form.picFile form.topText form.botText
  else updatePage form.picFile form.topText form.botText form.editId

def viewContent (row : MemeRow) (memeId : Text) : Text :=
  "<style>             ".toList ++
    "body\x7bposition: relative; background-color: #283747;\x7d             ".toList ++
    ".container\x7bposition: relative; width: 100%;                          ".toList ++
    "display:flex;justify-content:center;align-items:center;                 ".toList ++
    "flex-direction: row; position: relative;                 ".toList ++
    "color: white; font: 2em bold Impact, sans-serif;                 ".toList ++
    "text-align:center; font-weight: bold;             ".toList ++
    "\x7d             ".toList ++
    "#top\x7btop:3%; left: 50%; transform: translate(-50%); position:absolute;\x7d             ".toList ++
    "#bottom\x7bbottom:3%; left: 50%; transform: translate(-50%); position:absolute\x7d             ".toList ++
    "a\x7bleft: 50%; transform: translate(-50%); position:absolute; font: 2em bold Impact, sans-serif;\x7d         ".toList ++
    "</style>         ".toList ++
    "<body>             ".toList ++
    "<div class=\"container\">                 ".toList ++
    "<img src=\"/static/".toList ++ row.temp ++
    "\">                 ".toList ++
    "<div id=\"top\">".toList ++ row.top ++
    "</div>                 ".toList ++
    "<div id=\"bottom\">".toList ++ row.bottom ++
    "</div>             ".toList ++
    "</div>             ".toList ++
    "<br><a href=\"/meme/edit?update=".toList ++ memeId ++
    "\">Edit This Meme</a>             ".toList ++
    "<br><a href=\"/meme/delete?id=".toList ++ memeId ++
    "\" onclick=\"return confirm('Are you sure?')\">Delete This Meme</a>         ".toList ++
    "</body>".toList

def viewId (path : Text) : Option Text := scanField env (h.location ++ h.viewPath ++ "?id=%[^&]".toList) path

def prepareViewRequest (path : Text) : Action Page := do
  let memeId ← .ofOption .undefined (h.viewId env path)
  if memeId = [] then pure .badRequest
  else readMeme memeId (fun row => .html 200 (viewContent row memeId))

def listItem (row : MemeRow) : Text :=
  "<li><a href=/meme/view?id=".toList ++ row.id ++ ">".toList ++ row.id ++ " top: ".toList ++ row.top ++
    " bot: ".toList ++ row.bottom ++ "</a></li>".toList

def listContent (rows : List MemeRow) (searchQuery : Text) : Text :=
  "<h1>List of All Memes</h1>         ".toList ++
    "<form method=\"get\">             ".toList ++
    "<input type=\"text\" name=\"query\" >             ".toList ++
    "<input type=\"submit\" value=\"Search\">         ".toList ++
    "</form>     ".toList ++
    "<ul>".toList ++ rows.flatMap listItem ++ "</ul>".toList ++
    (if rows = [] then "<div>No memes with '".toList ++ searchQuery ++ "' in the top or bottom text</div>".toList
      else []) ++
    (if searchQuery ≠ [] then "<a href=\"/meme/list\">Clear search</a>".toList else [])

def searchQuery (path : Text) : Option Text :=
  (scanField env (h.location ++ "/list".toList ++ "?query=%[^&]".toList) path).map (decodeField env)

def listAnswer (searchQuery : Text) (result : ExecResult) : Action Page := do
  let rows ← .ofOption .thrown (result.rows.foldlM listCallback [])
  if result.err ≠ none then pure (.html 404 "<header>No memes found :(</header>".toList)
  else pure (.html 200 (listContent rows searchQuery))

def searchFor (searchQuery : Text) : Action Page := do
  let result ← Action.query (if searchQuery = [] then .list else .search searchQuery)
  listAnswer searchQuery result

def prepareListRequest (path : Text) : Action Page := do
  let searchQuery ← .ofOption .undefined (h.searchQuery env path)
  searchFor searchQuery

def deletedPage (result : ExecResult) (memeId : Text) : Page :=
  if result.err ≠ none then
    .html 404 ("<header>No Meme with id = ".toList ++ memeId ++ "found :(</header>".toList)
  else
    .html 200 ("<div>Meme with id ".toList ++ memeId ++ " has been deleted </div>".toList ++
      "<br><a href=\"/meme/new\">Click here to create another meme</a>".toList ++
      "<br><a href=\"/meme/list\">Click here to look at all the memes</a>".toList)

def prepareDeleteRequest (memeId : Text) : Action Page := do
  let result ← Action.query (.delete memeId)
  pure (deletedPage result memeId)

inductive Route where
  | new
  | edit (memeId : Text)
  | create
  | view
  | list
  | delete (memeId : Text)
  | unknown
  deriving DecidableEq

def route (path : Text) : Route :=
  if path = "/meme/new".toList then .new
  else if find "/meme/edit?update=".toList path = some 0 then .edit (afterFirst "?update=".toList path)
  else if path = "/meme/create".toList then .create
  else if find (h.location ++ h.viewPath ++ "?id=".toList) path = some 0 then .view
  else if find "/meme/list".toList path = some 0 then .list
  else if find "/meme/delete?id=".toList path = some 0 then .delete (afterFirst "?id=".toList path)
  else .unknown

def LocationMismatch (path : Text) : Prop := find h.location path ≠ some 0

instance (path : Text) : Decidable (h.LocationMismatch path) := inferInstanceAs (Decidable (_ ≠ _))

def servePage (request : Request) : Action Page :=
  if h.LocationMismatch request.path then pure .notFound
  else
    match h.route request.path with
    | .new => pure (prepareNewRequest env h.handlerRoot)
    | .edit memeId => prepareEditRequest env h.handlerRoot memeId
    | .create => prepareCreateRequest env request.body
    | .view => h.prepareViewRequest env request.path
    | .list => h.prepareListRequest env request.path
    | .delete memeId => prepareDeleteRequest memeId
    | .unknown => pure .notFound

def handleRequest (request : Request) : Action Reply := do
  let page ← h.servePage env request
  pure (makeReply request.httpVersion page.code page.mimeType page.content)

end MemeHandler

end Bingit
