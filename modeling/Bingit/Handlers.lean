import Bingit.MemeHandler

namespace Bingit

open Text Interleaving

structure ConfigParams where
  serverRoot : Text
  handlerPaths : HandlerPaths

def ConfigParams.ofConfig (config : NginxConfig) : ConfigParams :=
  let root := config.getKeyValue "root".toList
  { serverRoot :=
      if root = [] ∨ root = ".".toList then "./".toList
      else if root ≠ "/".toList then root ++ "/".toList
      else root
    handlerPaths := config.getHandlerPaths ∅ }

structure StaticHandler where
  handlerRoot : Text
  location : Text

namespace StaticHandler

def create (config : NginxConfig) (serverRoot : Text) : StaticHandler :=
  let configRoot := config.getKeyValue "root".toList
  { handlerRoot :=
      if configRoot = [] then serverRoot
      else if configRoot.head? = some '/' then configRoot
      else serverRoot ++ configRoot
    location := config.getKeyValue "location".toList }

/-- `boost::filesystem::path::extension`: nothing for `.` and `..`. -/
def extension (path : Text) : Text :=
  let name := path.rtakeWhile (· ≠ '/')
  if name = ".".toList ∨ name = "..".toList ∨ '.' ∉ name then []
  else '.' :: name.rtakeWhile (· ≠ '.')

def mimeType (extension : Text) : Text :=
  if extension = ".txt".toList then "text/plain".toList
  else if extension = ".html".toList then "text/html".toList
  -- the second test is true of every extension but this one
  else if extension = ".jpeg".toList ∨ extension ≠ ".jpg".toList then "image/jpeg".toList
  else if extension = ".png".toList then "image/png".toList
  else if extension = ".zip".toList then "application/zip".toList
  else "text/plain".toList

variable {Db : Type} (env : Env Db) (h : StaticHandler)

def LocationMismatch (path : Text) : Prop := find h.location path = none ∨ find h.location path ≠ some 0

instance (path : Text) : Decidable (h.LocationMismatch path) := inferInstanceAs (Decidable (_ ∨ _))

def servePage (request : Request) : Page :=
  let requestPathWithoutLocation :=
    if h.LocationMismatch request.path then [] else request.path.drop h.location.length
  let path := h.handlerRoot ++ requestPathWithoutLocation
  match env.readFile path with
  | some content => if h.LocationMismatch request.path then .notFound else ⟨200, mimeType (extension path), content⟩
  | none => .notFound

def handleRequest (request : Request) : Action Reply :=
  let page := h.servePage env request
  pure (makeReply request.httpVersion page.code page.mimeType page.content)

end StaticHandler

def echoReply (request : Request) : Reply :=
  makeReply request.httpVersion 200 "text/plain".toList request.originalRequest

def healthReply (request : Request) : Reply := makeReply request.httpVersion 200 "text/plain".toList "OK".toList

def badRequestReply (request : Request) : Reply :=
  makeReply request.httpVersion 404 "text/plain".toList "404 Error: File Not Found".toList

namespace StatusHandler

def content (total : ℤ) (urls : List (Text × ℤ)) (codes : List (ℤ × ℤ)) (paths : HandlerPaths) : Text :=
  "Total Number of Requests Received: ".toList ++ ofInt total ++ "\n\n".toList ++
    urls.flatMap (fun element =>
      "Number of requests received for ".toList ++ element.1 ++ ": ".toList ++ ofInt element.2 ++ "\n".toList) ++
    "\n".toList ++
    codes.flatMap (fun element =>
      "Number of ".toList ++ ofInt element.1 ++ " responses sent: ".toList ++ ofInt element.2 ++ "\n".toList) ++
    "\n".toList ++
    paths.toList.flatMap (fun element =>
      "A ".toList ++ element.2.1 ++ " request handler exists for the path: ".toList ++ element.1 ++ "\n".toList)

-- three passes over the shared maps, none of them guarded
def handleRequest (paths : HandlerPaths) (request : Request) : Action Reply := do
  let requestCounter ← Action.sumUrls
  let urls ← Action.listUrls
  let codes ← Action.listCodes
  pure (makeReply request.httpVersion 200 "text/plain".toList (content requestCounter urls codes paths))

end StatusHandler

structure ProxyHandler where
  location : Text
  host : Text

namespace ProxyHandler

def create (config : NginxConfig) : ProxyHandler :=
  { location := config.getKeyValue "location".toList
    host := config.getKeyValue "host".toList }

-- `substr` throws when it starts behind the end
def getRequestURI (h : ProxyHandler) (request : Request) : Option Text :=
  if h.location.length ≤ request.path.length then some (request.path.drop h.location.length) else none

variable {Db : Type} (env : Env Db)

-- `none`: the redirects have not come to an end yet
def followRedirects : ℕ → Option Text → Text → Option Text
  | 0, _, _ => none
  | fetches + 1, url, serverResponse =>
    let answer := env.fetch url
    let serverResponse := serverResponse ++ answer.chunks.flatten
    if answer.httpCode = 301 ∨ answer.httpCode = 302 then followRedirects fetches answer.redirectUrl serverResponse
    else some serverResponse

def handleRequest (h : ProxyHandler) (request : Request) : Action Reply := do
  let uri ← .ofOption .thrown (h.getRequestURI request)
  let serverResponse ← .ofOption .endless (followRedirects env env.fetchLimit (some (cString (h.host ++ uri))) [])
  pure (makeReply request.httpVersion 200 "text/html".toList serverResponse)

end ProxyHandler

inductive Handler where
  | echo
  | static (h : StaticHandler)
  | status
  | proxy (h : ProxyHandler)
  | meme (h : MemeHandler)
  | health
  | badRequest

namespace Handler

def createByName (name : Text) (config : NginxConfig) (rootPath : Text) : Handler :=
  if name = "echo".toList then .echo
  else if name = "static".toList then .static (.create config rootPath)
  else if name = "status".toList then .status
  else if name = "proxy".toList then .proxy (.create config)
  else if name = "meme".toList then .meme (.create config rootPath)
  else if name = "health".toList then .health
  else .badRequest

def handleRequest {Db : Type} (env : Env Db) (paths : HandlerPaths) (request : Request) : Handler → Action Reply
  | .echo => pure (echoReply request)
  | .static h => h.handleRequest env request
  | .status => StatusHandler.handleRequest paths request
  | .proxy h => h.handleRequest env request
  | .meme h => h.handleRequest env request
  | .health => pure (healthReply request)
  | .badRequest => pure (badRequestReply request)

end Handler

end Bingit
