import Bingit.Histogram
import Bingit.Interleaving
import Bingit.MemeQueries
import Bingit.Reply

namespace Bingit

open Text Interleaving

structure ExecResult where
  rows : List (List (Text × Option Text))
  err : Option Text

structure Fetched where
  httpCode : ℤ
  chunks : List Text
  redirectUrl : Option Text

/-- What the server uses of its surroundings. -/
structure Env (Db : Type) where
  -- `sizeof (std::string)`, the length of the arrays that `sscanf` stores to
  sizeofString : ℕ
  readFile : Text → Option Text
  unescape : Text → Text
  fetch : Option Text → Fetched
  fetchLimit : ℕ
  exec : Db → Text → Db × ExecResult
  order : HeaderOrder

def hexValue (c : Char) : Option ℕ :=
  if c.isDigit then some (c.toNat - '0'.toNat)
  else if 'a' ≤ c ∧ c ≤ 'f' then some (c.toNat - 'a'.toNat + 10)
  else if 'A' ≤ c ∧ c ≤ 'F' then some (c.toNat - 'A'.toNat + 10)
  else none

def percentDecode : Text → Text
  | '%' :: a :: b :: s =>
    match hexValue a, hexValue b with
    | some x, some y => Char.ofNat (16 * x + y) :: percentDecode s
    | _, _ => '%' :: percentDecode (a :: b :: s)
  | c :: s => c :: percentDecode s
  | [] => []

def Env.standalone {Db : Type} (exec : Db → Text → Db × ExecResult) : Env Db :=
  { sizeofString := 32
    readFile := fun _ => none
    unescape := percentDecode
    fetch := fun _ => ⟨0, [], none⟩
    fetchLimit := 1
    exec := exec
    order := ⟨fun headers => headers.toList, fun _ => .refl _⟩ }

/-- The regions that a mutex guards, and each unguarded loop. -/
inductive Op where
  | createHandler
  | sumUrls
  | listUrls
  | listCodes
  | updateCounters (path : Text) (code : ℤ)
  | asyncWrite (bytes : Text)
  | insertMeme (picFile topText botText : Text)
  | query (q : Meme.Query)

def Ret : Op → Type
  | .createHandler => Unit
  | .sumUrls => ℤ
  | .listUrls => List (Text × ℤ)
  | .listCodes => List (ℤ × ℤ)
  | .updateCounters _ _ => Unit
  | .asyncWrite _ => Unit
  | .insertMeme _ _ _ => ℕ × ExecResult
  | .query _ => ExecResult

abbrev Action := Prog Ret

namespace Action

def createHandler : Action Unit := .perform Op.createHandler

def sumUrls : Action ℤ := .perform Op.sumUrls

def listUrls : Action (List (Text × ℤ)) := .perform Op.listUrls

def listCodes : Action (List (ℤ × ℤ)) := .perform Op.listCodes

def updateCounters (path : Text) (code : ℤ) : Action Unit := .perform (Op.updateCounters path code)

def asyncWrite (bytes : Text) : Action Unit := .perform (Op.asyncWrite bytes)

def insertMeme (picFile topText botText : Text) : Action (ℕ × ExecResult) :=
  .perform (Op.insertMeme picFile topText botText)

def query (q : Meme.Query) : Action ExecResult := .perform (Op.query q)

theorem query_inv {α : Type} {q : Meme.Query} {f : ExecResult → Action α} {es : List (Event Ret)} {a : α}
    (h : Path (query q >>= f) es (.pure a)) :
    ∃ (result : ExecResult) (es' : List (Event Ret)),
      es = ⟨.query q, result⟩ :: es' ∧ Path (f result) es' (.pure a) :=
  Path.call_pure_inv h

theorem insertMeme_inv {α : Type} {picFile topText botText : Text} {f : ℕ × ExecResult → Action α}
    {es : List (Event Ret)} {a : α} (h : Path (insertMeme picFile topText botText >>= f) es (.pure a)) :
    ∃ (uniqueId : ℕ) (result : ExecResult) (es' : List (Event Ret)),
      es = ⟨.insertMeme picFile topText botText, (uniqueId, result)⟩ :: es' ∧
        Path (f (uniqueId, result)) es' (.pure a) := by
  obtain ⟨⟨uniqueId, result⟩, es', hes, hrest⟩ := Path.call_pure_inv h
  exact ⟨uniqueId, result, es', hes, hrest⟩

end Action

structure Shared (Db : Type) where
  urlCounter : Std.TreeMap Text ℤ
  codeCounter : Std.TreeMap ℤ ℤ
  memeCount : ℕ
  db : Db

def Shared.initial {Db : Type} (db : Db) : Shared Db := ⟨∅, ∅, 0, db⟩

def runQuery {Db : Type} (env : Env Db) (s : Shared Db) (q : Meme.Query) : Shared Db × ExecResult :=
  let (db, result) := env.exec s.db (cString q.sql)
  ({ s with db := db }, result)

def execute {Db : Type} (env : Env Db) : (op : Op) → Shared Db → Shared Db × Ret op
  | .createHandler, s => (s, ())
  | .sumUrls, s => (s, (s.urlCounter.toList.map Prod.snd).sum)
  | .listUrls, s => (s, s.urlCounter.toList)
  | .listCodes, s => (s, s.codeCounter.toList)
  | .updateCounters path code, s =>
    ({ s with urlCounter := countUp s.urlCounter path, codeCounter := countUp s.codeCounter code }, ())
  | .asyncWrite _, s => (s, ())
  | .insertMeme picFile topText botText, s =>
    let memeCount := s.memeCount + 1
    let (s, result) := runQuery env { s with memeCount := memeCount } (.insert memeCount picFile topText botText)
    (s, memeCount, result)
  | .query q, s => runQuery env s q

theorem returns_query_iff {Db α : Type} {env : Env Db} {s : Shared Db} {q : Meme.Query} {f : ExecResult → Action α}
    {a : α} : Returns (execute env) s (Action.query q >>= f) a ↔
      Returns (execute env) (execute env (.query q) s).1 (f (execute env (.query q) s).2) a :=
  returns_call_iff

inductive Op.Runs : Op → Meme.Query → Prop
  | insert (uniqueId : ℕ) (picFile topText botText : Text) :
      Runs (.insertMeme picFile topText botText) (.insert uniqueId picFile topText botText)
  | query (q : Meme.Query) : Runs (.query q) q

end Bingit
