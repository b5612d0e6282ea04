import Bingit.Environment
import Mathlib.Logic.Function.Basic

namespace Bingit.Meme

open Text Sql

structure StoredMeme where
  temp : Text
  top : Text
  bottom : Text
  deriving DecidableEq

def StoredMeme.found (like : Text → Text → Bool) (m : StoredMeme) (searchQuery : Text) : Bool :=
  like ('%' :: (searchQuery ++ ['%'])) m.top || like ('%' :: (searchQuery ++ ['%'])) m.bottom

def memeColumns (m : StoredMeme) : List (Text × Option Text) :=
  [("TEMPLATE".toList, some m.temp), ("TOP".toList, some m.top), ("BOTTOM".toList, some m.bottom)]

def listedColumns (r : ℕ × StoredMeme) : List (Text × Option Text) :=
  memeColumns r.2 ++ [("ID".toList, some (decimal r.1))]

structure Lists (rows : List (ℕ × StoredMeme)) (table : ℕ → Option StoredMeme) (p : StoredMeme → Bool) : Prop where
  nodup : (rows.map Prod.fst).Nodup
  mem_iff : ∀ n m, (n, m) ∈ rows ↔ table n = some m ∧ p m = true

section Sqlite

variable {Db : Type} (exec : Db → Text → Db × ExecResult) (table : Db → ℕ → Option StoredMeme)
  (like : Text → Text → Bool)

/-- What SQLite does; its `LIKE` takes the pattern first. -/
structure Sqlite : Prop where
  insert : ∀ db sql n (m : StoredMeme), n < 2 ^ 31 → tokens sql = (Query.insert n m.temp m.top m.bottom).statement →
    table db n = none → table (exec db sql).1 = Function.update (table db) n (some m) ∧ (exec db sql).2.err = none
  insert_duplicate : ∀ db sql n (m : StoredMeme), n < 2 ^ 31 →
    tokens sql = (Query.insert n m.temp m.top m.bottom).statement → table db n ≠ none →
    table (exec db sql).1 = table db ∧ (exec db sql).2.err ≠ none
  update : ∀ db sql n (m : StoredMeme), tokens sql = (Query.update m.temp m.top m.bottom (decimal n)).statement →
    table (exec db sql).1 = (if table db n = none then table db else Function.update (table db) n (some m)) ∧
      (exec db sql).2.err = none
  select : ∀ db sql n, tokens sql = (Query.select (decimal n)).statement →
    table (exec db sql).1 = table db ∧ (exec db sql).2 = ⟨(table db n).toList.map memeColumns, none⟩
  list : ∀ db sql, tokens sql = Query.list.statement → table (exec db sql).1 = table db ∧
    ∃ rows, Lists rows (table db) (fun _ => true) ∧ (exec db sql).2 = ⟨rows.map listedColumns, none⟩
  search : ∀ db sql q, tokens sql = (Query.search q).statement → table (exec db sql).1 = table db ∧
    ∃ rows, Lists rows (table db) (StoredMeme.found like · q) ∧ (exec db sql).2 = ⟨rows.map listedColumns, none⟩
  delete : ∀ db sql n, tokens sql = (Query.delete (decimal n)).statement →
    table (exec db sql).1 = Function.update (table db) n none ∧ (exec db sql).2.err = none

end Sqlite

namespace Reference

abbrev Table := Std.TreeMap ℕ StoredMeme

def like : Text → Text → Bool
  | [], s => s.isEmpty
  | c :: pattern, s =>
    if c = '%' then s.tails.any (fun t => like pattern t)
    else
      match s with
      | [] => false
      | d :: s => (c = '_' || c.toLower = d.toLower) && like pattern s

def run (db : Table) : Query → Table × ExecResult
  | .insert n picFile topText botText =>
    if n ∈ db then (db, ⟨[], some "UNIQUE constraint failed: MEMES.ID".toList⟩)
    else (db.insert n ⟨picFile, topText, botText⟩, ⟨[], none⟩)
  | .update picFile topText botText uniqueId =>
    let n := (decodeNumber uniqueId).getD 0
    (if n ∈ db then db.insert n ⟨picFile, topText, botText⟩ else db, ⟨[], none⟩)
  | .select memeId => (db, ⟨(db[(decodeNumber memeId).getD 0]?).toList.map memeColumns, none⟩)
  | .list => (db, ⟨db.toList.map listedColumns, none⟩)
  | .search q => (db, ⟨(db.toList.filter (fun r => r.2.found like q)).map listedColumns, none⟩)
  | .delete memeId => (db.erase ((decodeNumber memeId).getD 0), ⟨[], none⟩)

def literal (ts : List Tok) (i : ℕ) : Text :=
  match ts[i]? with
  | some (.string value) => value
  | some (.number text) => text
  | _ => []

def readShape (ts : List Tok) : Query :=
  if ts.length = 14 then .insert ((decodeNumber (literal ts 5)).getD 0) (literal ts 7) (literal ts 9) (literal ts 11)
  else if ts.length = 13 then .select (literal ts 11)
  else if ts.length = 8 then .delete (literal ts 6)
  else if ts.length = 11 then .list
  else if ts.head? = some (Query.word "UPDATE") then
    .update (literal ts 5) (literal ts 9) (literal ts 13) (literal ts 17)
  else .search (literal ts 13).tail.dropLast

def exec (db : Table) (sql : Text) : Table × ExecResult :=
  if (readShape (tokens sql)).statement = tokens sql then run db (readShape (tokens sql))
  else (db, ⟨[], some "syntax error".toList⟩)

theorem readShape_statement (q : Query) : readShape q.statement = q := by
  cases q with
  | insert n picFile topText botText =>
    change Query.insert ((decodeNumber (decimal n)).getD 0) picFile topText botText = _
    rw [decodeNumber_decimal]
    rfl
  | update picFile topText botText uniqueId => rfl
  | select memeId => rfl
  | list => rfl
  | search searchQuery =>
    change Query.search ('%' :: (searchQuery ++ ['%'])).tail.dropLast = _
    rw [List.tail_cons, List.dropLast_concat]
  | delete memeId => rfl

theorem exec_statement (db : Table) {sql : Text} {q : Query} (h : tokens sql = q.statement) :
    exec db sql = run db q := by
  rw [exec, h, readShape_statement, if_pos rfl]

theorem lists_filter (db : Table) (p : StoredMeme → Bool) :
    Lists (db.toList.filter (fun r => p r.2)) (fun n => db[n]?) p := by
  constructor
  · have hdistinct := Std.TreeMap.distinct_keys_toList (t := db)
    rw [List.Nodup, List.pairwise_map]
    refine (hdistinct.imp ?_).filter _
    intro a b hne heq
    exact hne (Std.compare_eq_iff_eq.mpr heq)
  · intro n m
    rw [List.mem_filter, Std.TreeMap.mem_toList_iff_getElem?_eq_some]

theorem getElem?_insert_eq (db : Table) (n : ℕ) (m : StoredMeme) :
    (fun k => (db.insert n m)[k]?) = Function.update (fun k => db[k]?) n (some m) := by
  funext k
  simp only [Std.TreeMap.getElem?_insert, Function.update_apply, Std.compare_eq_iff_eq, @eq_comm ℕ k n]

theorem getElem?_erase_eq (db : Table) (n : ℕ) :
    (fun k => (db.erase n)[k]?) = Function.update (fun k => db[k]?) n none := by
  funext k
  simp only [Std.TreeMap.getElem?_erase, Function.update_apply, Std.compare_eq_iff_eq, @eq_comm ℕ k n]

theorem getElem?_eq_none_iff (db : Table) (n : ℕ) : db[n]? = none ↔ n ∉ db := by
  rw [Std.TreeMap.mem_iff_isSome_getElem?, Option.not_isSome_iff_eq_none]

theorem sqlite : Sqlite exec (fun db n => db[n]?) like where
  insert db sql n m _ h hnone := by
    have hmem : n ∉ db := (getElem?_eq_none_iff db n).mp hnone
    rw [exec_statement db h, run, if_neg hmem]
    exact ⟨getElem?_insert_eq db n m, rfl⟩
  insert_duplicate db sql n m _ h hsome := by
    have hmem : n ∈ db := by
      by_contra hnot
      exact hsome ((getElem?_eq_none_iff db n).mpr hnot)
    rw [exec_statement db h, run, if_pos hmem]
    exact ⟨rfl, by simp⟩
  update db sql n m h := by
    rw [exec_statement db h, run]
    simp only [decodeNumber_decimal, Option.getD_some, getElem?_eq_none_iff, and_true]
    split
    · exact getElem?_insert_eq db n m
    · rfl
  select db sql n h := by
    rw [exec_statement db h, run, decodeNumber_decimal]
    exact ⟨rfl, rfl⟩
  list db sql h := by
    rw [exec_statement db h, run]
    refine ⟨rfl, db.toList, ?_, rfl⟩
    have hlists := lists_filter db (fun _ => true)
    rwa [List.filter_true] at hlists
  search db sql q h := by
    rw [exec_statement db h, run]
    exact ⟨rfl, _, lists_filter db (StoredMeme.found like · q), rfl⟩
  delete db sql n h := by
    rw [exec_statement db h, run, decodeNumber_decimal]
    exact ⟨getElem?_erase_eq db n, rfl⟩

end Reference

end Bingit.Meme
