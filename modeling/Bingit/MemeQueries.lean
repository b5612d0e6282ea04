import Bingit.SqlTokens

namespace Bingit.Meme

open Text Sql

-- one constructor for each SQL text of the handler; the view and the edit page run the same one
inductive Query where
  | insert (uniqueId : ℕ) (picFile topText botText : Text)
  | update (picFile topText botText uniqueId : Text)
  | select (memeId : Text)
  | list
  | search (searchQuery : Text)
  | delete (memeId : Text)

namespace Query

def sql : Query → Text
  | .insert uniqueId picFile topText botText =>
    "INSERT INTO MEMES VALUES (".toList ++ decimal uniqueId ++ ", '".toList ++ picFile ++ "', '".toList ++
      topText ++ "', '".toList ++ botText ++ "');".toList
  | .update picFile topText botText uniqueId =>
    "UPDATE MEMES                            SET TEMPLATE = '".toList ++ picFile ++ "', TOP = '".toList ++
      topText ++ "', BOTTOM = '".toList ++ botText ++ "'                           WHERE ID = ".toList ++
      uniqueId ++ ";".toList
  | .select memeId => "SELECT TEMPLATE, TOP, BOTTOM from MEMES where ID='".toList ++ memeId ++ "';".toList
  | .list => "SELECT TEMPLATE, TOP, BOTTOM, ID FROM MEMES".toList ++ ";".toList
  | .search searchQuery =>
    "SELECT TEMPLATE, TOP, BOTTOM, ID FROM MEMES".toList ++ " WHERE TOP LIKE '%".toList ++ searchQuery ++
      "%' OR BOTTOM LIKE '%".toList ++ searchQuery ++ "%';".toList
  | .delete memeId => "DELETE FROM MEMES WHERE ID='".toList ++ memeId ++ "';".toList

def word (s : String) : Tok := .word s.toList

def symbol (c : Char) : Tok := .symbol [c]

def memeColumns : List Tok :=
  [word "SELECT", word "TEMPLATE", symbol ',', word "TOP", symbol ',', word "BOTTOM"]

/-- The tokens the text is meant to have. -/
def statement : Query → List Tok
  | .insert uniqueId picFile topText botText =>
    [word "INSERT", word "INTO", word "MEMES", word "VALUES", symbol '(', .number (decimal uniqueId), symbol ',',
      .string picFile, symbol ',', .string topText, symbol ',', .string botText, symbol ')', symbol ';']
  | .update picFile topText botText uniqueId =>
    [word "UPDATE", word "MEMES", word "SET", word "TEMPLATE", symbol '=', .string picFile, symbol ',',
      word "TOP", symbol '=', .string topText, symbol ',', word "BOTTOM", symbol '=', .string botText,
      word "WHERE", word "ID", symbol '=', .number uniqueId, symbol ';']
  | .select memeId =>
    memeColumns ++ [word "from", word "MEMES", word "where", word "ID", symbol '=', .string memeId, symbol ';']
  | .list => memeColumns ++ [symbol ',', word "ID", word "FROM", word "MEMES", symbol ';']
  | .search searchQuery =>
    memeColumns ++ [symbol ',', word "ID", word "FROM", word "MEMES", word "WHERE", word "TOP", word "LIKE",
      .string ('%' :: (searchQuery ++ ['%'])), word "OR", word "BOTTOM", word "LIKE",
      .string ('%' :: (searchQuery ++ ['%'])), symbol ';']
  | .delete memeId =>
    [word "DELETE", word "FROM", word "MEMES", word "WHERE", word "ID", symbol '=', .string memeId, symbol ';']

def userTexts : Query → List Text
  | .insert _ picFile topText botText => [picFile, topText, botText]
  | .update picFile topText botText uniqueId => [picFile, topText, botText, uniqueId]
  | .select memeId => [memeId]
  | .list => []
  | .search searchQuery => [searchQuery]
  | .delete memeId => [memeId]

def KeepsUserText (q : Query) : Prop := tokens (cString q.sql) = q.statement

def Harmless : Query → Prop
  | .insert _ picFile topText botText => '\'' ∉ picFile ∧ '\'' ∉ topText ∧ '\'' ∉ botText
  | .update picFile topText botText uniqueId =>
    '\'' ∉ picFile ∧ '\'' ∉ topText ∧ '\'' ∉ botText ∧ IsNumber uniqueId
  | .select memeId => '\'' ∉ memeId
  | .list => True
  | .search searchQuery => '\'' ∉ searchQuery
  | .delete memeId => '\'' ∉ memeId

theorem nul_notMem_sql {q : Query} (h : ∀ t ∈ q.userTexts, nul ∉ t) : nul ∉ q.sql := by
  have hdecimal (n : ℕ) : nul ∉ decimal n := notMem_decimal (by decide) n
  cases q with
  | insert uniqueId picFile topText botText =>
    simp only [userTexts, List.forall_mem_cons] at h
    unfold sql
    simp only [List.mem_append, h, hdecimal, or_false]
    repeat rw [String.toList_ofList]
    decide +kernel
  | update picFile topText botText uniqueId =>
    simp only [userTexts, List.forall_mem_cons] at h
    unfold sql
    simp only [List.mem_append, h, or_false]
    repeat rw [String.toList_ofList]
    decide +kernel
  | select memeId =>
    simp only [userTexts, List.forall_mem_cons] at h
    unfold sql
    simp only [List.mem_append, h, or_false]
    repeat rw [String.toList_ofList]
    decide +kernel
  | list =>
    unfold sql
    repeat rw [String.toList_ofList]
    decide +kernel
  | search searchQuery =>
    simp only [userTexts, List.forall_mem_cons] at h
    unfold sql
    simp only [List.mem_append, h, or_false]
    repeat rw [String.toList_ofList]
    decide +kernel
  | delete memeId =>
    simp only [userTexts, List.forall_mem_cons] at h
    unfold sql
    simp only [List.mem_append, h, or_false]
    repeat rw [String.toList_ofList]
    decide +kernel

theorem tokens_quoted_iff (steps : ℕ) (before : List Tok) {s t rest : Text} {after : List Tok}
    (hs : ∀ fuel, tokensFrom (fuel + steps) s = before ++ tokensFrom fuel ('\'' :: (t ++ '\'' :: rest)))
    (hrest : rest.head? ≠ some '\'') :
    tokens s = before ++ .string t :: after ↔ '\'' ∉ t ∧ tokens rest = after := by
  rw [tokens_evaluated steps before hs, List.append_right_inj, tokens_string_iff hrest]
  exact and_congr_right fun _ => eq_comm

theorem sql_select_iff (memeId : Text) :
    tokens (sql (.select memeId)) = statement (.select memeId) ↔ Harmless (.select memeId) := by
  unfold sql
  repeat rw [String.toList_ofList]
  simp only [List.append_assoc]
  refine (tokens_quoted_iff 18 (memeColumns ++ [word "from", word "MEMES", word "where", word "ID", symbol '='])
    (fun _ => rfl) (by decide)).trans ?_
  exact and_iff_left rfl

theorem sql_list : tokens (sql .list) = statement .list := by
  unfold sql
  repeat rw [String.toList_ofList]
  rfl

theorem sql_delete_iff (memeId : Text) :
    tokens (sql (.delete memeId)) = statement (.delete memeId) ↔ Harmless (.delete memeId) := by
  unfold sql
  repeat rw [String.toList_ofList]
  simp only [List.append_assoc]
  refine (tokens_quoted_iff 10 [word "DELETE", word "FROM", word "MEMES", word "WHERE", word "ID", symbol '=']
    (fun _ => rfl) (by decide)).trans ?_
  exact and_iff_left rfl

theorem sql_search_iff (searchQuery : Text) :
    tokens (sql (.search searchQuery)) = statement (.search searchQuery) ↔ Harmless (.search searchQuery) := by
  obtain ⟨pattern, hpattern⟩ : ∃ pattern, pattern = '%' :: (searchQuery ++ ['%']) := ⟨_, rfl⟩
  have hquote : '\'' ∉ pattern ↔ '\'' ∉ searchQuery := by simp [hpattern]
  have htext : sql (.search searchQuery) = "SELECT TEMPLATE, TOP, BOTTOM, ID FROM MEMES WHERE TOP LIKE ".toList ++
      '\'' :: (pattern ++ '\'' :: (" OR BOTTOM LIKE ".toList ++ '\'' :: (pattern ++ '\'' :: [';']))) := by
    unfold sql
    repeat rw [String.toList_ofList]
    simp [hpattern]
  rw [htext, statement, ← hpattern]
  repeat rw [String.toList_ofList]
  refine (tokens_quoted_iff 23 (memeColumns ++ [symbol ',', word "ID", word "FROM", word "MEMES", word "WHERE",
    word "TOP", word "LIKE"]) (fun _ => rfl) (by simp)).trans ?_
  refine (and_congr_right fun _ => tokens_quoted_iff 7 [word "OR", word "BOTTOM", word "LIKE"] (fun _ => rfl)
    (by simp)).trans ?_
  rw [hquote]
  exact ⟨fun h => h.1, fun h => ⟨h, h, rfl⟩⟩

theorem tokens_insert (uniqueId : ℕ) (rest : Text) :
    tokens ("INSERT INTO MEMES VALUES (".toList ++ (decimal uniqueId ++ (", '".toList ++ rest))) =
      [word "INSERT", word "INTO", word "MEMES", word "VALUES", symbol '(', .number (decimal uniqueId)] ++
        tokens (", '".toList ++ rest) := by
  repeat rw [String.toList_ofList]
  rw [tokens_evaluated 9 [word "INSERT", word "INTO", word "MEMES", word "VALUES", symbol '(']
    (r := decimal uniqueId ++ ',' :: ([' ', '\''] ++ rest)) (fun _ => rfl)]
  rw [tokens_number (isNumber_decimal uniqueId) terminator_comma]
  rfl

theorem sql_insert_iff (uniqueId : ℕ) (picFile topText botText : Text) :
    tokens (sql (.insert uniqueId picFile topText botText)) =
      statement (.insert uniqueId picFile topText botText) ↔
        Harmless (.insert uniqueId picFile topText botText) := by
  unfold sql
  simp only [List.append_assoc]
  rw [tokens_insert]
  repeat rw [String.toList_ofList]
  apply (List.append_right_inj _).trans
  apply (tokens_quoted_iff 2 [symbol ','] (fun _ => rfl) (by simp)).trans
  apply and_congr_right
  intro _
  apply (tokens_quoted_iff 2 [symbol ','] (fun _ => rfl) (by simp)).trans
  apply and_congr_right
  intro _
  apply (tokens_quoted_iff 2 [symbol ','] (fun _ => rfl) (by simp)).trans
  exact and_iff_left rfl

theorem sql_update_iff (picFile topText botText uniqueId : Text) :
    tokens (sql (.update picFile topText botText uniqueId)) =
      statement (.update picFile topText botText uniqueId) ↔
        Harmless (.update picFile topText botText uniqueId) := by
  unfold sql
  repeat rw [String.toList_ofList]
  simp only [List.append_assoc]
  refine (tokens_quoted_iff 10 [word "UPDATE", word "MEMES", word "SET", word "TEMPLATE", symbol '=']
    (fun _ => rfl) (by simp)).trans ?_
  apply and_congr_right
  intro _
  apply (tokens_quoted_iff 6 [symbol ',', word "TOP", symbol '='] (fun _ => rfl) (by simp)).trans
  apply and_congr_right
  intro _
  apply (tokens_quoted_iff 6 [symbol ',', word "BOTTOM", symbol '='] (fun _ => rfl) (by simp)).trans
  apply and_congr_right
  intro _
  rw [tokens_evaluated 6 [word "WHERE", word "ID", symbol '='] (r := ' ' :: (uniqueId ++ [';'])) (fun _ => rfl)]
  apply (List.append_right_inj [word "WHERE", word "ID", symbol '=']).trans
  exact tokens_blank_number_iff uniqueId

theorem keepsUserText_iff {q : Query} (h : ∀ t ∈ q.userTexts, nul ∉ t) : q.KeepsUserText ↔ q.Harmless := by
  unfold KeepsUserText
  rw [cString_of_notMem (nul_notMem_sql h)]
  cases q with
  | insert uniqueId picFile topText botText => exact sql_insert_iff uniqueId picFile topText botText
  | update picFile topText botText uniqueId => exact sql_update_iff picFile topText botText uniqueId
  | select memeId => exact sql_select_iff memeId
  | list => exact iff_of_true sql_list trivial
  | search searchQuery => exact sql_search_iff searchQuery
  | delete memeId => exact sql_delete_iff memeId

end Query

end Bingit.Meme
