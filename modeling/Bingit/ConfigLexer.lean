import Bingit.ConfigTree

namespace Bingit.ConfigParser

inductive TokenType where
  | start | normal | startBlock | endBlock | comment | statementEnd | eof | error
  deriving DecidableEq, Repr

inductive TokenParserState where
  | initialWhitespace | singleQuote | doubleQuote | comment | normal
  deriving DecidableEq, Repr

abbrev Token := TokenType × Text

def isDelimiter (c : Char) : Bool :=
  c = ' ' || c = '\t' || c = '\n' || c = '\t' || c = ';' || c = '{' || c = '}'

def parseTokenFrom : TokenParserState → Text → Text → TokenType × Text × Text
  | state, value, [] =>
    (if state = .singleQuote ∨ state = .doubleQuote then .error else .eof, value, [])
  | .initialWhitespace, value, c :: input =>
    match c with
    | '{' => (.startBlock, [c], input)
    | '}' => (.endBlock, [c], input)
    | '#' => parseTokenFrom .comment [c] input
    | '"' => parseTokenFrom .doubleQuote [c] input
    | '\'' => parseTokenFrom .singleQuote [c] input
    | ';' => (.statementEnd, [c], input)
    | ' ' | '\t' | '\n' | '\r' => parseTokenFrom .initialWhitespace value input
    | _ => parseTokenFrom .normal (value ++ [c]) input
  | .singleQuote, value, c :: input =>
    if c = '\'' then (.normal, value ++ [c], input)
    else parseTokenFrom .singleQuote (value ++ [c]) input
  | .doubleQuote, value, c :: input =>
    if c = '"' then (.normal, value ++ [c], input)
    else parseTokenFrom .doubleQuote (value ++ [c]) input
  | .comment, value, c :: input =>
    if c = '\n' ∨ c = '\r' then (.comment, value, input)
    else parseTokenFrom .comment (value ++ [c]) input
  | .normal, value, c :: input =>
    -- `unget`: the delimiter stays in the stream
    if isDelimiter c then (.normal, value, c :: input)
    else parseTokenFrom .normal (value ++ [c]) input

def parseToken (input : Text) : TokenType × Text × Text := parseTokenFrom .initialWhitespace [] input

example : parseToken "  listen\r 80;".toList = (.normal, "listen\r".toList, " 80;".toList) := by decide

def isWhite (c : Char) : Bool := c = ' ' || c = '\t' || c = '\n' || c = '\r'

def isLineEnd (c : Char) : Bool := c = '\n' || c = '\r'

def isQuote (c : Char) : Bool := c = '\'' || c = '"'

def isSpecial (c : Char) : Bool :=
  isWhite c || isQuote c || c = '#' || c = ';' || c = '{' || c = '}'

def IsBare (w : Text) : Prop :=
  ∃ c cs, w = c :: cs ∧ isSpecial c = false ∧ ∀ d ∈ cs, isDelimiter d = false

def IsQuoted (w : Text) : Prop :=
  ∃ q body, w = q :: (body ++ [q]) ∧ isQuote q = true ∧ q ∉ body

def IsComment (v : Text) : Prop := ∃ cs, v = '#' :: cs ∧ ∀ c ∈ cs, isLineEnd c = false

inductive Lexeme : Text → TokenType → Text → Text → Prop
  | startBlock (rest : Text) : Lexeme ('{' :: rest) .startBlock ['{'] rest
  | endBlock (rest : Text) : Lexeme ('}' :: rest) .endBlock ['}'] rest
  | statementEnd (rest : Text) : Lexeme (';' :: rest) .statementEnd [';'] rest
  | bare {w : Text} {d : Char} (rest : Text) (hw : IsBare w) (hd : isDelimiter d = true) :
      Lexeme (w ++ d :: rest) .normal w (d :: rest)
  | quoted {w : Text} (rest : Text) (hw : IsQuoted w) : Lexeme (w ++ rest) .normal w rest
  | comment {v : Text} {c : Char} (rest : Text) (hv : IsComment v) (hc : isLineEnd c = true) :
      Lexeme (v ++ c :: rest) .comment v rest
  | nothingLeft : Lexeme [] .eof [] []
  | cutBare {w : Text} (hw : IsBare w) : Lexeme w .eof w []
  | cutComment {v : Text} (hv : IsComment v) : Lexeme v .eof v []
  | cutQuote {q : Char} {body : Text} (hq : isQuote q = true) (hb : q ∉ body) :
      Lexeme (q :: body) .error (q :: body) []

theorem normal_run {cs : Text} (hcs : ∀ d ∈ cs, isDelimiter d = false) (value input : Text) :
    parseTokenFrom .normal value (cs ++ input) = parseTokenFrom .normal (value ++ cs) input := by
  induction cs generalizing value with
  | nil => simp
  | cons c cs ih =>
    rw [List.cons_append, parseTokenFrom, hcs c (by simp)]
    simpa using ih (fun d hd => hcs d (by simp [hd])) (value ++ [c])

theorem comment_run {cs : Text} (hcs : ∀ d ∈ cs, isLineEnd d = false) (value input : Text) :
    parseTokenFrom .comment value (cs ++ input) = parseTokenFrom .comment (value ++ cs) input := by
  induction cs generalizing value with
  | nil => simp
  | cons c cs ih =>
    have hc : ¬ (c = '\n' ∨ c = '\r') := by simpa [isLineEnd] using hcs c (by simp)
    rw [List.cons_append, parseTokenFrom, if_neg hc]
    simpa using ih (fun d hd => hcs d (by simp [hd])) (value ++ [c])

def quoteState (q : Char) : TokenParserState := if q = '\'' then .singleQuote else .doubleQuote

theorem quote_step {q : Char} (hq : isQuote q = true) (value : Text) (c : Char) (input : Text) :
    parseTokenFrom (quoteState q) value (c :: input) =
      if c = q then (.normal, value ++ [c], input)
      else parseTokenFrom (quoteState q) (value ++ [c]) input := by
  have h : q = '\'' ∨ q = '"' := by simpa [isQuote] using hq
  rcases h with rfl | rfl
  · rfl
  · rfl

theorem quote_run {q : Char} (hq : isQuote q = true) {body : Text} (hb : q ∉ body) (value input : Text) :
    parseTokenFrom (quoteState q) value (body ++ input) =
      parseTokenFrom (quoteState q) (value ++ body) input := by
  induction body generalizing value with
  | nil => simp
  | cons c body ih =>
    have hc : c ≠ q := fun h => hb (by simp [h])
    rw [List.cons_append, quote_step hq, if_neg hc]
    simpa using ih (fun h => hb (by simp [h])) (value ++ [c])

theorem quote_open {q : Char} (hq : isQuote q = true) (input : Text) :
    parseToken (q :: input) = parseTokenFrom (quoteState q) [q] input := by
  have h : q = '\'' ∨ q = '"' := by simpa [isQuote] using hq
  rcases h with rfl | rfl
  · rfl
  · rfl

theorem bare_open {c : Char} (hc : isSpecial c = false) (input : Text) :
    parseToken (c :: input) = parseTokenFrom .normal [c] input := by
  simp only [isSpecial, isWhite, isQuote, Bool.or_eq_false_iff, decide_eq_false_iff_not] at hc
  simp only [parseToken, parseTokenFrom]
  split <;> simp_all

theorem white_skip {ws : Text} (hws : ∀ c ∈ ws, isWhite c = true) (input : Text) :
    parseToken (ws ++ input) = parseToken input := by
  induction ws with
  | nil => rfl
  | cons c ws ih =>
    have hc : ((c = ' ' ∨ c = '\t') ∨ c = '\n') ∨ c = '\r' := by simpa [isWhite] using hws c (by simp)
    have ih := ih (fun d hd => hws d (by simp [hd]))
    rcases hc with ((rfl | rfl) | rfl) | rfl <;> exact ih

theorem parseToken_of_lexeme {body : Text} {type : TokenType} {value rest : Text}
    (h : Lexeme body type value rest) : parseToken body = (type, value, rest) := by
  cases h with
  | startBlock | endBlock | statementEnd | nothingLeft => rfl
  | bare rest hw hd =>
    obtain ⟨c, cs, rfl, hc, hcs⟩ := hw
    rw [List.cons_append, bare_open hc, normal_run hcs, parseTokenFrom, if_pos hd]
    rfl
  | quoted rest hw =>
    obtain ⟨q, body, rfl, hq, hb⟩ := hw
    rw [List.cons_append, List.append_assoc, quote_open hq, quote_run hq hb]
    change parseTokenFrom (quoteState q) (q :: body) (q :: rest) = _
    rw [quote_step hq, if_pos rfl]
    rfl
  | comment rest hv hc =>
    obtain ⟨cs, rfl, hcs⟩ := hv
    have hopen (s : Text) : parseToken ('#' :: s) = parseTokenFrom .comment ['#'] s := rfl
    rw [List.cons_append, hopen, comment_run hcs, parseTokenFrom, if_pos (by simpa [isLineEnd] using hc)]
    rfl
  | cutBare hw =>
    obtain ⟨c, cs, rfl, hc, hcs⟩ := hw
    have h := normal_run hcs [c] []
    rw [List.append_nil] at h
    rw [bare_open hc, h]
    rfl
  | cutComment hv =>
    obtain ⟨cs, rfl, hcs⟩ := hv
    have h := comment_run hcs ['#'] []
    rw [List.append_nil] at h
    exact h
  | cutQuote hq hb =>
    rename_i q body
    have h := quote_run hq hb [q] []
    rw [List.append_nil] at h
    rw [quote_open hq, h]
    have hs : quoteState q = .singleQuote ∨ quoteState q = .doubleQuote := by
      by_cases hq' : q = '\'' <;> simp [quoteState, hq']
    rcases hs with hs | hs <;> rw [hs] <;> rfl

theorem exists_lexeme (body : Text) (h : ∀ c ∈ body.head?, isWhite c = false) :
    ∃ type value rest, Lexeme body type value rest := by
  cases body with
  | nil => exact ⟨_, _, _, .nothingLeft⟩
  | cons c s =>
    have hw : isWhite c = false := h c rfl
    by_cases hq : isQuote c = true
    · rcases Text.split_at_first (· = c) s with hs | ⟨body, q, rest, rfl, hb, rfl⟩
      · exact ⟨_, _, _, .cutQuote hq (fun hm => hs c hm rfl)⟩
      · refine ⟨_, _, _, by simpa using Lexeme.quoted rest ⟨q, body, rfl, hq, fun hm => hb q hm rfl⟩⟩
    · by_cases hspecial : isSpecial c = true
      · have hcases : ((c = '#' ∨ c = ';') ∨ c = '{') ∨ c = '}' := by
          simpa [isSpecial, hw, hq] using hspecial
        rcases hcases with ((rfl | rfl) | rfl) | rfl
        · rcases Text.split_at_first (fun d => isLineEnd d = true) s with hs | ⟨cs, d, rest, rfl, hcs, hd⟩
          · exact ⟨_, _, _, .cutComment ⟨s, rfl, by simpa using hs⟩⟩
          · exact ⟨_, _, _, .comment rest ⟨cs, rfl, by simpa using hcs⟩ hd⟩
        · exact ⟨_, _, _, .statementEnd s⟩
        · exact ⟨_, _, _, .startBlock s⟩
        · exact ⟨_, _, _, .endBlock s⟩
      · have hc : isSpecial c = false := by simpa using hspecial
        rcases Text.split_at_first (fun d => isDelimiter d = true) s with hs | ⟨cs, d, rest, rfl, hcs, hd⟩
        · exact ⟨_, _, _, .cutBare ⟨c, s, rfl, hc, by simpa using hs⟩⟩
        · exact ⟨_, _, _, .bare rest ⟨c, cs, rfl, hc, by simpa using hcs⟩ hd⟩

theorem parseToken_spec {input : Text} {type : TokenType} {value rest : Text}
    (h : parseToken input = (type, value, rest)) :
    ∃ ws body, input = ws ++ body ∧ (∀ c ∈ ws, isWhite c = true) ∧ Lexeme body type value rest := by
  have hsplit : ∃ ws body, input = ws ++ body ∧ (∀ c ∈ ws, isWhite c = true) ∧
      ∀ c ∈ body.head?, isWhite c = false := by
    rcases Text.split_at_first (fun c => isWhite c = false) input with hs | ⟨ws, c, body, rfl, hws, hc⟩
    · exact ⟨input, [], by simp, by simpa using hs, by simp⟩
    · exact ⟨ws, c :: body, rfl, by simpa using hws, by simpa using hc⟩
  obtain ⟨ws, body, rfl, hws, hb⟩ := hsplit
  obtain ⟨type', value', rest', hl⟩ := exists_lexeme body hb
  rw [white_skip hws, parseToken_of_lexeme hl] at h
  cases h
  exact ⟨ws, body, rfl, hws, hl⟩

theorem Lexeme.consumes {body : Text} {type : TokenType} {value rest : Text} (h : Lexeme body type value rest)
    (hmore : ¬ (type = .eof ∨ type = .error)) : ∃ used, used ≠ [] ∧ body = used ++ rest := by
  cases h with
  | startBlock => exact ⟨['{'], by simp, rfl⟩
  | endBlock => exact ⟨['}'], by simp, rfl⟩
  | statementEnd => exact ⟨[';'], by simp, rfl⟩
  | bare rest hw hd =>
    obtain ⟨c, cs, rfl, -, -⟩ := hw
    exact ⟨_, List.cons_ne_nil c cs, rfl⟩
  | quoted rest hw =>
    obtain ⟨q, body, rfl, -, -⟩ := hw
    exact ⟨_, List.cons_ne_nil q _, rfl⟩
  | comment rest hv hc => exact ⟨value ++ [_], by simp, List.append_cons _ _ _⟩
  | nothingLeft | cutBare | cutComment => exact absurd (.inl rfl) hmore
  | cutQuote => exact absurd (.inr rfl) hmore

theorem Lexeme.rest_lt {body : Text} {type : TokenType} {value rest : Text} (h : Lexeme body type value rest)
    (hmore : ¬ (type = .eof ∨ type = .error)) : rest.length < body.length := by
  obtain ⟨used, hused, rfl⟩ := h.consumes hmore
  have hpos := List.length_pos_of_ne_nil hused
  rw [List.length_append]
  omega

theorem parseToken_consumes {input : Text} {type : TokenType} {value rest : Text}
    (h : parseToken input = (type, value, rest)) (hmore : ¬ (type = .eof ∨ type = .error)) :
    ∃ used, used ≠ [] ∧ input = used ++ rest := by
  obtain ⟨ws, body, rfl, -, hl⟩ := parseToken_spec h
  obtain ⟨used, hused, rfl⟩ := hl.consumes hmore
  exact ⟨ws ++ used, by simp [hused], by simp⟩

theorem parseToken_rest_lt {input : Text} {type : TokenType} {value rest : Text}
    (h : parseToken input = (type, value, rest)) (hmore : ¬ (type = .eof ∨ type = .error)) :
    rest.length < input.length := by
  obtain ⟨ws, body, rfl, -, hl⟩ := parseToken_spec h
  have hlt := hl.rest_lt hmore
  rw [List.length_append]
  omega

theorem parseToken_ne_start {input : Text} {type : TokenType} {value rest : Text}
    (h : parseToken input = (type, value, rest)) : type ≠ .start := by
  obtain ⟨ws, body, -, -, hl⟩ := parseToken_spec h
  cases hl <;> simp

theorem parseToken_normal_text {input value rest : Text} (h : parseToken input = (.normal, value, rest)) :
    IsBare value ∨ IsQuoted value := by
  obtain ⟨ws, body, rfl, -, hl⟩ := parseToken_spec h
  cases hl with
  | bare rest hw hd => exact .inl hw
  | quoted rest hw => exact .inr hw

end Bingit.ConfigParser
