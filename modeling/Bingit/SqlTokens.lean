import Bingit.Text

namespace Bingit.Sql

inductive Tok where
  | word (text : Text)
  | quotedName (name : Text)
  | number (text : Text)
  | string (value : Text)
  | blob (text : Text)
  | variable (text : Text)
  | symbol (text : Text)
  | illegal (text : Text)
  deriving DecidableEq, Repr

def isBlank (c : Char) : Bool := c = ' ' || c = '\t' || c = '\n' || c = Char.ofNat 12 || c = '\r'

def isHex (c : Char) : Bool := c.isDigit || ('a' ≤ c && c ≤ 'f') || ('A' ≤ c && c ≤ 'F')

def isIdStart (c : Char) : Bool := c.isAlpha || c = '_' || 128 ≤ c.toNat

def isIdChar (c : Char) : Bool := isIdStart c || c.isDigit || c = '$'

/-- A doubled quote stands for one. -/
def scanQuoted (q : Char) : Text → Option (Text × Text)
  | [] => none
  | c :: s =>
    if c = q then
      match s with
      | [] => some ([], [])
      | d :: s' => if d = q then (scanQuoted q s').map (fun r => (q :: r.1, r.2)) else some ([], d :: s')
    else (scanQuoted q s).map (fun r => (c :: r.1, r.2))

def quotedToken (q : Char) (s : Text) : Tok × Text :=
  match scanQuoted q s with
  | some (v, rest) => (if q = '\'' then .string v else .quotedName v, rest)
  | none => (.illegal (q :: s), [])

def bracketToken (s : Text) : Tok × Text :=
  match s.dropWhile (· ≠ ']') with
  | [] => (.illegal ('[' :: s), [])
  | _ :: rest => (.quotedName (s.takeWhile (· ≠ ']')), rest)

def blobToken (c : Char) (s : Text) : Tok × Text :=
  let digits := s.takeWhile (· ≠ '\'')
  match s.dropWhile (· ≠ '\'') with
  | [] => (.illegal (c :: '\'' :: s), [])
  | _ :: rest => (if digits.all isHex && digits.length % 2 = 0 then .blob digits else .illegal digits, rest)

def scanFraction : Text → Text × Text
  | [] => ([], [])
  | c :: s => if c = '.' then (c :: s.takeWhile Char.isDigit, s.dropWhile Char.isDigit) else ([], c :: s)

def scanSign : Text → Text × Text
  | [] => ([], [])
  | c :: s => if c = '+' || c = '-' then ([c], s) else ([], c :: s)

def scanExponent : Text → Text × Text
  | [] => ([], [])
  | c :: s =>
    if (c = 'e' || c = 'E') && (scanSign s).2.head?.any Char.isDigit
    then (c :: (scanSign s).1 ++ (scanSign s).2.takeWhile Char.isDigit, (scanSign s).2.dropWhile Char.isDigit)
    else ([], c :: s)

def isHexNumber (s : Text) : Bool :=
  s.head? = some '0' && (s.tail.head? = some 'x' || s.tail.head? = some 'X') && s.tail.tail.head?.any isHex

def scanNumber (s : Text) : Text × Text :=
  if isHexNumber s then (s.take 2 ++ (s.drop 2).takeWhile isHex, (s.drop 2).dropWhile isHex)
  else
    let fraction := scanFraction (s.dropWhile Char.isDigit)
    let exponent := scanExponent fraction.2
    (s.takeWhile Char.isDigit ++ fraction.1 ++ exponent.1, exponent.2)

/-- A number that runs into an identifier is no token. -/
def numberToken (s : Text) : Tok × Text :=
  let number := scanNumber s
  let junk := number.2.takeWhile isIdChar
  (if junk = [] then .number number.1 else .illegal (number.1 ++ junk), number.2.dropWhile isIdChar)

def isNumberStart (s : Text) : Bool :=
  s.head?.any Char.isDigit || (s.head? = some '.' && s.tail.head?.any Char.isDigit)

def variableToken (c : Char) (s : Text) : Tok × Text :=
  let name := s.takeWhile isIdChar
  (if name = [] && c ≠ '?' then .illegal [c] else .variable (c :: name), s.dropWhile isIdChar)

def longSymbols : List Text :=
  ["->>", "->", "==", "<=", "<>", "<<", ">=", ">>", "!=", "||"].map String.toList

def symbolToken (c : Char) (s : Text) : Tok × Text :=
  match longSymbols.find? (fun symbol => symbol.isPrefixOf (c :: s)) with
  | some symbol => (.symbol symbol, s.drop (symbol.length - 1))
  | none => (if "();+*%=<>|,&~./-".toList.contains c then .symbol [c] else .illegal [c], s)

def skipComment : Text → Text
  | [] => []
  | c :: s => if c = '*' && s.head? = some '/' then s.tail else skipComment s

def emit (r : Tok × Text) : Option Tok × Text := (some r.1, r.2)

def token (c : Char) (s : Text) : Option Tok × Text :=
  if isBlank c then (none, s.dropWhile Text.isSpace)
  else if c = '-' && s.head? = some '-' then (none, s.dropWhile (· ≠ '\n'))
  else if c = '/' && s.head? = some '*' && s.tail ≠ [] then (none, skipComment s.tail)
  else if c = '\'' || c = '"' || c = Char.ofNat 96 then emit (quotedToken c s)
  else if c = '[' then emit (bracketToken s)
  else if isNumberStart (c :: s) then emit (numberToken (c :: s))
  else if (c = 'x' || c = 'X') && s.head? = some '\'' then emit (blobToken c s.tail)
  else if isIdStart c then (some (.word (c :: s.takeWhile isIdChar)), s.dropWhile isIdChar)
  else if "?$@:#".toList.contains c then emit (variableToken c s)
  else emit (symbolToken c s)

def tokensFrom : ℕ → Text → List Tok
  | 0, _ => []
  | _, [] => []
  | fuel + 1, c :: s =>
    match token c s with
    | (t, rest) => t.toList ++ tokensFrom fuel rest

def tokens (sql : Text) : List Tok := tokensFrom sql.length sql

theorem length_dropWhile_le (p : Char → Bool) (s : Text) : (s.dropWhile p).length ≤ s.length :=
  (List.dropWhile_suffix p).length_le

theorem scanQuoted_le {q : Char} {s v rest : Text} (h : scanQuoted q s = some (v, rest)) :
    rest.length ≤ s.length := by
  fun_induction scanQuoted q s generalizing v rest with
  | case1 => simp at h
  | case2 => simp_all
  | case3 s' ih =>
    obtain ⟨r, hr, he⟩ := Option.map_eq_some_iff.mp h
    have := ih hr
    simp only [Prod.mk.injEq] at he
    simp only [List.length_cons, ← he.2]
    omega
  | case4 => simp_all
  | case5 c s hc ih =>
    obtain ⟨r, hr, he⟩ := Option.map_eq_some_iff.mp h
    have := ih hr
    simp only [Prod.mk.injEq] at he
    simp only [List.length_cons, ← he.2]
    omega

theorem quotedToken_le (q : Char) (s : Text) : (quotedToken q s).2.length ≤ s.length := by
  rw [quotedToken]
  split
  · rename_i h
    exact scanQuoted_le h
  · simp

theorem bracketToken_le (s : Text) : (bracketToken s).2.length ≤ s.length := by
  have := length_dropWhile_le (· ≠ ']') s
  rw [bracketToken]
  split
  · simp
  · rename_i h
    rw [h, List.length_cons] at this
    simp only
    omega

theorem blobToken_le (c : Char) (s : Text) : (blobToken c s).2.length ≤ s.length := by
  have := length_dropWhile_le (· ≠ '\'') s
  simp only [blobToken]
  split
  · simp
  · rename_i h
    rw [h, List.length_cons] at this
    simp only
    omega

theorem scanFraction_append (s : Text) : (scanFraction s).1 ++ (scanFraction s).2 = s := by
  cases s with
  | nil => rfl
  | cons c s =>
    rw [scanFraction]
    split_ifs
    · simp
    · rfl

theorem scanSign_append (s : Text) : (scanSign s).1 ++ (scanSign s).2 = s := by
  cases s with
  | nil => rfl
  | cons c s =>
    rw [scanSign]
    split_ifs <;> rfl

theorem scanExponent_append (s : Text) : (scanExponent s).1 ++ (scanExponent s).2 = s := by
  cases s with
  | nil => rfl
  | cons c s =>
    rw [scanExponent]
    split_ifs
    · simp [scanSign_append]
    · rfl

theorem scanNumber_append (s : Text) : (scanNumber s).1 ++ (scanNumber s).2 = s := by
  rw [scanNumber]
  split_ifs
  · simp
  · simp [scanFraction_append, scanExponent_append]

theorem isDigit_or_dot_of_isNumberStart {c : Char} {s : Text} (h : isNumberStart (c :: s) = true) :
    c.isDigit = true ∨ c = '.' := by
  simp only [isNumberStart, Bool.or_eq_true, Bool.and_eq_true, decide_eq_true_eq] at h
  rcases h with h | h
  · exact .inl (by simpa using h)
  · exact .inr (by simpa using h.1)

theorem scanNumber_ne_nil {c : Char} {s : Text} (h : isNumberStart (c :: s) = true) :
    (scanNumber (c :: s)).1 ≠ [] := by
  rw [scanNumber]
  split_ifs
  · simp
  · rcases isDigit_or_dot_of_isNumberStart h with hc | rfl
    · simp [List.takeWhile_cons_of_pos hc]
    · simp [List.dropWhile_cons_of_neg, scanFraction]

theorem numberToken_le {c : Char} {s : Text} (h : isNumberStart (c :: s) = true) :
    (numberToken (c :: s)).2.length ≤ s.length := by
  have happend := congrArg List.length (scanNumber_append (c :: s))
  have hdrop := length_dropWhile_le isIdChar (scanNumber (c :: s)).2
  have hpos := List.length_pos_of_ne_nil (scanNumber_ne_nil h)
  simp only [List.length_append, List.length_cons] at happend
  simp only [numberToken]
  omega

theorem symbolToken_le (c : Char) (s : Text) : (symbolToken c s).2.length ≤ s.length := by
  rw [symbolToken]
  split <;> simp

theorem skipComment_le (s : Text) : (skipComment s).length ≤ s.length := by
  induction s with
  | nil => rfl
  | cons c s ih =>
    rw [skipComment]
    split_ifs
    · simp only [List.length_tail, List.length_cons]; omega
    · simp only [List.length_cons]; omega

theorem token_cases {motive : Option Tok × Text → Prop} (c : Char) (s : Text)
    (blank : motive (none, s.dropWhile Text.isSpace))
    (lineComment : motive (none, s.dropWhile (· ≠ '\n')))
    (blockComment : motive (none, skipComment s.tail))
    (quoted : motive (emit (quotedToken c s)))
    (bracket : motive (emit (bracketToken s)))
    (number : isNumberStart (c :: s) = true → motive (emit (numberToken (c :: s))))
    (blob : motive (emit (blobToken c s.tail)))
    (word : motive (some (.word (c :: s.takeWhile isIdChar)), s.dropWhile isIdChar))
    (bind : motive (emit (variableToken c s)))
    (symbol : motive (emit (symbolToken c s))) : motive (token c s) := by
  unfold token
  apply iteInduction (fun _ => blank)
  intro _
  apply iteInduction (fun _ => lineComment)
  intro _
  apply iteInduction (fun _ => blockComment)
  intro _
  apply iteInduction (fun _ => quoted)
  intro _
  apply iteInduction (fun _ => bracket)
  intro _
  apply iteInduction number
  intro _
  apply iteInduction (fun _ => blob)
  intro _
  apply iteInduction (fun _ => word)
  intro _
  exact iteInduction (fun _ => bind) (fun _ => symbol)

theorem token_le (c : Char) (s : Text) : (token c s).2.length ≤ s.length := by
  have htail : s.tail.length ≤ s.length := by simp
  apply token_cases (motive := fun r => r.2.length ≤ s.length) c s
  · exact length_dropWhile_le _ s
  · exact length_dropWhile_le _ s
  · exact (skipComment_le _).trans htail
  · exact quotedToken_le c s
  · exact bracketToken_le s
  · exact numberToken_le
  · exact (blobToken_le c _).trans htail
  · exact length_dropWhile_le _ s
  · exact length_dropWhile_le _ s
  · exact symbolToken_le c s

theorem tokensFrom_fuel {fuel fuel' : ℕ} {sql : Text} (h : sql.length ≤ fuel) (h' : sql.length ≤ fuel') :
    tokensFrom fuel sql = tokensFrom fuel' sql := by
  induction fuel generalizing fuel' sql with
  | zero =>
    obtain rfl : sql = [] := List.eq_nil_of_length_eq_zero (by omega)
    cases fuel' <;> rfl
  | succ fuel ih =>
    cases sql with
    | nil => cases fuel' <;> rfl
    | cons c s =>
      rw [List.length_cons] at h h'
      obtain ⟨fuel', rfl⟩ : ∃ k, fuel' = k + 1 := ⟨fuel' - 1, by omega⟩
      have hle := token_le c s
      simp only [tokensFrom]
      rw [ih (by omega) (show (token c s).2.length ≤ fuel' by omega)]

@[simp] theorem tokens_nil : tokens [] = [] := rfl

theorem tokens_cons {c : Char} {s rest : Text} {t : Option Tok} (h : token c s = (t, rest)) :
    tokens (c :: s) = t.toList ++ tokens rest := by
  have hle := token_le c s
  rw [h] at hle
  rw [tokens, List.length_cons, tokensFrom, h]
  exact congrArg _ (tokensFrom_fuel hle le_rfl)

theorem tokens_evaluated (steps : ℕ) (before : List Tok) {s r : Text}
    (h : ∀ fuel, tokensFrom (fuel + steps) s = before ++ tokensFrom fuel r) :
    tokens s = before ++ tokens r := by
  have hs : tokens s = tokensFrom (s.length + r.length + steps) s := tokensFrom_fuel le_rfl (by omega)
  have hr : tokens r = tokensFrom (s.length + r.length) r := tokensFrom_fuel le_rfl (by omega)
  rw [hs, hr, h]

theorem scanQuoted_other {q c : Char} (hc : c ≠ q) (s : Text) :
    scanQuoted q (c :: s) = (scanQuoted q s).map (fun r => (c :: r.1, r.2)) := by
  rw [scanQuoted.eq_def]
  simp only [if_neg hc]

theorem scanQuoted_pair (q : Char) (s : Text) :
    scanQuoted q (q :: q :: s) = (scanQuoted q s).map (fun r => (q :: r.1, r.2)) := by
  simp [scanQuoted]

theorem scanQuoted_close {q : Char} {s : Text} (hs : s.head? ≠ some q) :
    scanQuoted q (q :: s) = some ([], s) := by
  cases s with
  | nil => simp [scanQuoted]
  | cons d s =>
    have hd : d ≠ q := by simpa using hs
    simp [scanQuoted, hd]

theorem scanQuoted_plain {q : Char} {t rest : Text} (ht : q ∉ t) (hrest : rest.head? ≠ some q) :
    scanQuoted q (t ++ q :: rest) = some (t, rest) := by
  induction t with
  | nil => exact scanQuoted_close hrest
  | cons c t ih =>
    have hc : c ≠ q := fun hc => ht (by simp [hc])
    rw [List.cons_append, scanQuoted_other hc, ih (fun h => ht (by simp [h]))]
    rfl

theorem value_of_pair {q : Char} {rest : Text} (hrest : rest.head? ≠ some q) {v r : Text}
    (h : scanQuoted q (q :: q :: rest) = some (v, r)) : ∃ d w, d ≠ q ∧ v = q :: d :: w := by
  rw [scanQuoted_pair] at h
  obtain ⟨w, hw, he⟩ := Option.map_eq_some_iff.mp h
  obtain ⟨rfl, -⟩ := Prod.mk.inj he
  cases rest with
  | nil => simp [scanQuoted] at hw
  | cons d rest =>
    have hd : d ≠ q := by simpa using hrest
    rw [scanQuoted_other hd] at hw
    obtain ⟨w', -, rfl⟩ := Option.map_eq_some_iff.mp hw
    exact ⟨d, _, hd, rfl⟩

theorem scanQuoted_ne_replicate {q : Char} {rest : Text} (hrest : rest.head? ≠ some q) (u : Text) (k : ℕ)
    {v r : Text} (h : scanQuoted q (u ++ q :: rest) = some (v, r)) : v ≠ List.replicate (k + 1) q ++ u := by
  induction hn : u.length using Nat.strong_induction_on generalizing u k v r with
  | _ n ih =>
    match u with
    | [] =>
      rw [List.nil_append, scanQuoted_close hrest] at h
      obtain ⟨rfl, -⟩ := Prod.mk.inj (Option.some.inj h)
      simp [List.replicate_succ]
    | c :: u =>
      by_cases hc : c = q
      · subst hc
        match u with
        | [] =>
          -- the closing quote pairs with the last one of `u` and the value goes on into `rest`
          obtain ⟨d, w, hd, rfl⟩ := value_of_pair hrest h
          cases k <;> simp [List.replicate_succ, hd]
        | d :: u =>
          by_cases hd : d = c
          · subst hd
            rw [List.cons_append, List.cons_append, scanQuoted_pair] at h
            obtain ⟨w, hw, he⟩ := Option.map_eq_some_iff.mp h
            obtain ⟨rfl, -⟩ := Prod.mk.inj he
            have hshort := ih u.length (by simp only [List.length_cons] at hn; omega) u (k + 1) hw rfl
            intro he
            rw [List.replicate_succ, List.cons_append, List.cons.injEq] at he
            apply hshort
            rw [he.2]
            simp [List.replicate_succ']
          · rw [List.cons_append, List.cons_append, scanQuoted_close (by simpa using hd)] at h
            obtain ⟨rfl, -⟩ := Prod.mk.inj (Option.some.inj h)
            simp [List.replicate_succ]
      · rw [List.cons_append, scanQuoted_other hc] at h
        obtain ⟨w, -, he⟩ := Option.map_eq_some_iff.mp h
        obtain ⟨rfl, -⟩ := Prod.mk.inj he
        simp [List.replicate_succ, hc]

theorem scanQuoted_eq_self_iff {q : Char} {t rest : Text} (hrest : rest.head? ≠ some q) {r : Text} :
    scanQuoted q (t ++ q :: rest) = some (t, r) ↔ q ∉ t ∧ r = rest := by
  constructor
  · intro h
    have ht : q ∉ t := by
      intro ht
      rcases Text.split_at_first (· = q) t with hnone | ⟨before, c, after, rfl, hbefore, rfl⟩
      · exact hnone q ht rfl
      · clear ht
        induction before with
        | nil =>
          rw [List.nil_append, List.cons_append] at h
          cases after with
          | nil =>
            obtain ⟨d, w, -, hv⟩ := value_of_pair hrest h
            simp at hv
          | cons d after =>
            by_cases hd : d = c
            · subst hd
              rw [List.cons_append, scanQuoted_pair] at h
              obtain ⟨w, hw, he⟩ := Option.map_eq_some_iff.mp h
              obtain ⟨hv, -⟩ := Prod.mk.inj he
              exact scanQuoted_ne_replicate hrest after 0 hw (by simpa using hv)
            · rw [List.cons_append, scanQuoted_close (by simpa using hd)] at h
              simp at h
        | cons d before ih =>
          have hd : d ≠ c := hbefore d (by simp)
          rw [List.cons_append, List.cons_append, scanQuoted_other hd] at h
          obtain ⟨w, hw, he⟩ := Option.map_eq_some_iff.mp h
          obtain ⟨hv, rfl⟩ := Prod.mk.inj he
          refine ih ?_ (fun e hm => hbefore e (by simp [hm]))
          rw [hw, ← (List.cons.inj hv).2]
    refine ⟨ht, ?_⟩
    rw [scanQuoted_plain ht hrest] at h
    exact (Prod.mk.inj (Option.some.inj h)).2.symm
  · rintro ⟨ht, rfl⟩
    exact scanQuoted_plain ht hrest

theorem tokens_string_iff {t rest : Text} (hrest : rest.head? ≠ some '\'') {ts : List Tok} :
    tokens ('\'' :: (t ++ '\'' :: rest)) = .string t :: ts ↔ '\'' ∉ t ∧ ts = tokens rest := by
  have htoken : token '\'' (t ++ '\'' :: rest) = emit (quotedToken '\'' (t ++ '\'' :: rest)) := rfl
  rw [tokens_cons htoken, quotedToken]
  cases hs : scanQuoted '\'' (t ++ '\'' :: rest) with
  | none =>
    simp only [Option.toList_some, List.singleton_append, List.cons.injEq, reduceCtorEq, false_and,
      false_iff, not_and]
    intro ht
    rw [scanQuoted_plain ht hrest] at hs
    contradiction
  | some r =>
    obtain ⟨v, r⟩ := r
    simp only [if_pos, Option.toList_some, List.singleton_append, List.cons.injEq, Tok.string.injEq]
    constructor
    · rintro ⟨rfl, rfl⟩
      obtain ⟨ht, rfl⟩ := (scanQuoted_eq_self_iff hrest).mp hs
      exact ⟨ht, rfl⟩
    · rintro ⟨ht, rfl⟩
      rw [scanQuoted_plain ht hrest] at hs
      obtain ⟨rfl, rfl⟩ := Prod.mk.inj (Option.some.inj hs)
      exact ⟨rfl, rfl⟩

def IsNumber (t : Text) : Prop := isNumberStart t = true ∧ numberToken t = (.number t, [])

structure Terminator (e : Char) : Prop where
  idChar : isIdChar e = false
  hex : isHex e = false
  digit : e.isDigit = false
  mark : e ≠ 'x' ∧ e ≠ 'X' ∧ e ≠ '.' ∧ e ≠ '+' ∧ e ≠ '-'

theorem terminator_semicolon : Terminator ';' := ⟨rfl, rfl, rfl, by decide⟩

theorem terminator_comma : Terminator ',' := ⟨rfl, rfl, rfl, by decide⟩

theorem takeWhile_stop {p : Char → Bool} {e : Char} (hp : p e = false) (s r : Text) :
    (s ++ e :: r).takeWhile p = s.takeWhile p := by
  induction s with
  | nil => simp [hp]
  | cons c s ih => cases hc : p c <;> simp [hc, ih]

theorem dropWhile_stop {p : Char → Bool} {e : Char} (hp : p e = false) (s r : Text) :
    (s ++ e :: r).dropWhile p = s.dropWhile p ++ e :: r := by
  induction s with
  | nil => simp [hp]
  | cons c s ih => cases hc : p c <;> simp [hc, ih]

theorem any_head_stop {p : Char → Bool} {e : Char} (hp : p e = false) (s r : Text) :
    (s ++ e :: r).head?.any p = s.head?.any p := by
  cases s <;> simp [hp]

section Terminator

variable {e : Char} (he : Terminator e) (s r : Text)
include he

theorem scanFraction_stop : scanFraction (s ++ e :: r) = ((scanFraction s).1, (scanFraction s).2 ++ e :: r) := by
  cases s with
  | nil => simp [scanFraction, he.mark]
  | cons c s =>
    rw [List.cons_append, scanFraction, scanFraction, takeWhile_stop he.digit, dropWhile_stop he.digit]
    split_ifs <;> rfl

theorem scanSign_stop : scanSign (s ++ e :: r) = ((scanSign s).1, (scanSign s).2 ++ e :: r) := by
  cases s with
  | nil => simp [scanSign, he.mark]
  | cons c s =>
    rw [List.cons_append, scanSign, scanSign]
    split_ifs <;> rfl

theorem scanExponent_stop : scanExponent (s ++ e :: r) = ((scanExponent s).1, (scanExponent s).2 ++ e :: r) := by
  cases s with
  | nil =>
    have hid : e ≠ 'e' ∧ e ≠ 'E' := by constructor <;> rintro rfl <;> exact absurd he.idChar (by decide)
    simp [scanExponent, hid]
  | cons c s =>
    rw [List.cons_append, scanExponent, scanExponent, scanSign_stop he]
    simp only [any_head_stop he.digit, takeWhile_stop he.digit, dropWhile_stop he.digit]
    split_ifs <;> rfl

theorem isHexNumber_stop : isHexNumber (s ++ e :: r) = isHexNumber s := by
  match s with
  | [] =>
    have h0 : e ≠ '0' := by rintro rfl; exact absurd he.digit (by decide)
    simp [isHexNumber, h0]
  | [c] => simp [isHexNumber, he.mark]
  | [c, d] => simp [isHexNumber, he.hex]
  | c :: d :: f :: s => rfl

theorem isNumberStart_stop : isNumberStart (s ++ e :: r) = isNumberStart s := by
  match s with
  | [] => simp [isNumberStart, he.digit, he.mark]
  | [c] => simp [isNumberStart, he.digit]
  | c :: d :: s => rfl

theorem scanNumber_stop : scanNumber (s ++ e :: r) = ((scanNumber s).1, (scanNumber s).2 ++ e :: r) := by
  rw [scanNumber, scanNumber, isHexNumber_stop he]
  split_ifs with h
  · match s, h with
    | [c], h => simp [isHexNumber] at h
    | c :: d :: s, _ => simp [takeWhile_stop he.hex, dropWhile_stop he.hex]
  · simp only [takeWhile_stop he.digit, dropWhile_stop he.digit, scanFraction_stop he, scanExponent_stop he]

theorem numberToken_stop : numberToken (s ++ e :: r) = ((numberToken s).1, (numberToken s).2 ++ e :: r) := by
  simp only [numberToken, scanNumber_stop he, takeWhile_stop he.idChar, dropWhile_stop he.idChar]

end Terminator

theorem token_number {c : Char} {s : Text} (h : isNumberStart (c :: s) = true) :
    token c s = emit (numberToken (c :: s)) := by
  have hc := isDigit_or_dot_of_isNumberStart h
  have hne (d : Char) (hd : d.isDigit = false) (hdot : d ≠ '.') : c ≠ d := by
    rintro rfl
    rcases hc with hc | hc
    · simp [hd] at hc
    · exact hdot hc
  have hblank : isBlank c = false := by
    simp [isBlank, hne ' ' rfl (by decide), hne '\t' rfl (by decide), hne '\n' rfl (by decide),
      hne (Char.ofNat 12) rfl (by decide), hne '\r' rfl (by decide)]
  simp only [token, hblank, h, hne '-' rfl (by decide), hne '/' rfl (by decide), hne '\'' rfl (by decide),
    hne '"' rfl (by decide), hne (Char.ofNat 96) rfl (by decide), hne '[' rfl (by decide), decide_false,
    Bool.false_and, Bool.false_eq_true, Bool.or_false, if_false, if_true]

theorem numberToken_eq_number {s t rest : Text} (h : numberToken s = (.number t, rest)) : t ++ rest = s := by
  simp only [numberToken, Prod.mk.injEq] at h
  split_ifs at h with hj
  · obtain ⟨ht, hr⟩ := h
    have happend := List.takeWhile_append_dropWhile (p := isIdChar) (l := (scanNumber s).2)
    rw [hj, List.nil_append] at happend
    rw [← hr, happend, ← Tok.number.inj ht, scanNumber_append]
  · simp at h

theorem symbolToken_ne_number (c : Char) (s t : Text) : (symbolToken c s).1 ≠ .number t := by
  rw [symbolToken]
  split
  · simp
  · split_ifs <;> simp

theorem token_eq_number {c : Char} {s t rest : Text} (h : token c s = (some (.number t), rest)) :
    isNumberStart (c :: s) = true ∧ numberToken (c :: s) = (.number t, rest) := by
  have hemit {r : Tok × Text} (hr : emit r = (some (.number t), rest)) : r = (.number t, rest) := by
    obtain ⟨h₁, h₂⟩ := Prod.mk.inj hr
    exact Prod.ext (Option.some.inj h₁) h₂
  revert h
  apply token_cases (motive := fun r => r = (some (.number t), rest) →
    isNumberStart (c :: s) = true ∧ numberToken (c :: s) = (.number t, rest)) c s
  · simp
  · simp
  · simp
  · intro h
    have h₁ := congrArg Prod.fst (hemit h)
    rw [quotedToken] at h₁
    split at h₁
    · split_ifs at h₁
    · simp at h₁
  · intro h
    have h₁ := congrArg Prod.fst (hemit h)
    rw [bracketToken] at h₁
    split at h₁ <;> simp at h₁
  · intro hstart h
    exact ⟨hstart, hemit h⟩
  · intro h
    have h₁ := congrArg Prod.fst (hemit h)
    simp only [blobToken] at h₁
    split at h₁
    · simp at h₁
    · simp only at h₁
      split_ifs at h₁
  · simp
  · intro h
    have h₁ := congrArg Prod.fst (hemit h)
    simp only [variableToken] at h₁
    split_ifs at h₁
  · intro h
    exact absurd (congrArg Prod.fst (hemit h)) (symbolToken_ne_number c s t)

theorem tokens_eq_number {s t : Text} {ts : List Tok} (h : tokens s = .number t :: ts) :
    ∃ rest, ts = tokens rest ∧ t.length + rest.length ≤ s.length ∧
      (t.length + rest.length = s.length → isNumberStart s = true ∧ numberToken s = (.number t, rest)) := by
  induction hn : s.length using Nat.strong_induction_on generalizing s with
  | _ n ih =>
    cases s with
    | nil => simp at h
    | cons c s =>
      rcases htoken : token c s with ⟨_ | tok, rest⟩
      · have hle := token_le c s
        rw [htoken] at hle
        rw [tokens_cons htoken] at h
        rw [List.length_cons] at hn
        simp only at hle
        obtain ⟨rest', hts, hlen, -⟩ := ih rest.length (by omega) h rfl
        exact ⟨rest', hts, by omega, by omega⟩
      · rw [tokens_cons htoken] at h
        obtain ⟨rfl, rfl⟩ := List.cons.inj h
        have hnumber := token_eq_number htoken
        have hlen := congrArg List.length (numberToken_eq_number hnumber.2)
        rw [List.length_append] at hlen
        exact ⟨rest, rfl, by omega, fun _ => hnumber⟩

theorem tokens_number {t : Text} (ht : IsNumber t) {e : Char} (he : Terminator e) (rest : Text) :
    tokens (t ++ e :: rest) = .number t :: tokens (e :: rest) := by
  obtain ⟨hstart, hnumber⟩ := ht
  cases t with
  | nil => simp [isNumberStart] at hstart
  | cons c t =>
    have hs := isNumberStart_stop he (c :: t) rest
    have hn := numberToken_stop he (c :: t) rest
    rw [hstart, List.cons_append] at hs
    rw [hnumber, List.cons_append] at hn
    have htoken : token c (t ++ e :: rest) = (some (.number (c :: t)), e :: rest) := by
      rw [token_number hs, hn]
      rfl
    rw [List.cons_append, tokens_cons htoken]
    rfl

theorem isNumber_of_digits {ds : Text} (hne : ds ≠ []) (hds : ∀ c ∈ ds, c.isDigit = true) : IsNumber ds := by
  have htake : ds.takeWhile Char.isDigit = ds := List.takeWhile_eq_self_iff.mpr hds
  have hdrop : ds.dropWhile Char.isDigit = [] := List.dropWhile_eq_nil_iff.mpr hds
  have hhex : isHexNumber ds = false := by
    match ds, hds with
    | [], _ => rfl
    | [c], _ => simp [isHexNumber]
    | c :: d :: ds, hds =>
      have hd : d.isDigit = true := hds d (by simp)
      have hx : d ≠ 'x' ∧ d ≠ 'X' := by constructor <;> rintro rfl <;> exact absurd hd (by decide)
      simp [isHexNumber, hx]
  have hstart : isNumberStart ds = true := by
    obtain ⟨c, ds, rfl⟩ := List.exists_cons_of_ne_nil hne
    simp [isNumberStart, hds c (by simp)]
  exact ⟨hstart, by simp [numberToken, scanNumber, hhex, htake, hdrop, scanFraction, scanExponent]⟩

theorem isNumber_decimal (n : ℕ) : IsNumber (Text.decimal n) :=
  isNumber_of_digits (Text.decimal_ne_nil n) (fun _ => Text.isDigit_of_mem_decimal)

theorem tokens_number_iff (t : Text) : tokens (t ++ [';']) = [.number t, .symbol [';']] ↔ IsNumber t := by
  constructor
  · intro h
    obtain ⟨rest, hrest, hle, heq⟩ := tokens_eq_number h
    have hpos : 0 < rest.length := by
      apply List.length_pos_of_ne_nil
      rintro rfl
      simp at hrest
    rw [List.length_append, List.length_singleton] at hle heq
    obtain ⟨hstart, hnumber⟩ := heq (by omega)
    rw [isNumberStart_stop terminator_semicolon] at hstart
    rw [numberToken_stop terminator_semicolon] at hnumber
    obtain ⟨htok, hrest'⟩ := Prod.mk.inj hnumber
    have hlen := congrArg List.length hrest'
    rw [List.length_append, List.length_singleton] at hlen
    exact ⟨hstart, Prod.ext htok (List.eq_nil_of_length_eq_zero (by omega))⟩
  · intro ht
    rw [tokens_number ht terminator_semicolon]
    rfl

theorem tokens_blank (s : Text) : tokens (' ' :: s) = tokens (s.dropWhile Text.isSpace) :=
  tokens_cons (c := ' ') (t := none) rfl

theorem tokens_blank_number_iff (t : Text) :
    tokens (' ' :: (t ++ [';'])) = [.number t, .symbol [';']] ↔ IsNumber t := by
  have hdrop : (t ++ [';']).dropWhile Text.isSpace = t.dropWhile Text.isSpace ++ [';'] := dropWhile_stop rfl t []
  rw [tokens_blank, hdrop]
  constructor
  · intro h
    -- the number read is as long as what is left after the blanks, so there were none
    obtain ⟨rest, hrest, hle, -⟩ := tokens_eq_number h
    have hpos : 0 < rest.length := by
      apply List.length_pos_of_ne_nil
      rintro rfl
      simp at hrest
    rw [List.length_append, List.length_singleton] at hle
    have hsame : t.dropWhile Text.isSpace = t :=
      (List.dropWhile_suffix Text.isSpace).eq_of_length_le (by omega)
    rw [hsame] at h
    exact (tokens_number_iff t).mp h
  · intro ht
    have hsame : t.dropWhile Text.isSpace = t := by
      cases t with
      | nil => rfl
      | cons c t =>
        have hc : Text.isSpace c = false := by
          have hstart := ht.1
          simp only [isNumberStart, List.head?_cons, Option.any_some, Bool.or_eq_true, Bool.and_eq_true,
            decide_eq_true_eq, Option.some.injEq] at hstart
          rcases hstart with hdigit | ⟨rfl, -⟩
          · by_contra hspace
            simp only [Text.isSpace, Bool.or_eq_true, decide_eq_true_eq, Bool.not_eq_false] at hspace
            rcases hspace with ((((rfl | rfl) | rfl) | rfl) | rfl) | rfl <;> exact absurd hdigit (by decide)
          · rfl
        rw [List.dropWhile_cons_of_neg (by simp [hc])]
    rw [hsame]
    exact (tokens_number_iff t).mpr ht

end Bingit.Sql
