import Bingit.ConfigPrinter

namespace Bingit

mutual

def NginxConfigStatement.text : NginxConfigStatement → Text
  | .mk tokens none => tokens.flatten ++ [';']
  | .mk tokens (some child) => tokens.flatten ++ '{' :: (NginxConfig.text child ++ ['}'])
termination_by structural statement => statement

def NginxConfig.text : NginxConfig → Text
  | [] => []
  | statement :: rest => statement.text ++ NginxConfig.text rest
termination_by structural config => config

end

namespace ConfigParser

inductive Place where
  | between | bare | quoted (q : Char) | comment
  deriving DecidableEq

def isPunctuation (c : Char) : Bool := c = ';' || c = '{' || c = '}'

theorem eq_of_isPunctuation {c : Char} (hc : isPunctuation c = true) : c = ';' ∨ c = '{' ∨ c = '}' := by
  simpa [isPunctuation, or_assoc] using hc

namespace Place

def next : Place → Char → Place
  | .between, c =>
    if isWhite c || isPunctuation c then .between
    else if c = '#' then .comment
    else if isQuote c then .quoted c
    else .bare
  | .bare, c => if isWhite c || isPunctuation c then .between else .bare
  | .quoted q, c => if c = q then .between else .quoted q
  | .comment, c => if isLineEnd c then .between else .comment

def keeps : Place → Char → Bool
  | .between, c => !isWhite c && c ≠ '#'
  | .bare, c => !isWhite c
  | .quoted _, _ => true
  | .comment, _ => false

end Place

/-- No white space outside quotes and no comments. -/
def strip : Place → Text → Text
  | _, [] => []
  | place, c :: s => if place.keeps c then c :: strip (place.next c) s else strip (place.next c) s

/-- No carriage return or file end follows a bare token. -/
def BareTokensEnd : Place → Text → Prop
  | place, [] => place ≠ .bare
  | place, c :: s => (place = .bare → c ≠ '\r') ∧ BareTokensEnd (place.next c) s

instance decidableBareTokensEnd : (place : Place) → (s : Text) → Decidable (BareTokensEnd place s)
  | place, [] => inferInstanceAs (Decidable (place ≠ .bare))
  | place, c :: s =>
    have := decidableBareTokensEnd (place.next c) s
    inferInstanceAs (Decidable ((place = .bare → c ≠ '\r') ∧ BareTokensEnd (place.next c) s))

namespace Terminal

def text : Terminal → Text
  | .word w => w
  | .semicolon => [';']
  | .openBrace => ['{']
  | .closeBrace => ['}']

end Terminal

def terminalsText (ts : List Terminal) : Text := ts.flatMap Terminal.text

theorem terminalsText_words (ws : List Text) : terminalsText (ws.map .word) = ws.flatten := by
  induction ws with
  | nil => rfl
  | cons w ws ih =>
    rw [List.map_cons, terminalsText, List.flatMap_cons, List.flatten_cons, ← ih]
    rfl

theorem terminalsText_append (ts us : List Terminal) :
    terminalsText (ts ++ us) = terminalsText ts ++ terminalsText us :=
  List.flatMap_append

theorem Derives.text {config : NginxConfig} {ts : List Terminal} (h : Derives config ts) :
    config.text = terminalsText ts := by
  induction h with
  | nil => rfl
  | @simple ws rest ts hw hrest ih =>
    rw [NginxConfig.text, NginxConfigStatement.text, terminalsText_append, terminalsText_words, ih,
      List.append_assoc]
    rfl
  | @block ws b rest us ts hw hb hblock hrest ihb ih =>
    rw [NginxConfig.text, NginxConfigStatement.text, terminalsText_append, terminalsText_words, ih, ihb,
      List.append_assoc]
    congr 1
    change '{' :: (terminalsText us ++ ['}'] ++ terminalsText ts) =
      '{' :: terminalsText (us ++ .closeBrace :: ts)
    rw [terminalsText_append, List.append_assoc]
    rfl

theorem strip_keep {place : Place} {c : Char} (h : place.keeps c = true) (s : Text) :
    strip place (c :: s) = c :: strip (place.next c) s := if_pos h

theorem strip_drop {place : Place} {c : Char} (h : place.keeps c = false) (s : Text) :
    strip place (c :: s) = strip (place.next c) s := if_neg (by simp [h])

theorem strip_head {s : Text} : ∀ c ∈ (strip .between s).head?, isWhite c = false := by
  suffices h : ∀ place, place = .between ∨ place = .comment → ∀ c ∈ (strip place s).head?, isWhite c = false from
    h .between (.inl rfl)
  induction s with
  | nil => simp [strip]
  | cons d s ih =>
    intro place hplace
    by_cases hkeep : place.keeps d = true
    · rw [strip_keep hkeep]
      rcases hplace with rfl | rfl
      · simp only [Place.keeps, Bool.and_eq_true, Bool.not_eq_true'] at hkeep
        simpa using hkeep.1
      · simp [Place.keeps] at hkeep
    · have hdrop : place.keeps d = false := by simpa using hkeep
      rw [strip_drop hdrop]
      apply ih
      rcases hplace with rfl | rfl
      · simp only [Place.keeps, Bool.and_eq_false_iff, Bool.not_eq_false', decide_eq_false_iff_not, not_not] at hdrop
        rcases hdrop with hwhite | rfl
        · simp [Place.next, hwhite]
        · simp [Place.next, isWhite, isPunctuation]
      · by_cases hend : isLineEnd d = true <;> simp [Place.next, hend]

structure Passes (place : Place) (w : Text) (place' : Place) (kept : Text) : Prop where
  strip_eq (s : Text) : strip place (w ++ s) = kept ++ strip place' s
  ends_iff (s : Text) : BareTokensEnd place (w ++ s) ↔ BareTokensEnd place' s

theorem Passes.refl (place : Place) : Passes place [] place [] := ⟨fun _ => rfl, fun _ => Iff.rfl⟩

theorem Passes.trans {place place' place'' : Place} {v w kept kept' : Text} (h : Passes place v place' kept)
    (h' : Passes place' w place'' kept') : Passes place (v ++ w) place'' (kept ++ kept') := by
  constructor
  · intro s
    rw [List.append_assoc, h.strip_eq, h'.strip_eq, List.append_assoc]
  · intro s
    rw [List.append_assoc, h.ends_iff, h'.ends_iff]

theorem passes_keep {place : Place} {c : Char} (h : place.keeps c = true) (hcr : place = .bare → c ≠ '\r') :
    Passes place [c] (place.next c) [c] :=
  ⟨fun s => strip_keep h s, fun _ => and_iff_right hcr⟩

theorem passes_drop {place : Place} {c : Char} (h : place.keeps c = false) (hcr : place = .bare → c ≠ '\r') :
    Passes place [c] (place.next c) [] :=
  ⟨fun s => strip_drop h s, fun _ => and_iff_right hcr⟩

theorem passes_white {ws : Text} (h : ∀ c ∈ ws, isWhite c = true) : Passes .between ws .between [] := by
  induction ws with
  | nil => exact .refl .between
  | cons c ws ih =>
    rw [List.forall_mem_cons] at h
    have hstep := @passes_drop .between c (by simp [Place.keeps, h.1]) (by simp)
    have hnext : Place.next .between c = .between := by simp [Place.next, h.1]
    rw [hnext] at hstep
    exact hstep.trans (ih h.2)

theorem passes_comment {cs : Text} (h : ∀ c ∈ cs, isLineEnd c = false) : Passes .comment cs .comment [] := by
  induction cs with
  | nil => exact .refl .comment
  | cons c cs ih =>
    rw [List.forall_mem_cons] at h
    have hstep := @passes_drop .comment c rfl (by simp)
    have hnext : Place.next .comment c = .comment := by simp [Place.next, h.1]
    rw [hnext] at hstep
    exact hstep.trans (ih h.2)

theorem passes_quoted {q : Char} {body : Text} (h : q ∉ body) : Passes (.quoted q) body (.quoted q) body := by
  induction body with
  | nil => exact .refl _
  | cons c body ih =>
    rw [List.mem_cons, not_or] at h
    have hstep := @passes_keep (.quoted q) c rfl (by simp)
    have hnext : Place.next (.quoted q) c = .quoted q := by simp [Place.next, Ne.symm h.1]
    rw [hnext] at hstep
    exact hstep.trans (ih h.2)

theorem bare_char {c : Char} (hd : isDelimiter c = false) (hcr : c ≠ '\r') :
    isWhite c = false ∧ isPunctuation c = false := by
  simp only [isDelimiter, Bool.or_eq_false_iff, decide_eq_false_iff_not] at hd
  simp [isWhite, isPunctuation, hd, hcr]

theorem passes_bare {cs : Text} (hcs : ∀ d ∈ cs, isDelimiter d = false) (hcr : '\r' ∉ cs) :
    Passes .bare cs .bare cs := by
  induction cs with
  | nil => exact .refl .bare
  | cons c cs ih =>
    rw [List.forall_mem_cons] at hcs
    rw [List.mem_cons, not_or] at hcr
    obtain ⟨hwhite, hpunctuation⟩ := bare_char hcs.1 (Ne.symm hcr.1)
    have hstep := @passes_keep .bare c (by simp [Place.keeps, hwhite]) (fun _ => Ne.symm hcr.1)
    have hnext : Place.next .bare c = .bare := by simp [Place.next, hwhite, hpunctuation]
    rw [hnext] at hstep
    exact hstep.trans (ih hcs.2 hcr.2)

theorem passes_special {c : Char} (hc : isPunctuation c = true) : Passes .between [c] .between [c] := by
  rcases eq_of_isPunctuation hc with rfl | rfl | rfl <;> exact @passes_keep .between _ rfl (by simp)

theorem passes_start {c : Char} (hc : isSpecial c = false) : Passes .between [c] .bare [c] := by
  simp only [isSpecial, Bool.or_eq_false_iff, decide_eq_false_iff_not] at hc
  have hstep := @passes_keep .between c (by simp [Place.keeps, hc]) (by simp)
  have hnext : Place.next .between c = .bare := by simp [Place.next, isPunctuation, hc]
  rw [hnext] at hstep
  exact hstep

theorem passes_word {w : Text} (hw : IsBare w) (hcr : '\r' ∉ w) : Passes .between w .bare w := by
  obtain ⟨c, cs, rfl, hc, hcs⟩ := hw
  rw [List.mem_cons, not_or] at hcr
  exact (passes_start hc).trans (passes_bare hcs hcr.2)

theorem passes_quotedWord {w : Text} (hw : IsQuoted w) : Passes .between w .between w := by
  obtain ⟨q, body, rfl, hq, hb⟩ := hw
  have hcases : q = '\'' ∨ q = '"' := by simpa [isQuote] using hq
  have hopen : Passes .between [q] (.quoted q) [q] := by
    rcases hcases with rfl | rfl <;> exact @passes_keep .between _ rfl (by simp)
  have hclose : Passes (.quoted q) [q] .between [q] := by
    have hstep := @passes_keep (.quoted q) q rfl (by simp)
    rwa [Place.next, if_pos rfl] at hstep
  exact hopen.trans ((passes_quoted hb).trans hclose)

theorem passes_hash {v : Text} (hv : IsComment v) : Passes .between v .comment [] := by
  obtain ⟨cs, rfl, hcs⟩ := hv
  exact (@passes_drop .between '#' rfl (by simp)).trans (passes_comment hcs)

theorem bare_delimiter {d : Char} (hd : isDelimiter d = true) (s : Text) :
    strip .bare (d :: s) = strip .between (d :: s) ∧
      (BareTokensEnd .bare (d :: s) ↔ BareTokensEnd .between (d :: s)) := by
  have hcases : d = ' ' ∨ d = '\t' ∨ d = '\n' ∨ d = ';' ∨ d = '{' ∨ d = '}' := by
    simp only [isDelimiter, Bool.or_eq_true, decide_eq_true_eq] at hd
    tauto
  rcases hcases with rfl | rfl | rfl | rfl | rfl | rfl <;>
    exact ⟨rfl, and_congr (iff_of_true (by decide) (by decide)) Iff.rfl⟩

theorem bare_split {w : Text} (hw : IsBare w) (hcr : '\r' ∈ w) :
    ∃ u v, w = u ++ '\r' :: v ∧ IsBare u ∧ '\r' ∉ u := by
  obtain ⟨u, v, rfl, hu⟩ := List.eq_append_cons_of_mem hcr
  obtain ⟨c, cs, heq, hc, hcs⟩ := hw
  cases u with
  | nil =>
    obtain ⟨rfl, -⟩ := List.cons.inj heq
    simp [isSpecial, isWhite] at hc
  | cons d u =>
    obtain ⟨rfl, rfl⟩ := List.cons.inj heq
    exact ⟨d :: u, v, rfl, ⟨d, u, rfl, hc, fun e he => hcs e (by simp [he])⟩, hu⟩

theorem passes_delimited {w : Text} (hw : IsBare w) (hcr : '\r' ∉ w) {d : Char} (hd : isDelimiter d = true)
    (s : Text) : strip .between (w ++ d :: s) = w ++ strip .between (d :: s) ∧
      (BareTokensEnd .between (w ++ d :: s) ↔ BareTokensEnd .between (d :: s)) := by
  obtain ⟨hstrip, hends⟩ := bare_delimiter hd s
  rw [(passes_word hw hcr).strip_eq, (passes_word hw hcr).ends_iff, hstrip, hends]
  exact ⟨rfl, Iff.rfl⟩

theorem carriageReturn_lost {w : Text} (hw : IsBare w) (hcr : '\r' ∈ w) (s t : Text) :
    w ++ t ≠ strip .between (w ++ s) ∧ ¬ BareTokensEnd .between (w ++ s) := by
  obtain ⟨u, v, rfl, hu, hno⟩ := bare_split hw hcr
  rw [List.append_assoc, List.append_assoc, (passes_word hu hno).strip_eq, (passes_word hu hno).ends_iff]
  constructor
  · -- the tree goes on with the carriage return, the stripped text with something that is not white
    intro heq
    have hrest : '\r' :: (v ++ t) = strip .between (v ++ s) := List.append_cancel_left heq
    have hhead := @strip_head (v ++ s) '\r' (by rw [← hrest]; rfl)
    simp [isWhite] at hhead
  · rintro ⟨hne, -⟩
    exact hne rfl rfl

theorem cutBare_lost {w : Text} (hw : IsBare w) : strip .between w ≠ [] ∧ ¬ BareTokensEnd .between w := by
  by_cases hcr : '\r' ∈ w
  · have hlost := carriageReturn_lost hw hcr [] []
    obtain ⟨u, v, rfl, hu, hno⟩ := bare_split hw hcr
    rw [List.append_nil] at hlost
    refine ⟨?_, hlost.2⟩
    rw [(passes_word hu hno).strip_eq]
    obtain ⟨c, cs, rfl, -, -⟩ := hu
    exact List.cons_ne_nil c _
  · have hpass := passes_word hw hcr
    have hstrip := hpass.strip_eq []
    have hends := hpass.ends_iff []
    rw [List.append_nil] at hstrip hends
    rw [hstrip, hends]
    obtain ⟨c, cs, rfl, -, -⟩ := hw
    exact ⟨List.cons_ne_nil c _, fun h => h rfl⟩

theorem endsInEof_more {type : TokenType} {value s rest : Text} (hp : parseToken s = (type, value, rest))
    (ht : ¬ (type = .eof ∨ type = .error)) (h : endsInEof (tokens s)) : endsInEof (tokens rest) := by
  rw [tokens_more hp ht, endsInEof, List.getLast?_cons_of_ne_nil (tokens_ne_nil rest)] at h
  exact h

theorem terminalsText_more {type : TokenType} {value s rest : Text} {x : Terminal}
    (hp : parseToken s = (type, value, rest)) (hx : terminal (type, value) = some x) :
    terminalsText (terminals (tokens s)) = x.text ++ terminalsText (terminals (tokens rest)) := by
  have ht : ¬ (type = .eof ∨ type = .error) := by
    rintro (rfl | rfl) <;> simp [terminal] at hx
  rw [tokens_more hp ht, terminals, List.filterMap_cons_some hx]
  rfl

theorem terminalsText_comment {value s rest : Text} (hp : parseToken s = (.comment, value, rest)) :
    terminalsText (terminals (tokens s)) = terminalsText (terminals (tokens rest)) := by
  rw [tokens_more hp (by simp)]
  rfl

theorem terminalsText_last {type : TokenType} {value s rest : Text} (hp : parseToken s = (type, value, rest))
    (ht : type = .eof ∨ type = .error) : terminalsText (terminals (tokens s)) = [] := by
  rw [tokens_last hp ht]
  rcases ht with rfl | rfl <;> rfl

theorem text_iff_terminal {body value rest : Text} {type : TokenType} {x : Terminal}
    (hp : parseToken body = (type, value, rest)) (hx : terminal (type, value) = some x)
    (hstrip : strip .between body = x.text ++ strip .between rest)
    (hends : BareTokensEnd .between body ↔ BareTokensEnd .between rest)
    (hrest : terminalsText (terminals (tokens rest)) = strip .between rest ↔ BareTokensEnd .between rest) :
    terminalsText (terminals (tokens body)) = strip .between body ↔ BareTokensEnd .between body := by
  rw [terminalsText_more hp hx, hstrip, hends, List.append_cancel_left_eq]
  exact hrest

theorem passes_line {v : Text} {c : Char} (hv : IsComment v) (hc : isLineEnd c = true) :
    Passes .between (v ++ [c]) .between [] := by
  have hclose := @passes_drop .comment c rfl (by simp)
  have hnext : Place.next .comment c = .between := by simp [Place.next, hc]
  rw [hnext] at hclose
  exact (passes_hash hv).trans hclose

theorem text_iff_lexeme {body value rest : Text} {type : TokenType} (hl : Lexeme body type value rest)
    (hend : endsInEof (tokens body))
    (ih : rest.length < body.length → endsInEof (tokens rest) →
      (terminalsText (terminals (tokens rest)) = strip .between rest ↔ BareTokensEnd .between rest)) :
    terminalsText (terminals (tokens body)) = strip .between body ↔ BareTokensEnd .between body := by
  have hp := parseToken_of_lexeme hl
  have hrest (ht : ¬ (type = .eof ∨ type = .error)) :
      terminalsText (terminals (tokens rest)) = strip .between rest ↔ BareTokensEnd .between rest :=
    ih (hl.rest_lt ht) (endsInEof_more hp ht hend)
  cases hl with
  | startBlock =>
    have hpass := @passes_special '{' rfl
    exact text_iff_terminal hp rfl (hpass.strip_eq rest) (hpass.ends_iff rest) (hrest (by simp))
  | endBlock =>
    have hpass := @passes_special '}' rfl
    exact text_iff_terminal hp rfl (hpass.strip_eq rest) (hpass.ends_iff rest) (hrest (by simp))
  | statementEnd =>
    have hpass := @passes_special ';' rfl
    exact text_iff_terminal hp rfl (hpass.strip_eq rest) (hpass.ends_iff rest) (hrest (by simp))
  | quoted rest hw =>
    have hpass := passes_quotedWord hw
    exact text_iff_terminal hp rfl (hpass.strip_eq rest) (hpass.ends_iff rest) (hrest (by simp))
  | bare rest hw hd =>
    by_cases hcr : '\r' ∈ value
    · obtain ⟨hlost, hends⟩ := carriageReturn_lost hw hcr _ _
      rw [terminalsText_more hp rfl]
      exact iff_of_false hlost hends
    · obtain ⟨hstrip, hends⟩ := passes_delimited hw hcr hd rest
      exact text_iff_terminal hp rfl hstrip hends (hrest (by simp))
  | comment rest hv hc =>
    have hpass := passes_line hv hc
    have hstrip := hpass.strip_eq rest
    have hends := hpass.ends_iff rest
    rw [List.append_assoc, List.singleton_append] at hstrip hends
    rw [terminalsText_comment hp, hstrip, hends]
    exact hrest (by simp)
  | nothingLeft => exact iff_of_true rfl nofun
  | cutBare hw =>
    obtain ⟨hlost, hends⟩ := cutBare_lost hw
    rw [terminalsText_last hp (.inl rfl)]
    exact iff_of_false (Ne.symm hlost) hends
  | cutComment hv =>
    have hstrip := (passes_hash hv).strip_eq []
    have hends := (passes_hash hv).ends_iff []
    rw [List.append_nil] at hstrip hends
    rw [terminalsText_last hp (.inl rfl), hstrip, hends]
    exact iff_of_true rfl nofun
  | cutQuote hq hb =>
    rw [tokens_last hp (.inr rfl)] at hend
    cases hend

theorem text_iff {s : Text} (h : endsInEof (tokens s)) :
    terminalsText (terminals (tokens s)) = strip .between s ↔ BareTokensEnd .between s := by
  induction hn : s.length using Nat.strong_induction_on generalizing s with
  | _ n ih =>
    subst hn
    rcases hp : parseToken s with ⟨type, value, rest⟩
    obtain ⟨ws, body, rfl, hws, hl⟩ := parseToken_spec hp
    have hskip : tokens (ws ++ body) = tokens body := tokens_congr (white_skip hws body)
    rw [hskip] at h ⊢
    rw [(passes_white hws).strip_eq, (passes_white hws).ends_iff, List.nil_append]
    refine text_iff_lexeme hl h ?_
    intro hlt hrest
    refine ih rest.length ?_ hrest rfl
    rw [List.length_append]
    omega

theorem Derives.text_last {config : NginxConfig} {ts : List Terminal} (h : Derives config ts) :
    ∀ c ∈ config.text.getLast?, c = ';' ∨ c = '}' := by
  have hstatement {w s : Text} {d : Char} (hd : d = ';' ∨ d = '}') (hs : ∀ c ∈ s.getLast?, c = ';' ∨ c = '}') :
      ∀ c ∈ (w ++ [d] ++ s).getLast?, c = ';' ∨ c = '}' := by
    intro c hc
    by_cases hnil : s = []
    · subst hnil
      rw [List.append_nil, List.getLast?_concat] at hc
      obtain rfl : d = c := Option.some.inj hc
      exact hd
    · rw [List.getLast?_append_of_ne_nil _ hnil] at hc
      exact hs c hc
  induction h with
  | nil => simp [NginxConfig.text]
  | simple hw hrest ih => exact hstatement (.inl rfl) ih
  | @block ws b rest us ts hw hb hblock hrest ihb ih =>
    have htext : NginxConfig.text (.mk ws (some b) :: rest) =
        ws.flatten ++ '{' :: b.text ++ ['}'] ++ NginxConfig.text rest := by
      rw [NginxConfig.text, NginxConfigStatement.text]
      simp
    rw [htext]
    exact hstatement (.inr rfl) ih

def NothingLost (s : Text) (config : NginxConfig) : Prop :=
  config.text = strip .between s ∧ ∀ c ∈ (strip .between s).getLast?, c = ';' ∨ c = '}'

theorem text_eq_strip_iff {s : Text} {config : NginxConfig} (h : parse s = some (true, config)) :
    config.text = strip .between s ↔ BareTokensEnd .between s := by
  obtain ⟨hend, hderives⟩ := (parse_true_iff s config).mp h
  rw [hderives.text]
  exact text_iff hend

theorem nothingLost_iff {s : Text} {config : NginxConfig} (h : parse s = some (true, config)) :
    NothingLost s config ↔ BareTokensEnd .between s := by
  obtain ⟨-, hderives⟩ := (parse_true_iff s config).mp h
  rw [← text_eq_strip_iff h, NothingLost]
  constructor
  · exact And.left
  · intro heq
    refine ⟨heq, ?_⟩
    rw [← heq]
    exact hderives.text_last

theorem nothingLost_nested :
    NothingLost "a 'b;' # c\n\x7b d ;\x7d".toList [.mk ["a".toList, "'b;'".toList] (some [.mk ["d".toList] none])] :=
  (nothingLost_iff (show parse "a 'b;' # c\n\x7b d ;\x7d".toList = some (true, _) from rfl)).mpr (by decide +kernel)

theorem cut_statement_accepted :
    parse "a b; c".toList = some (true, [.mk ["a".toList, "b".toList] none]) ∧
      ¬ NothingLost "a b; c".toList [.mk ["a".toList, "b".toList] none] := by
  refine ⟨rfl, ?_⟩
  rintro ⟨htext, -⟩
  have hlength := congrArg List.length htext
  simp only [String.reduceToList] at hlength
  revert hlength
  decide +kernel

end ConfigParser

end Bingit
