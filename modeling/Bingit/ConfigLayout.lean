import Bingit.ConfigText

namespace Bingit.ConfigParser

inductive Item where
  | bare (w : Text) | quoted (w : Text) | semicolon | openBrace | closeBrace

namespace Item

def terminal : Item → Terminal
  | .bare w => .word w
  | .quoted w => .word w
  | .semicolon => .semicolon
  | .openBrace => .openBrace
  | .closeBrace => .closeBrace

def text (item : Item) : Text := item.terminal.text

def WellFormed : Item → Prop
  | .bare w => w ≠ [] ∧ (∀ c ∈ w, isWhite c = false ∧ isPunctuation c = false) ∧
      ∀ c ∈ w.head?, c ≠ '#' ∧ isQuote c = false
  | .quoted w => IsQuoted w
  | _ => True

def isBare : Item → Bool
  | .bare _ => true
  | _ => false

def isToken : Item → Bool
  | .bare _ => true
  | .quoted _ => true
  | _ => false

end Item

inductive Trivia : Text → Prop
  | nil : Trivia []
  | white {c : Char} {s : Text} (hc : isWhite c = true) (hs : Trivia s) : Trivia (c :: s)
  | comment {v : Text} {c : Char} {s : Text} (hv : IsComment v) (hc : isLineEnd c = true) (hs : Trivia s) :
      Trivia (v ++ c :: s)

def IsGap (g : Text) : Prop := Trivia g ∧ ∀ c ∈ g.head?, isWhite c = true

def written : List (Text × Item) → Text → Text
  | [], last => last
  | (gap, item) :: rest, last => gap ++ (item.text ++ written rest last)

def Separated : List (Text × Item) → Text → Prop
  | [], _ => True
  | [(_, item)], last => item.isBare = true → last ≠ []
  | (_, item) :: (gap, item') :: rest, last =>
    (item.isToken = true → item'.isToken = true → gap ≠ []) ∧ Separated ((gap, item') :: rest) last

structure Layout where
  cells : List (Text × Item)
  last : Text
  isGap : ∀ cell ∈ cells, IsGap cell.1
  isGap_last : IsGap last
  wellFormed : ∀ cell ∈ cells, cell.2.WellFormed
  separated : Separated cells last

structure Position where
  last : TokenType
  depth : ℕ

def Position.accept (p : Position) : Item → Option Position
  | .bare _ => some ⟨.normal, p.depth⟩
  | .quoted _ => some ⟨.normal, p.depth⟩
  | .semicolon => if p.last = .normal then some ⟨.statementEnd, p.depth⟩ else none
  | .openBrace => if p.last = .normal then some ⟨.startBlock, p.depth + 1⟩ else none
  | .closeBrace =>
    if (p.last = .statementEnd ∨ p.last = .endBlock) ∧ 0 < p.depth then some ⟨.endBlock, p.depth - 1⟩ else none

/-- Nothing behind the first item out of place is read. -/
def writtenUntil (p : Position) : List (Text × Item) → Text → Text
  | [], last => last
  | (gap, item) :: rest, last =>
    gap ++ (item.text ++
      match p.accept item with
      | some p => writtenUntil p rest last
      | none => [])

namespace Layout

def items (ℓ : Layout) : List Item := ℓ.cells.map Prod.snd

def text (ℓ : Layout) : Text := written ℓ.cells ℓ.last

def readText (ℓ : Layout) : Text := writtenUntil ⟨.start, 0⟩ ℓ.cells ℓ.last

end Layout

def SameParse (s s' : Text) : Prop :=
  (parse s).map Prod.fst = (parse s').map Prod.fst ∧
    ∀ config, parse s = some (true, config) ↔ parse s' = some (true, config)

theorem wellFormed_bare {w : Text} (h : (Item.bare w).WellFormed) : IsBare w ∧ '\r' ∉ w := by
  obtain ⟨hne, hchars, hhead⟩ := h
  have hcr : '\r' ∉ w := by
    intro hmem
    have hwhite := (hchars '\r' hmem).1
    simp [isWhite] at hwhite
  refine ⟨?_, hcr⟩
  obtain ⟨c, cs, rfl⟩ := List.exists_cons_of_ne_nil hne
  obtain ⟨hwhite, hpunctuation⟩ := hchars c (by simp)
  obtain ⟨hhash, hquote⟩ := hhead c rfl
  refine ⟨c, cs, rfl, ?_, ?_⟩
  · simp only [isPunctuation, Bool.or_eq_false_iff] at hpunctuation
    simp [isSpecial, hwhite, hhash, hquote, hpunctuation]
  · intro d hd
    obtain ⟨hwhite, hpunctuation⟩ := hchars d (by simp [hd])
    simp only [isWhite, isPunctuation, Bool.or_eq_false_iff] at hwhite hpunctuation
    simp [isDelimiter, hwhite, hpunctuation]

theorem passes_trivia {g : Text} (h : Trivia g) : Passes .between g .between [] := by
  induction h with
  | nil => exact .refl .between
  | @white c s hc hs ih =>
    have hwhite : Passes .between [c] .between [] := passes_white (by simpa using hc)
    exact hwhite.trans ih
  | @comment v c s hv hc hs ih =>
    have hline := (passes_line hv hc).trans ih
    rw [List.append_assoc] at hline
    exact hline

theorem lexesTo_comment {v : Text} {c : Char} (hv : IsComment v) (hc : isLineEnd c = true) (rest : Text) :
    LexesTo (v ++ c :: rest) [] rest := by
  have hs := tokens_more (parseToken_of_lexeme (.comment rest hv hc)) (by simp)
  refine ⟨by rw [hs]; rfl, ?_⟩
  rw [hs, endsInEof, endsInEof, List.getLast?_cons_of_ne_nil (tokens_ne_nil rest)]

theorem lexesTo_trivia {g : Text} (h : Trivia g) (rest : Text) : LexesTo (g ++ rest) [] rest := by
  induction h with
  | nil => exact ⟨rfl, Iff.rfl⟩
  | @white c s hc hs ih => exact (lexesTo_white [c] (by simpa using hc) (s ++ rest)).trans ih
  | @comment v c s hv hc hs ih =>
    rw [List.append_assoc]
    exact (lexesTo_comment hv hc (s ++ rest)).trans ih

theorem separated_tail {gap : Text} {item : Item} {cells : List (Text × Item)} {last : Text}
    (h : Separated ((gap, item) :: cells) last) : Separated cells last := by
  cases cells with
  | nil => trivial
  | cons cell cells =>
    obtain ⟨gap', item'⟩ := cell
    exact h.2

theorem after_bare {gap w : Text} {cells : List (Text × Item)} {last : Text}
    (hsep : Separated ((gap, .bare w) :: cells) last) (hgaps : ∀ cell ∈ cells, IsGap cell.1) (hlast : IsGap last) :
    ∃ c s, written cells last = c :: s ∧ (isWhite c = true ∨ isPunctuation c = true) := by
  have hgap {g : Text} (hg : IsGap g) (hne : g ≠ []) (s : Text) :
      ∃ c s', g ++ s = c :: s' ∧ (isWhite c = true ∨ isPunctuation c = true) := by
    obtain ⟨c, g, rfl⟩ := List.exists_cons_of_ne_nil hne
    exact ⟨c, g ++ s, rfl, .inl (hg.2 c rfl)⟩
  cases cells with
  | nil =>
    have h := hgap hlast (hsep rfl) []
    rwa [List.append_nil] at h
  | cons cell cells =>
    obtain ⟨gap', item'⟩ := cell
    rw [written]
    by_cases hnil : gap' = []
    · subst hnil
      cases item' with
      | bare w => exact absurd rfl (hsep.1 rfl rfl)
      | quoted w => exact absurd rfl (hsep.1 rfl rfl)
      | semicolon => exact ⟨';', _, rfl, .inr rfl⟩
      | openBrace => exact ⟨'{', _, rfl, .inr rfl⟩
      | closeBrace => exact ⟨'}', _, rfl, .inr rfl⟩
    · exact hgap (hgaps _ List.mem_cons_self) hnil _

theorem strip_bare {c : Char} (hc : isWhite c = true ∨ isPunctuation c = true) (s : Text) :
    strip .bare (c :: s) = strip .between (c :: s) := by
  rcases hc with hwhite | hpunctuation
  · simp [strip, Place.keeps, Place.next, hwhite]
  · rcases eq_of_isPunctuation hpunctuation with rfl | rfl | rfl <;> rfl

theorem passes_item {item : Item} (h : item.WellFormed) (hbare : item.isBare = false) :
    Passes .between item.text .between item.text := by
  cases item with
  | bare w => cases hbare
  | quoted w => exact passes_quotedWord h
  | semicolon => exact passes_special rfl
  | openBrace => exact passes_special rfl
  | closeBrace => exact passes_special rfl

theorem strip_written {cells : List (Text × Item)} {last : Text} (hgaps : ∀ cell ∈ cells, IsGap cell.1)
    (hlast : IsGap last) (hitems : ∀ cell ∈ cells, cell.2.WellFormed) (hsep : Separated cells last) :
    strip .between (written cells last) = terminalsText ((cells.map Prod.snd).map Item.terminal) := by
  induction cells with
  | nil =>
    have h := (passes_trivia hlast.1).strip_eq []
    rw [List.append_nil] at h
    exact h
  | cons cell cells ih =>
    obtain ⟨gap, item⟩ := cell
    rw [List.forall_mem_cons] at hgaps hitems
    have hrest := ih hgaps.2 hitems.2 (separated_tail hsep)
    have htext : terminalsText ((((gap, item) :: cells).map Prod.snd).map Item.terminal) =
        item.text ++ terminalsText ((cells.map Prod.snd).map Item.terminal) := rfl
    rw [written, (passes_trivia hgaps.1.1).strip_eq, htext, ← hrest, List.nil_append]
    cases item with
    | bare w =>
      obtain ⟨hw, hcr⟩ := wellFormed_bare hitems.1
      obtain ⟨c, s, hs, hc⟩ := after_bare hsep hgaps.2 hlast
      rw [hs, ← strip_bare hc]
      exact (passes_word hw hcr).strip_eq (c :: s)
    | quoted | semicolon | openBrace | closeBrace => exact (passes_item hitems.1 rfl).strip_eq _

theorem lexesTo_item {item : Item} (h : item.WellFormed) (hbare : item.isBare = false) (rest : Text) :
    LexesTo (item.text ++ rest) [item.terminal] rest := by
  cases item with
  | bare w => cases hbare
  | quoted w => exact lexesTo_lexeme (.quoted rest h) rfl
  | semicolon => exact lexesTo_lexeme (.statementEnd rest) rfl
  | openBrace => exact lexesTo_lexeme (.startBlock rest) rfl
  | closeBrace => exact lexesTo_lexeme (.endBlock rest) rfl

theorem delimiter_of_ends {c : Char} {s : Text} (hc : isWhite c = true ∨ isPunctuation c = true)
    (hends : BareTokensEnd .bare (c :: s)) : isDelimiter c = true := by
  have hcr : c ≠ '\r' := hends.1 rfl
  simp only [isWhite, isPunctuation, Bool.or_eq_true, decide_eq_true_eq, hcr, or_false] at hc
  simp only [isDelimiter, Bool.or_eq_true, decide_eq_true_eq]
  tauto

def Completes (z : Zipper) (ts : List Terminal) (config : NginxConfig) : Prop :=
  ∃ z', ts.foldlM Zipper.step z = some z' ∧ z'.Finished ∧ z'.current = [] ∧ z'.done = config

theorem completes_cons {z : Zipper} {x : Terminal} {ts : List Terminal} {config : NginxConfig} :
    Completes z (x :: ts) config ↔ ∃ z', z.step x = some z' ∧ Completes z' ts config := by
  unfold Completes
  rw [List.foldlM_cons]
  cases z.step x <;> simp

theorem parse_true_iff_completes (s : Text) (config : NginxConfig) :
    parse s = some (true, config) ↔ endsInEof (tokens s) ∧ Completes .initial (terminals (tokens s)) config := by
  rw [parse_eq_runTokens]
  exact (runTokens_iff (tokens_complete s) represents_initial).2 config

structure Position.Holds (p : Position) (z : Zipper) : Prop where
  last : z.last = p.last
  depth : z.frames.length = p.depth
  normal : z.last = .normal ↔ z.current ≠ []

theorem Position.Holds.step {p : Position} {z : Zipper} (h : p.Holds z) (item : Item) :
    (p.accept item = none ∧ z.step item.terminal = none) ∨
      ∃ p' z', p.accept item = some p' ∧ z.step item.terminal = some z' ∧ p'.Holds z' := by
  obtain ⟨hlast, hdepth, hnormal⟩ := h
  rw [hlast] at hnormal
  cases item with
  | bare w => exact .inr ⟨_, _, rfl, rfl, rfl, hdepth, by simp⟩
  | quoted w => exact .inr ⟨_, _, rfl, rfl, rfl, hdepth, by simp⟩
  | semicolon =>
    by_cases hn : p.last = .normal
    · exact .inr ⟨_, _, if_pos hn, if_neg (hnormal.mp hn), rfl, hdepth, by simp⟩
    · exact .inl ⟨if_neg hn, if_pos (not_not.mp (mt hnormal.mpr hn))⟩
  | openBrace =>
    by_cases hn : p.last = .normal
    · exact .inr ⟨_, _, if_pos hn, if_neg (hnormal.mp hn), rfl, by simp [hdepth], by simp⟩
    · exact .inl ⟨if_neg hn, if_pos (not_not.mp (mt hnormal.mpr hn))⟩
  | closeBrace =>
    by_cases hl : p.last = .statementEnd ∨ p.last = .endBlock
    · have hgoes : ¬ (z.last ≠ .statementEnd ∧ z.last ≠ .endBlock) := by
        rw [hlast]
        tauto
      cases hframes : z.frames with
      | nil =>
        rw [hframes, List.length_nil] at hdepth
        refine .inl ⟨if_neg fun hp => ?_, ?_⟩
        · omega
        · rw [Item.terminal, Zipper.step, if_neg hgoes, hframes]
      | cons frame frames =>
        obtain ⟨before, ws⟩ := frame
        rw [hframes, List.length_cons] at hdepth
        refine .inr ⟨_, ⟨frames, before ++ [.mk ws (some z.done)], [], .endBlock⟩, if_pos ⟨hl, by omega⟩, ?_, rfl, ?_,
          by simp⟩
        · rw [Item.terminal, Zipper.step, if_neg hgoes, hframes]
        · exact Nat.eq_sub_of_add_eq hdepth
    · refine .inl ⟨if_neg fun hp => hl hp.1, if_pos ?_⟩
      rw [hlast]
      tauto

theorem writtenUntil_prefix (p : Position) (cells : List (Text × Item)) (last : Text) :
    writtenUntil p cells last <+: written cells last := by
  induction cells generalizing p with
  | nil => exact List.prefix_refl last
  | cons cell cells ih =>
    obtain ⟨gap, item⟩ := cell
    rw [writtenUntil, written, List.prefix_append_right_inj, List.prefix_append_right_inj]
    split
    · exact ih _
    · exact List.nil_prefix

theorem item_text_ne_nil {item : Item} (h : item.WellFormed) : item.text ≠ [] := by
  cases item with
  | bare w => exact h.1
  | quoted w =>
    obtain ⟨q, body, hw, -⟩ := h
    exact fun hnil => List.cons_ne_nil _ _ (hw.symm.trans hnil)
  | semicolon => exact List.cons_ne_nil _ _
  | openBrace => exact List.cons_ne_nil _ _
  | closeBrace => exact List.cons_ne_nil _ _

theorem until_after_bare {gap w : Text} {cells : List (Text × Item)} {last : Text} {c : Char} {s : Text}
    (hsep : Separated ((gap, .bare w) :: cells) last) (hitems : ∀ cell ∈ cells, cell.2.WellFormed)
    (hwritten : written cells last = c :: s) (p : Position) : ∃ t, writtenUntil p cells last = c :: t := by
  have hne : writtenUntil p cells last ≠ [] := by
    cases cells with
    | nil => exact hsep rfl
    | cons cell cells =>
      obtain ⟨gap', item'⟩ := cell
      rw [writtenUntil, ne_eq, List.append_eq_nil_iff, List.append_eq_nil_iff]
      exact fun h => item_text_ne_nil (hitems _ List.mem_cons_self) h.2.1
  obtain ⟨d, t, ht⟩ := List.exists_cons_of_ne_nil hne
  have hprefix := writtenUntil_prefix p cells last
  rw [ht, hwritten, List.cons_prefix_cons] at hprefix
  exact ⟨t, hprefix.1 ▸ ht⟩

theorem completes_written {cells : List (Text × Item)} {last : Text} (hgaps : ∀ cell ∈ cells, IsGap cell.1)
    (hlast : IsGap last) (hitems : ∀ cell ∈ cells, cell.2.WellFormed) (hsep : Separated cells last)
    {p : Position} {z : Zipper} (hp : p.Holds z) (hends : BareTokensEnd .between (writtenUntil p cells last))
    (config : NginxConfig) :
    endsInEof (tokens (written cells last)) ∧ Completes z (terminals (tokens (written cells last))) config ↔
      Completes z ((cells.map Prod.snd).map Item.terminal) config := by
  induction cells generalizing p z with
  | nil =>
    have h := lexesTo_trivia hlast.1 []
    rw [List.append_nil] at h
    rw [written, h.terminals_eq, h.ends_iff]
    exact and_iff_right rfl
  | cons cell cells ih =>
    obtain ⟨gap, item⟩ := cell
    rw [List.forall_mem_cons] at hgaps hitems
    rw [writtenUntil, (passes_trivia hgaps.1.1).ends_iff] at hends
    have ih {p' : Position} {z' : Zipper} (hp' : p'.Holds z')
        (hends' : BareTokensEnd .between (writtenUntil p' cells last)) :=
      ih hgaps.2 hitems.2 (separated_tail hsep) hp' hends'
    have hlexes (hitem : LexesTo (item.text ++ written cells last) [item.terminal] (written cells last))
        (hafter : ∀ p', p.accept item = some p' → BareTokensEnd .between (writtenUntil p' cells last)) :
        endsInEof (tokens (written ((gap, item) :: cells) last)) ∧
            Completes z (terminals (tokens (written ((gap, item) :: cells) last))) config ↔
          Completes z ((((gap, item) :: cells).map Prod.snd).map Item.terminal) config := by
      have hlex := (lexesTo_trivia hgaps.1.1 _).trans hitem
      rw [written, hlex.terminals_eq, hlex.ends_iff, List.map_cons, List.map_cons]
      change _ ∧ Completes z (item.terminal :: _) config ↔ _
      rw [completes_cons, completes_cons]
      rcases hp.step item with ⟨-, hz⟩ | ⟨p', z', haccept, hz, hp'⟩
      · simp [hz]
      · simp only [hz, Option.some.injEq, exists_eq_left']
        exact ih hp' (hafter p' haccept)
    cases item with
    | bare w =>
      obtain ⟨hw, hcr⟩ := wellFormed_bare hitems.1
      obtain ⟨c, s, hs, hc⟩ := after_bare hsep hgaps.2 hlast
      obtain ⟨t, ht⟩ := until_after_bare hsep hitems.2 hs ⟨.normal, p.depth⟩
      have hbare : BareTokensEnd .between (w ++ writtenUntil ⟨.normal, p.depth⟩ cells last) := hends
      rw [ht] at hbare
      have hafter := ((passes_word hw hcr).ends_iff (c :: t)).mp hbare
      have hdelimiter := delimiter_of_ends hc hafter
      apply hlexes
      · rw [hs]
        exact lexesTo_word (.inl hw) hdelimiter s
      · rintro p' ⟨⟩
        rw [ht]
        exact (bare_delimiter hdelimiter t).2.mp hafter
    | quoted | semicolon | openBrace | closeBrace =>
      apply hlexes (lexesTo_item hitems.1 rfl _)
      intro p' haccept
      rw [haccept] at hends
      exact ((passes_item hitems.1 rfl).ends_iff _).mp hends

theorem writtenUntil_eq {cells : List (Text × Item)} (last : Text) {p : Position} {z : Zipper} (hp : p.Holds z)
    {config : NginxConfig} (h : Completes z ((cells.map Prod.snd).map Item.terminal) config) :
    writtenUntil p cells last = written cells last := by
  induction cells generalizing p z with
  | nil => rfl
  | cons cell cells ih =>
    obtain ⟨gap, item⟩ := cell
    obtain ⟨z', hz, hrest⟩ := completes_cons.mp h
    rcases hp.step item with ⟨-, hnone⟩ | ⟨p', z'', haccept, hz', hp'⟩
    · rw [hnone] at hz
      contradiction
    · obtain rfl := Option.some.inj (hz.symm.trans hz')
      rw [writtenUntil, written, haccept]
      exact congrArg (gap ++ ·) (congrArg (item.text ++ ·) (ih hp' hrest))

namespace Layout

def terminals (ℓ : Layout) : List Terminal := ℓ.items.map Item.terminal

theorem strip_text (ℓ : Layout) : strip .between ℓ.text = terminalsText ℓ.terminals :=
  strip_written ℓ.isGap ℓ.isGap_last ℓ.wellFormed ℓ.separated

theorem holds_initial : Position.Holds ⟨.start, 0⟩ .initial := ⟨rfl, rfl, by simp [Zipper.initial]⟩

theorem parse_iff {ℓ : Layout} (h : BareTokensEnd .between ℓ.readText) (config : NginxConfig) :
    parse ℓ.text = some (true, config) ↔ Completes .initial ℓ.terminals config := by
  rw [parse_true_iff_completes]
  exact completes_written ℓ.isGap ℓ.isGap_last ℓ.wellFormed ℓ.separated holds_initial h config

theorem readText_eq {ℓ : Layout} {config : NginxConfig} (h : Completes .initial ℓ.terminals config) :
    ℓ.readText = ℓ.text := writtenUntil_eq ℓ.last holds_initial h

end Layout

theorem sameParse_of_iff {s s' : Text} (h : ∀ config, parse s = some (true, config) ↔ parse s' = some (true, config)) :
    SameParse s s' := by
  refine ⟨?_, h⟩
  obtain ⟨result, config, hs⟩ := parse_total s
  obtain ⟨result', config', hs'⟩ := parse_total s'
  rw [hs, hs', Option.map_some, Option.map_some]
  cases result with
  | true =>
    have htrue := (h config).mp hs
    rw [hs'] at htrue
    rw [(Prod.mk.inj (Option.some.inj htrue)).1]
  | false =>
    cases result' with
    | false => rfl
    | true =>
      have htrue := (h config').mpr hs'
      rw [hs] at htrue
      cases htrue

theorem terminals_congr {ℓ ℓ' : Layout} (hitems : ℓ.items = ℓ'.items) : ℓ.terminals = ℓ'.terminals := by
  rw [Layout.terminals, hitems, Layout.terminals]

theorem sameParse_of_ends {ℓ ℓ' : Layout} (hitems : ℓ.items = ℓ'.items) (hends : BareTokensEnd .between ℓ.readText)
    (hends' : BareTokensEnd .between ℓ'.readText) : SameParse ℓ.text ℓ'.text := by
  apply sameParse_of_iff
  intro config
  rw [Layout.parse_iff hends, Layout.parse_iff hends', terminals_congr hitems]

theorem ends_of_sameParse {ℓ ℓ' : Layout} (hitems : ℓ.items = ℓ'.items) (hends : BareTokensEnd .between ℓ.readText)
    {config : NginxConfig} (h : parse ℓ.text = some (true, config)) (hsame : SameParse ℓ.text ℓ'.text) :
    BareTokensEnd .between ℓ'.readText := by
  have hcompletes := (Layout.parse_iff hends config).mp h
  have h' := (hsame.2 config).mp h
  rw [Layout.readText_eq hcompletes] at hends
  rw [Layout.readText_eq (terminals_congr hitems ▸ hcompletes), ← text_eq_strip_iff h', Layout.strip_text,
    ← terminals_congr hitems, ← Layout.strip_text]
  exact (text_eq_strip_iff h).mpr hends

theorem parse_layout {ℓ ℓ' : Layout} (hitems : ℓ.items = ℓ'.items) :
    (BareTokensEnd .between ℓ.readText → BareTokensEnd .between ℓ'.readText → SameParse ℓ.text ℓ'.text) ∧
    (∀ config, BareTokensEnd .between ℓ.readText → parse ℓ.text = some (true, config) →
      (SameParse ℓ.text ℓ'.text ↔ BareTokensEnd .between ℓ'.readText)) := by
  refine ⟨sameParse_of_ends hitems, ?_⟩
  intro config hends h
  exact ⟨ends_of_sameParse hitems hends h, sameParse_of_ends hitems hends⟩

theorem isGap_singleton {c : Char} (hc : isWhite c = true) : IsGap [c] :=
  ⟨.white hc .nil, by simpa using hc⟩

theorem isGap_nil : IsGap [] := ⟨.nil, by simp⟩

theorem isGap_crlf : IsGap ['\r', '\n'] := ⟨.white rfl (.white rfl .nil), by simp [isWhite]⟩

theorem wellFormed_letter {c : Char} (hc : isSpecial c = false) : (Item.bare [c]).WellFormed := by
  simp only [isSpecial, Bool.or_eq_false_iff, decide_eq_false_iff_not] at hc
  simp [Item.WellFormed, isPunctuation, hc]

def twoLines (lineEnd : Text) (hgap : IsGap lineEnd) (hne : lineEnd ≠ []) : Layout where
  cells := [([], .bare ['a']), (lineEnd, .bare ['b']), ([], .semicolon)]
  last := lineEnd
  isGap := by simp [isGap_nil, hgap]
  isGap_last := hgap
  wellFormed := by
    have hletters := @wellFormed_letter 'a' rfl
    have hletters' := @wellFormed_letter 'b' rfl
    simp only [List.forall_mem_cons]
    exact ⟨hletters, hletters', trivial, by simp⟩
  separated := by simp [Separated, Item.isToken, Item.isBare, hne]

def lfLines : Layout := twoLines ['\n'] (isGap_singleton rfl) (by simp)

def crlfLines : Layout := twoLines ['\r', '\n'] isGap_crlf (by simp)

-- `Parse` stops at the `;` and reads no token
def lateToken (lineEnd : Text) (hgap : IsGap lineEnd) (hne : lineEnd ≠ []) : Layout where
  cells := [([], .semicolon), (lineEnd, .bare ['a'])]
  last := lineEnd
  isGap := by simp [isGap_nil, hgap]
  isGap_last := hgap
  wellFormed := by
    have hletter := @wellFormed_letter 'a' rfl
    simp only [List.forall_mem_cons]
    exact ⟨trivial, hletter, by simp⟩
  separated := by simp [Separated, Item.isToken, Item.isBare, hne]

theorem parse_layout_spaces :
    SameParse lfLines.text (twoLines [' '] (isGap_singleton rfl) (by simp)).text ∧
      SameParse (lateToken ['\n'] (isGap_singleton rfl) (by simp)).text
        (lateToken ['\r', '\n'] isGap_crlf (by simp)).text := by
  constructor
  · exact (parse_layout (show lfLines.items = _ from rfl)).1 (by decide +kernel) (by decide +kernel)
  · exact (parse_layout (show (lateToken ['\n'] _ _).items = _ from rfl)).1 (by decide +kernel) (by decide +kernel)

theorem crlf_changes_parse :
    lfLines.text = "a\nb;\n".toList ∧ crlfLines.text = "a\r\nb;\r\n".toList ∧ lfLines.items = crlfLines.items ∧
      ¬ SameParse lfLines.text crlfLines.text := by
  refine ⟨rfl, rfl, rfl, ?_⟩
  rintro ⟨-, hsame⟩
  have hlf : parse lfLines.text = some (true, [.mk [['a'], ['b']] none]) := rfl
  have hcrlf : parse crlfLines.text = some (true, [.mk [['a', '\r'], ['b']] none]) := rfl
  have h := (hsame _).mp hlf
  rw [hcrlf] at h
  simp at h

end Bingit.ConfigParser
