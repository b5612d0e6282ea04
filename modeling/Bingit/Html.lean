import Mathlib.Data.List.Chain

namespace Bingit.Html

inductive State where
  | data
  | tagOpen
  | endTagOpen
  | tagName
  | beforeAttributeName
  | attributeName
  | afterAttributeName
  | beforeAttributeValue
  | doubleQuoted
  | singleQuoted
  | unquoted
  | afterQuoted
  | selfClosing
  | bogusComment
  | markupDeclaration
  | markupDeclarationDash
  | commentStart
  | commentStartDash
  | comment
  | commentDash
  | commentEnd
  | commentEndBang
  deriving DecidableEq

inductive Event where
  | text (c : Char)
  | openStart
  | openEnd
  | tagChar (c : Char)
  | openAttribute
  | attributeChar (c : Char)
  | value (c : Char)
  | closeTag
  deriving DecidableEq

open State Event

def isBlank (c : Char) : Bool := c = ' ' || c = '\t' || c = '\n' || c = '\r' || c = Char.ofNat 12

def stepData (c : Char) : State × List Event := if c = '<' then (tagOpen, []) else (data, [text c])

def stepTag (c : Char) : State × List Event :=
  if isBlank c then (beforeAttributeName, [])
  else if c = '/' then (selfClosing, [])
  else if c = '>' then (data, [closeTag])
  else (tagName, [tagChar c.toLower])

def stepAttribute (c : Char) : State × List Event :=
  if c = '=' then (beforeAttributeValue, [])
  else if isBlank c then (afterAttributeName, [])
  else if c = '/' then (selfClosing, [])
  else if c = '>' then (data, [closeTag])
  else (attributeName, [attributeChar c.toLower])

def stepBetween (c : Char) : State × List Event :=
  if isBlank c then (beforeAttributeName, [])
  else if c = '/' then (selfClosing, [])
  else if c = '>' then (data, [closeTag])
  else (attributeName, [openAttribute, attributeChar c.toLower])

def stepUnquoted (c : Char) : State × List Event :=
  if isBlank c then (beforeAttributeName, [])
  else if c = '>' then (data, [closeTag])
  else (unquoted, [value c])

def stepComment (c : Char) : State × List Event := if c = '-' then (commentDash, []) else (comment, [])

def step : State → Char → State × List Event
  | .data, c => stepData c
  | .tagOpen, c =>
    if c = '!' then (markupDeclaration, [])
    else if c = '/' then (endTagOpen, [])
    else if c.isAlpha then (tagName, [openStart, tagChar c.toLower])
    else if c = '?' then (bogusComment, [])
    -- not markup after all: the `<` was text, and `c` is read again
    else ((stepData c).1, text '<' :: (stepData c).2)
  | .endTagOpen, c =>
    if c.isAlpha then (tagName, [openEnd, tagChar c.toLower])
    else if c = '>' then (data, [])
    else (bogusComment, [])
  | .tagName, c => stepTag c
  | .beforeAttributeName, c => stepBetween c
  | .attributeName, c => stepAttribute c
  | .afterAttributeName, c =>
    if c = '=' then (beforeAttributeValue, []) else if isBlank c then (afterAttributeName, []) else stepBetween c
  | .beforeAttributeValue, c =>
    if isBlank c then (beforeAttributeValue, [])
    else if c = '"' then (doubleQuoted, [])
    else if c = '\'' then (singleQuoted, [])
    else stepUnquoted c
  | .doubleQuoted, c => if c = '"' then (afterQuoted, []) else (doubleQuoted, [value c])
  | .singleQuoted, c => if c = '\'' then (afterQuoted, []) else (singleQuoted, [value c])
  | .unquoted, c => stepUnquoted c
  | .afterQuoted, c => stepBetween c
  | .selfClosing, c => stepBetween c
  | .bogusComment, c => if c = '>' then (data, []) else (bogusComment, [])
  | .markupDeclaration, c =>
    if c = '-' then (markupDeclarationDash, []) else if c = '>' then (data, []) else (bogusComment, [])
  | .markupDeclarationDash, c =>
    if c = '-' then (commentStart, []) else if c = '>' then (data, []) else (bogusComment, [])
  | .commentStart, c =>
    if c = '-' then (commentStartDash, []) else if c = '>' then (data, []) else stepComment c
  | .commentStartDash, c =>
    if c = '-' then (commentEnd, []) else if c = '>' then (data, []) else stepComment c
  | .comment, c => stepComment c
  | .commentDash, c => if c = '-' then (commentEnd, []) else (comment, [])
  | .commentEnd, c =>
    if c = '>' then (data, [])
    else if c = '!' then (commentEndBang, [])
    else if c = '-' then (commentEnd, [])
    else (comment, [])
  | .commentEndBang, c => if c = '>' then (data, []) else stepComment c

def finish : State → List Event
  | .tagOpen => [text '<']
  | .endTagOpen => [text '<', text '/']
  | _ => []

def run : State → List Char → State × List Event
  | state, [] => (state, [])
  | state, c :: s => ((run (step state c).1 s).1, (step state c).2 ++ (run (step state c).1 s).2)

def events (page : List Char) : List Event := (run data page).2 ++ finish (run data page).1

structure Tag where
  isEnd : Bool
  name : List Char
  attributes : List (List Char)
  deriving DecidableEq

def addAttributeChar (c : Char) (attributes : List (List Char)) : List (List Char) :=
  attributes.modifyLast (· ++ [c])

def assemble : Option Tag → List Event → List Tag
  | _, [] => []
  | _, .openStart :: es => assemble (some ⟨false, [], []⟩) es
  | _, .openEnd :: es => assemble (some ⟨true, [], []⟩) es
  | some tag, .tagChar c :: es => assemble (some { tag with name := tag.name ++ [c] }) es
  | some tag, .openAttribute :: es => assemble (some { tag with attributes := tag.attributes ++ [[]] }) es
  | some tag, .attributeChar c :: es =>
    assemble (some { tag with attributes := addAttributeChar c tag.attributes }) es
  | some tag, .closeTag :: es => tag :: assemble none es
  | tag, _ :: es => assemble tag es

def isMarkup : Event → Bool
  | .text _ => false
  | .value _ => false
  | _ => true

/-- The tags of a page, with the names of their attributes. -/
def tags (page : List Char) : List Tag := assemble none ((events page).filter isMarkup)

theorem run_append (state : State) (a b : List Char) :
    run state (a ++ b) = ((run (run state a).1 b).1, (run state a).2 ++ (run (run state a).1 b).2) := by
  induction a generalizing state with
  | nil => rfl
  | cons c a ih =>
    rw [List.cons_append, run, ih]
    simp only [run, List.append_assoc]

def opensMarkup (c : Char) : Bool := c = '!' || c = '/' || c.isAlpha || c = '?'

def NoMarkup (s : List Char) : Prop := s.IsChain (fun a b => ¬ (a = '<' ∧ opensMarkup b = true))

instance (s : List Char) : Decidable (NoMarkup s) := inferInstanceAs (Decidable (s.IsChain _))

section NoMarkup

variable {a b : List Char}

theorem NoMarkup.append (ha : NoMarkup a) (hb : NoMarkup b) (h : ∀ c ∈ b.head?, opensMarkup c = false) :
    NoMarkup (a ++ b) := by
  refine List.IsChain.append ha hb ?_
  rintro x - y hy ⟨-, hopens⟩
  rw [h y hy] at hopens
  contradiction

theorem NoMarkup.append_of_notMem (ha : '<' ∉ a) (hb : NoMarkup b) : NoMarkup (a ++ b) := by
  induction a with
  | nil => exact hb
  | cons c a ih =>
    rw [List.mem_cons, not_or] at ha
    refine List.isChain_cons.mpr ⟨?_, ih ha.2⟩
    rintro y - ⟨rfl, -⟩
    exact ha.1 rfl

theorem noMarkup_of_notMem (ha : '<' ∉ a) : NoMarkup a := by
  have happend := NoMarkup.append_of_notMem ha .nil
  rwa [List.append_nil] at happend

end NoMarkup

theorem step_tagOpen_of_not {c : Char} (h : opensMarkup c = false) :
    step tagOpen c = ((stepData c).1, text '<' :: (stepData c).2) := by
  simp only [opensMarkup, Bool.or_eq_false_iff, decide_eq_false_iff_not] at h
  obtain ⟨⟨⟨hbang, hslash⟩, halpha⟩, hquestion⟩ := h
  simp [step, hbang, hslash, halpha, hquestion]

theorem run_lt {c : Char} (h : opensMarkup c = false) (s : List Char) :
    run data ('<' :: c :: s) = ((run data (c :: s)).1, text '<' :: (run data (c :: s)).2) := by
  have hfirst : step data '<' = (tagOpen, []) := rfl
  simp only [run, hfirst, step_tagOpen_of_not h]
  rfl

theorem run_text {c : Char} (h : c ≠ '<') (s : List Char) :
    run data (c :: s) = ((run data s).1, text c :: (run data s).2) := by
  have hstep : step data c = (data, [text c]) := if_neg h
  simp only [run, hstep]
  rfl

theorem run_noMarkup {u : List Char} (hu : NoMarkup u) {d : Char} (hd : opensMarkup d = false)
    (s : List Char) :
    run data (u ++ d :: s) = ((run data (d :: s)).1, u.map text ++ (run data (d :: s)).2) := by
  induction u with
  | nil => rfl
  | cons c u ih =>
    have ih := ih (List.isChain_cons.mp hu).2
    by_cases hc : c = '<'
    · subst hc
      cases u with
      | nil => exact run_lt hd s
      | cons e u =>
        have he : opensMarkup e = false := by
          simpa using (List.isChain_cons_cons.mp hu).1
        rw [List.cons_append, List.cons_append, run_lt he, ← List.cons_append, ih]
        rfl
    · rw [List.cons_append, run_text hc, ih]
      rfl

theorem run_value {u : List Char} (hu : '"' ∉ u) (s : List Char) :
    run doubleQuoted (u ++ s) = ((run doubleQuoted s).1, u.map value ++ (run doubleQuoted s).2) := by
  induction u with
  | nil => rfl
  | cons c u ih =>
    rw [List.mem_cons, not_or] at hu
    have hstep : step doubleQuoted c = (doubleQuoted, [value c]) := if_neg (Ne.symm hu.1)
    simp only [List.cons_append, run, hstep, ih hu.2]
    rfl

theorem run_unquoted {u : List Char} (hu : ∀ c ∈ u, isBlank c = false ∧ c ≠ '>') (s : List Char) :
    run unquoted (u ++ s) = ((run unquoted s).1, u.map value ++ (run unquoted s).2) := by
  induction u with
  | nil => rfl
  | cons c u ih =>
    obtain ⟨⟨hblank, hclose⟩, hrest⟩ := List.forall_mem_cons.mp hu
    have hstep : step unquoted c = (unquoted, [value c]) := by
      simp only [step, stepUnquoted, hblank, if_neg hclose, Bool.false_eq_true, if_false]
    simp only [List.cons_append, run, hstep, ih hrest]
    rfl

theorem run_unquoted_close {state : State} {m u : List Char} (hm : (run state m).1 = unquoted)
    (hu : ∀ c ∈ u, isBlank c = false ∧ c ≠ '>') :
    run state (m ++ (u ++ ['>'])) = (data, (run state m).2 ++ (u.map value ++ [closeTag])) := by
  rw [run_append, hm, run_unquoted hu]
  rfl

/-- What an ampersand and the text behind it stand for. -/
abbrev References := List Char → Option (List Char × ℕ)

def decodeFrom (reference : References) : ℕ → List Char → List Char
  | _, [] => []
  | skip + 1, _ :: s => decodeFrom reference skip s
  | 0, c :: s =>
    if c = '&' then
      match reference s with
      | some (chars, places) => chars ++ decodeFrom reference places s
      | none => c :: decodeFrom reference 0 s
    else c :: decodeFrom reference 0 s

def decode (reference : References) (s : List Char) : List Char := decodeFrom reference 0 s

def inReference (c : Char) : Bool := c.isAlphanum || c = '#' || c = ';'

def NoReference (reference : References) (s : List Char) : Prop :=
  ∀ before after rest, s = before ++ '&' :: after → (∀ c ∈ rest.head?, inReference c = false) →
    reference (after ++ rest) = none

section NoReference

variable {reference : References} {a b : List Char}

theorem NoReference.append_of_notMem (ha : '&' ∉ a) (hb : NoReference reference b) :
    NoReference reference (a ++ b) := by
  intro before after rest heq hrest
  rcases List.append_eq_append_iff.mp heq with ⟨x, rfl, hx⟩ | ⟨x, rfl, hx⟩
  · exact hb x after rest hx hrest
  · cases x with
    | nil => exact hb [] after rest hx.symm hrest
    | cons c x =>
      obtain ⟨rfl, -⟩ := List.cons.inj hx
      exact absurd (by simp) ha

theorem noReference_of_notMem (ha : '&' ∉ a) : NoReference reference a := by
  rintro before after - rfl -
  exact absurd (by simp) ha

theorem NoReference.append (ha : NoReference reference a) (hb : NoReference reference b)
    (h : ∀ c ∈ b.head?, inReference c = false) : NoReference reference (a ++ b) := by
  intro before after rest heq hrest
  rcases List.append_eq_append_iff.mp heq with ⟨x, rfl, hx⟩ | ⟨x, rfl, hx⟩
  · exact hb x after rest hx hrest
  · cases x with
    | nil => exact hb [] after rest hx.symm hrest
    | cons c x =>
      rw [List.cons_append] at hx
      obtain ⟨rfl, rfl⟩ := List.cons.inj hx
      rw [List.append_assoc]
      refine ha before x (b ++ rest) rfl ?_
      intro c hc
      rw [List.head?_append] at hc
      cases b with
      | nil => exact hrest c hc
      | cons d b => exact h c hc

theorem decode_of_noReference {s : List Char} (h : NoReference reference s) : decode reference s = s := by
  induction s with
  | nil => rfl
  | cons c s ih =>
    have hrest : decodeFrom reference 0 s = s := by
      apply ih
      rintro before after rest rfl
      exact h (c :: before) after rest rfl
    rw [decode, decodeFrom]
    split
    · next hc =>
      have hnone : reference s = none := by
        have := h [] s [] (by rw [hc]; rfl) (by simp)
        rwa [List.append_nil] at this
      rw [hnone, hrest]
    · rw [hrest]

end NoReference

structure PlainText (reference : References) (s : List Char) : Prop where
  noMarkup : NoMarkup s
  noReference : NoReference reference s

structure PlainValue (reference : References) (s : List Char) : Prop where
  noQuote : '"' ∉ s
  noReference : NoReference reference s

def noReferences : References := fun _ => none

theorem plainText_noReferences {s : List Char} : PlainText noReferences s ↔ NoMarkup s :=
  ⟨fun h => h.noMarkup, fun h => ⟨h, fun _ _ _ _ _ => rfl⟩⟩

theorem plainValue_noReferences {s : List Char} : PlainValue noReferences s ↔ '"' ∉ s :=
  ⟨fun h => h.noQuote, fun h => ⟨h, fun _ _ _ _ _ => rfl⟩⟩

section Plain

variable {reference : References} {a b : List Char}

theorem PlainText.append (ha : PlainText reference a) (hb : PlainText reference b)
    (h : ∀ c ∈ b.head?, opensMarkup c = false ∧ inReference c = false) : PlainText reference (a ++ b) :=
  ⟨ha.noMarkup.append hb.noMarkup fun c hc => (h c hc).1, ha.noReference.append hb.noReference fun c hc => (h c hc).2⟩

theorem PlainText.append_of_notMem (ha : '<' ∉ a ∧ '&' ∉ a) (hb : PlainText reference b) :
    PlainText reference (a ++ b) :=
  ⟨hb.noMarkup.append_of_notMem ha.1, hb.noReference.append_of_notMem ha.2⟩

theorem plainText_of_notMem (ha : '<' ∉ a ∧ '&' ∉ a) : PlainText reference a :=
  ⟨noMarkup_of_notMem ha.1, noReference_of_notMem ha.2⟩

theorem PlainValue.append_of_notMem (ha : '"' ∉ a ∧ '&' ∉ a) (hb : PlainValue reference b) :
    PlainValue reference (a ++ b) := by
  refine ⟨?_, hb.noReference.append_of_notMem ha.2⟩
  rw [List.mem_append, not_or]
  exact ⟨ha.1, hb.noQuote⟩

end Plain

inductive Part where
  | markup (s : List Char)
  | text (s : List Char)
  | value (s : List Char)

def Part.chars : Part → List Char
  | .markup s => s
  | .text s => s
  | .value s => s

def pageText (parts : List Part) : List Char := parts.flatMap Part.chars

theorem pageText_cons (part : Part) (parts : List Part) : pageText (part :: parts) = part.chars ++ pageText parts :=
  List.flatMap_cons

theorem pageText_append (parts parts' : List Part) : pageText (parts ++ parts') = pageText parts ++ pageText parts' :=
  List.flatMap_append

theorem pageText_head {m : List Char} {c : Char} (h : m.head? = some c) (parts : List Part) :
    (pageText (.markup m :: parts)).head? = some c := by
  rw [pageText_cons, Part.chars, List.head?_append, h]
  rfl

def readParts : State → List Part → State × List Event
  | state, [] => (state, [])
  | state, .markup s :: parts =>
    ((readParts (run state s).1 parts).1, (run state s).2 ++ (readParts (run state s).1 parts).2)
  | state, .text s :: parts => ((readParts state parts).1, s.map Event.text ++ (readParts state parts).2)
  | state, .value s :: parts => ((readParts state parts).1, s.map Event.value ++ (readParts state parts).2)

def Reads : State → List Part → Prop
  | _, [] => True
  | state, .markup s :: parts => Reads (run state s).1 parts
  | state, .text s :: parts =>
    state = data ∧ NoMarkup s ∧ (pageText parts).head? = some '<' ∧ Reads data parts
  | state, .value s :: parts => state = doubleQuoted ∧ '"' ∉ s ∧ Reads doubleQuoted parts

theorem run_pageText {state : State} {parts : List Part} (h : Reads state parts) :
    run state (pageText parts) = readParts state parts := by
  induction parts generalizing state with
  | nil => rfl
  | cons part parts ih =>
    rw [pageText_cons]
    cases part with
    | markup s =>
      have hrest := ih h
      rw [Part.chars, run_append, hrest]
      rfl
    | text s =>
      obtain ⟨rfl, hplain, hhead, hrest⟩ := h
      obtain ⟨rest, heq⟩ := List.head?_eq_some_iff.mp hhead
      have hread := ih hrest
      rw [heq] at hread ⊢
      rw [Part.chars, run_noMarkup hplain rfl, hread]
      rfl
    | value s =>
      obtain ⟨rfl, hplain, hrest⟩ := h
      rw [Part.chars, run_value hplain, ih hrest]
      rfl

theorem readParts_append (state : State) (parts parts' : List Part) :
    readParts state (parts ++ parts') = ((readParts (readParts state parts).1 parts').1,
      (readParts state parts).2 ++ (readParts (readParts state parts).1 parts').2) := by
  induction parts generalizing state with
  | nil => rfl
  | cons part parts ih =>
    cases part <;> simp only [List.cons_append, readParts, ih, List.append_assoc]

theorem Reads.append {state : State} {parts parts' : List Part} (h : Reads state parts)
    (h' : Reads (readParts state parts).1 parts') : Reads state (parts ++ parts') := by
  induction parts generalizing state with
  | nil => exact h'
  | cons part parts ih =>
    cases part with
    | markup s => exact ih h h'
    | text s =>
      obtain ⟨rfl, hplain, hhead, hrest⟩ := h
      refine ⟨rfl, hplain, ?_, ih hrest h'⟩
      change (pageText (parts ++ parts')).head? = some '<'
      rw [pageText_append, List.head?_append, hhead]
      rfl
    | value s =>
      obtain ⟨rfl, hplain, hrest⟩ := h
      exact ⟨rfl, hplain, ih hrest h'⟩

inductive SamePart : Part → Part → Prop
  | markup (s : List Char) : SamePart (.markup s) (.markup s)
  | text (s s' : List Char) : SamePart (.text s) (.text s')
  | value (s s' : List Char) : SamePart (.value s) (.value s')

theorem filter_text (s : List Char) : (s.map Event.text).filter isMarkup = [] := by
  rw [List.filter_eq_nil_iff]
  intro e he
  obtain ⟨c, -, rfl⟩ := List.mem_map.mp he
  simp [isMarkup]

theorem filter_value (s : List Char) : (s.map Event.value).filter isMarkup = [] := by
  rw [List.filter_eq_nil_iff]
  intro e he
  obtain ⟨c, -, rfl⟩ := List.mem_map.mp he
  simp [isMarkup]

theorem readParts_same {parts parts' : List Part} (h : List.Forall₂ SamePart parts parts') (state : State) :
    (readParts state parts).1 = (readParts state parts').1 ∧
      (readParts state parts).2.filter isMarkup = (readParts state parts').2.filter isMarkup := by
  induction h generalizing state with
  | nil => exact ⟨rfl, rfl⟩
  | cons hpart hparts ih =>
    cases hpart with
    | markup s =>
      obtain ⟨hstate, hfilter⟩ := ih (run state s).1
      simp only [readParts, List.filter_append, hstate, hfilter, and_self]
    | text s s' =>
      obtain ⟨hstate, hfilter⟩ := ih state
      simp only [readParts, List.filter_append, filter_text, hstate, hfilter, and_self]
    | value s s' =>
      obtain ⟨hstate, hfilter⟩ := ih state
      simp only [readParts, List.filter_append, filter_value, hstate, hfilter, and_self]

theorem tags_same {parts parts' : List Part} (h : List.Forall₂ SamePart parts parts') (hreads : Reads data parts)
    (hreads' : Reads data parts') : tags (pageText parts) = tags (pageText parts') := by
  obtain ⟨hstate, hfilter⟩ := readParts_same h data
  rw [tags, tags, events, events, run_pageText hreads, run_pageText hreads', List.filter_append, List.filter_append,
    hstate, hfilter]

def HasRun (kind : Char → Event) (page s : List Char) : Prop :=
  ∃ before after, events page = before ++ s.map kind ++ after ∧ (∀ c, before.getLast? ≠ some (kind c)) ∧
    ∀ c, after.head? ≠ some (kind c)

def Spans (state : State) (m : List Char) (state' : State) (first last : Event) : Prop :=
  (run state m).1 = state' ∧ (run state m).2.head? = some first ∧ (run state m).2.getLast? = some last

instance (state : State) (m : List Char) (state' : State) (first last : Event) :
    Decidable (Spans state m state' first last) := inferInstanceAs (Decidable (_ ∧ _))

theorem hasRun_of_events {kind : Char → Event} {page s : List Char} {before before' after after' : List Event}
    {e e' : Event} (hevents : events page = before ++ before' ++ s.map kind ++ (after ++ after'))
    (hlast : before'.getLast? = some e) (hfirst : after.head? = some e') (hkind : ∀ c, isMarkup (kind c) = false)
    (he : isMarkup e = true) (he' : isMarkup e' = true) : HasRun kind page s := by
  have hne {e : Event} (he : isMarkup e = true) (c : Char) : e ≠ kind c := by
    rintro rfl
    rw [hkind c] at he
    contradiction
  refine ⟨before ++ before', after ++ after', hevents, ?_, ?_⟩
  · intro c
    rw [List.getLast?_append, hlast]
    simpa using hne he c
  · intro c
    rw [List.head?_append, hfirst]
    simpa using hne he' c

theorem hasRun_of_parts {kind : Char → Event} {part : Part} {s : List Char}
    (hpart : ∀ state parts,
      readParts state (part :: parts) = ((readParts state parts).1, s.map kind ++ (readParts state parts).2))
    {parts before after : List Part} {m m' : List Char} {first e e' last : Event} {state state' state'' : State}
    (hparts : parts = before ++ .markup m :: part :: .markup m' :: after) (hreads : Reads data parts)
    (hbefore : (readParts data before).1 = state) (hm : Spans state m state' first e)
    (hm' : Spans state' m' state'' e' last) (hkind : ∀ c, isMarkup (kind c) = false) (he : isMarkup e = true)
    (he' : isMarkup e' = true) : HasRun kind (pageText parts) s := by
  subst hparts
  have hevents : events (pageText (before ++ .markup m :: part :: .markup m' :: after)) =
      (readParts data before).2 ++ (run state m).2 ++ s.map kind ++ ((run state' m').2 ++
        ((readParts (run state' m').1 after).2 ++
          finish (readParts data (before ++ .markup m :: part :: .markup m' :: after)).1)) := by
    rw [events, run_pageText hreads]
    nth_rewrite 1 [readParts_append]
    simp only [readParts, hpart, hbefore, hm.1, List.append_assoc]
  exact hasRun_of_events hevents hm.2.2 hm'.2.1 hkind he he'

end Bingit.Html
