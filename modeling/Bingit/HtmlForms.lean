import Bingit.Html
import Mathlib.Data.List.ModifyLast

namespace Bingit.Html

open Event

structure Element where
  isEnd : Bool
  name : List Char
  attributes : List (List Char × List Char)
  deriving DecidableEq

namespace Element

def addTagChar (e : Element) (c : Char) : Element := { e with name := e.name ++ [c] }

def addAttribute (e : Element) : Element := { e with attributes := e.attributes ++ [([], [])] }

def addAttributeChar (e : Element) (c : Char) : Element :=
  { e with attributes := e.attributes.modifyLast fun a => (a.1 ++ [c], a.2) }

def addValue (e : Element) (s : List Char) : Element :=
  { e with attributes := e.attributes.modifyLast fun a => (a.1, a.2 ++ s) }

def valueOf (e : Element) (name : List Char) : Option (List Char) := e.attributes.lookup name

end Element

abbrev MenuOption := Option (List Char) × List Char

inductive Control where
  | form (action method : List Char)
  | input (kind name value : List Char)
  | select (name : List Char) (options : List MenuOption)
  deriving DecidableEq

structure FormState where
  element : Option Element
  menu : Option (List Char × List MenuOption)
  option : Option MenuOption
  deriving DecidableEq

namespace FormState

def initial : FormState := ⟨none, none, none⟩

def openTag (st : FormState) (e : Element) : FormState × List Control :=
  if e.name = ['i', 'n', 'p', 'u', 't'] then
    (st, [.input ((e.valueOf ['t', 'y', 'p', 'e']).getD ['t', 'e', 'x', 't'])
      ((e.valueOf ['n', 'a', 'm', 'e']).getD []) ((e.valueOf ['v', 'a', 'l', 'u', 'e']).getD [])])
  else if e.name = ['f', 'o', 'r', 'm'] then
    (st, [.form ((e.valueOf ['a', 'c', 't', 'i', 'o', 'n']).getD [])
      ((e.valueOf ['m', 'e', 't', 'h', 'o', 'd']).getD ['g', 'e', 't'])])
  else if e.name = ['s', 'e', 'l', 'e', 'c', 't'] then
    ({ st with menu := some ((e.valueOf ['n', 'a', 'm', 'e']).getD [], []) }, [])
  else if e.name = ['o', 'p', 't', 'i', 'o', 'n'] then
    ({ st with option := some (e.valueOf ['v', 'a', 'l', 'u', 'e'], []) }, [])
  else (st, [])

def closeTag (st : FormState) (e : Element) : FormState × List Control :=
  if e.name = ['o', 'p', 't', 'i', 'o', 'n'] then
    ({ st with
      menu := st.menu.map fun menu => (menu.1, menu.2 ++ st.option.toList)
      option := none }, [])
  else if e.name = ['s', 'e', 'l', 'e', 'c', 't'] then
    ({ st with menu := none }, st.menu.toList.map fun menu => .select menu.1 menu.2)
  else (st, [])

def feed (st : FormState) : Event → FormState × List Control
  | .text c => ({ st with option := st.option.map fun option => (option.1, option.2 ++ [c]) }, [])
  | .openStart => ({ st with element := some ⟨false, [], []⟩ }, [])
  | .openEnd => ({ st with element := some ⟨true, [], []⟩ }, [])
  | .tagChar c => ({ st with element := st.element.map (·.addTagChar c) }, [])
  | .openAttribute => ({ st with element := st.element.map (·.addAttribute) }, [])
  | .attributeChar c => ({ st with element := st.element.map (·.addAttributeChar c) }, [])
  | .value c => ({ st with element := st.element.map (·.addValue [c]) }, [])
  | .closeTag =>
    match st.element with
    | none => (st, [])
    | some e => if e.isEnd then closeTag { st with element := none } e else openTag { st with element := none } e

def scan (st : FormState) : List Event → FormState × List Control
  | [] => (st, [])
  | e :: es => ((scan (st.feed e).1 es).1, (st.feed e).2 ++ (scan (st.feed e).1 es).2)

end FormState

def controls (page : List Char) : List Control := (FormState.initial.scan (events page)).2

open FormState

theorem scan_append (st : FormState) (es fs : List Event) :
    st.scan (es ++ fs) = (((st.scan es).1.scan fs).1, (st.scan es).2 ++ ((st.scan es).1.scan fs).2) := by
  induction es generalizing st with
  | nil => rfl
  | cons e es ih =>
    rw [List.cons_append, scan, ih]
    simp only [scan, List.append_assoc]

theorem scan_text {st : FormState} (h : st.option = none) (s : List Char) : st.scan (s.map text) = (st, []) := by
  induction s with
  | nil => rfl
  | cons c s ih =>
    have hfeed : st.feed (text c) = (st, []) := by
      rw [feed, h, Option.map_none, ← h]
    rw [List.map_cons, scan, hfeed, ih]
    rfl

theorem addValue_append (e : Element) (s t : List Char) : (e.addValue s).addValue t = e.addValue (s ++ t) := by
  obtain ⟨isEnd, name, attributes⟩ := e
  simp only [Element.addValue, Element.mk.injEq, true_and]
  rcases List.eq_nil_or_concat attributes with rfl | ⟨attributes, a, rfl⟩
  · rfl
  · simp only [List.concat_eq_append, List.modifyLast_concat, List.append_assoc]

theorem addValue_nil (e : Element) : e.addValue [] = e := by
  obtain ⟨isEnd, name, attributes⟩ := e
  simp only [Element.addValue, List.append_nil, Element.mk.injEq, true_and]
  rcases List.eq_nil_or_concat attributes with rfl | ⟨attributes, a, rfl⟩
  · rfl
  · simp only [List.concat_eq_append, List.modifyLast_concat]

theorem scan_value (st : FormState) (s : List Char) :
    st.scan (s.map value) = ({ st with element := st.element.map (·.addValue s) }, []) := by
  obtain ⟨element, menu, option⟩ := st
  induction s generalizing element with
  | nil => simp [scan, addValue_nil]
  | cons c s ih =>
    rw [List.map_cons, scan]
    simp only [feed, ih, Option.map_map, List.nil_append, Prod.mk.injEq, and_true, FormState.mk.injEq]
    congr 1
    funext e
    exact addValue_append e [c] s

structure Yields (parts : List Part) (cs : List Control) : Prop where
  state : (readParts .data parts).1 = .data
  scan : FormState.initial.scan (readParts .data parts).2 = (.initial, cs)

theorem yields_nil : Yields [] [] := ⟨rfl, rfl⟩

theorem Yields.append {parts parts' : List Part} {cs cs' : List Control} (h : Yields parts cs)
    (h' : Yields parts' cs') : Yields (parts ++ parts') (cs ++ cs') := by
  constructor
  · rw [readParts_append, h.state, h'.state]
  · rw [readParts_append, h.state, scan_append, h.scan, h'.scan]

theorem yields_markup {m : List Char} {cs : List Control} (hstate : (run .data m).1 = .data)
    (hscan : FormState.initial.scan (run .data m).2 = (.initial, cs)) : Yields [.markup m] cs := by
  constructor
  · rw [readParts, readParts, hstate]
  · rw [readParts, readParts, List.append_nil, hscan]

theorem yields_text (s : List Char) : Yields [.text s] [] := by
  constructor
  · rfl
  · rw [readParts, readParts, List.append_nil, scan_text rfl]

theorem controls_pageText {parts : List Part} {cs : List Control} (hreads : Reads .data parts) (h : Yields parts cs) :
    controls (pageText parts) = cs := by
  have hend : finish State.data = [] := rfl
  rw [controls, events, run_pageText hreads, h.state, hend, List.append_nil, h.scan]

def Control.target : Control → Option (List Char × List Char)
  | .form action method => some (action, method.map Char.toUpper)
  | _ => none

def target (page : List Char) : Option (List Char × List Char) := (controls page).findSome? Control.target

/-- What is typed and picked in the control of a name. -/
structure User where
  typed : List Char → Option (List Char)
  picked : List Char → Option ℕ

def collapse (s : List Char) : List Char :=
  [' '].intercalate ((s.splitOnP isBlank).filter fun word => decide (word ≠ []))

def stripNewlines (s : List Char) : List Char := s.filter fun c => decide (c ≠ '\n' ∧ c ≠ '\r')

section

variable (inText inValue : References)

def MenuOption.choice (option : MenuOption) : List Char :=
  option.1.elim (collapse (decode inText option.2)) (decode inValue)

/-- A menu left alone submits its first option. -/
def Control.entry (user : User) : Control → Option (List Char × List Char)
  | .form _ _ => none
  | .input kind name initial =>
    if name = [] ∨ kind.map Char.toLower = ['s', 'u', 'b', 'm', 'i', 't'] then none
    else if kind.map Char.toLower = ['h', 'i', 'd', 'd', 'e', 'n'] then some (name, decode inValue initial)
    else some (name, stripNewlines ((user.typed name).getD (decode inValue initial)))
  | .select name options =>
    if name = [] then none
    else (((user.picked name).bind fun i => options[i]?).or options.head?).map
      fun option => (name, MenuOption.choice inText inValue option)

def submission (user : User) (page : List Char) : List (List Char × List Char) :=
  (controls page).filterMap (Control.entry inText inValue user)

end

end Bingit.Html
