import Bingit.Session

namespace Bingit

open Text

deriving instance DecidableEq for Directive

def storedBy : List Directive → Text → List Text
  | [], _ => []
  | .literal c :: format, s => if s.head? = some c then storedBy format s.tail else []
  | .space :: format, s => storedBy format (s.dropWhile isSpace)
  | .percent :: format, s =>
    if (s.dropWhile isSpace).head? = some '%' then storedBy format (s.dropWhile isSpace).tail else []
  | .field :: format, s =>
    if s.takeWhile (· ≠ '&') = [] then []
    else s.takeWhile (· ≠ '&') :: storedBy format (s.dropWhile (· ≠ '&'))
  | .other :: _, _ => []

theorem storedBy_of_sscanf {format : List Directive} {s : Text} {stored : List Text}
    (h : sscanf format s = some stored) : storedBy format s = stored := by
  induction format generalizing s stored with
  | nil => exact Option.some.inj h
  | cons d format ih =>
    cases d with
    | literal c =>
      rw [sscanf] at h
      rw [storedBy]
      split at h
      · next hc => rw [if_pos hc, ih h]
      · next hc => rw [if_neg hc, Option.some.inj h]
    | space => exact ih h
    | percent =>
      rw [sscanf] at h
      rw [storedBy]
      split at h
      · next hc => rw [if_pos hc, ih h]
      · next hc => rw [if_neg hc, Option.some.inj h]
    | field =>
      simp only [sscanf] at h
      rw [storedBy]
      split at h
      · next hc => rw [if_pos hc, Option.some.inj h]
      · next hc =>
        obtain ⟨fields, hfields, rfl⟩ := Option.map_eq_some_iff.mp h
        rw [if_neg hc, ih hfields]
    | other => cases h

/-- What `%[^&]` reads: up to the next `&` or the end. -/
def IsField (w rest : Text) : Prop := w ≠ [] ∧ '&' ∉ w ∧ ∀ c ∈ rest.head?, c = '&'

inductive FieldAt : List Directive → Text → Text → Prop
  | here {format : List Directive} {w rest : Text} (hw : IsField w rest) : FieldAt (.field :: format) (w ++ rest) w
  | field {format : List Directive} {v rest w : Text} (hv : IsField v rest) (h : FieldAt format rest w) :
      FieldAt (.field :: format) (v ++ rest) w
  | literal {format : List Directive} {c : Char} {s w : Text} (h : FieldAt format s w) :
      FieldAt (.literal c :: format) (c :: s) w
  | space {format : List Directive} {ws s w : Text} (hws : ∀ c ∈ ws, isSpace c = true)
      (hs : ∀ c ∈ s.head?, isSpace c = false) (h : FieldAt format s w) : FieldAt (.space :: format) (ws ++ s) w
  | percent {format : List Directive} {ws s w : Text} (hws : ∀ c ∈ ws, isSpace c = true) (h : FieldAt format s w) :
      FieldAt (.percent :: format) (ws ++ '%' :: s) w

theorem isField_amp {w : Text} (hne : w ≠ []) (hw : '&' ∉ w) (rest : Text) : IsField w ('&' :: rest) :=
  ⟨hne, hw, fun _ hc => (Option.some.inj hc).symm⟩

theorem IsField.scan {w rest : Text} (h : IsField w rest) :
    (w ++ rest).takeWhile (· ≠ '&') = w ∧ (w ++ rest).dropWhile (· ≠ '&') = rest := by
  obtain ⟨-, hw, hrest⟩ := h
  exact takeWhile_dropWhile_ne hw hrest

theorem head_dropWhile {p : Char → Bool} (s : Text) : ∀ c ∈ (s.dropWhile p).head?, p c = false := by
  intro c hc
  have hnot := List.head?_dropWhile_not p s
  rw [Option.mem_def.mp hc] at hnot
  exact hnot

theorem isField_scan {s : Text} (h : s.takeWhile (· ≠ '&') ≠ []) :
    IsField (s.takeWhile (· ≠ '&')) (s.dropWhile (· ≠ '&')) := by
  refine ⟨h, ?_, ?_⟩
  · intro hmem
    simpa using List.mem_takeWhile_imp hmem
  · intro c hc
    simpa using head_dropWhile s c hc

theorem fieldAt_of_mem_storedBy {format : List Directive} {s w : Text} (h : w ∈ storedBy format s) :
    FieldAt format s w := by
  induction format generalizing s with
  | nil => cases h
  | cons d format ih =>
    cases d with
    | literal c =>
      rw [storedBy] at h
      split at h
      · next hc =>
        obtain ⟨s', rfl⟩ := List.head?_eq_some_iff.mp hc
        exact .literal (ih h)
      · cases h
    | space =>
      have hs : s.takeWhile isSpace ++ s.dropWhile isSpace = s := List.takeWhile_append_dropWhile
      rw [← hs]
      exact .space (fun c hc => List.mem_takeWhile_imp hc) (head_dropWhile s) (ih h)
    | percent =>
      rw [storedBy] at h
      split at h
      · next hc =>
        obtain ⟨s', hs'⟩ := List.head?_eq_some_iff.mp hc
        rw [hs'] at h
        have hs : s = s.takeWhile isSpace ++ '%' :: s' := by
          rw [← hs', List.takeWhile_append_dropWhile]
        rw [hs]
        exact .percent (fun c hc => List.mem_takeWhile_imp hc) (ih h)
      · cases h
    | field =>
      rw [storedBy] at h
      split at h
      · cases h
      · next hne =>
        have hs : s = s.takeWhile (· ≠ '&') ++ s.dropWhile (· ≠ '&') := List.takeWhile_append_dropWhile.symm
        have hfield := isField_scan hne
        rcases List.mem_cons.mp h with rfl | h
        · nth_rewrite 1 [hs]
          exact .here hfield
        · rw [hs]
          exact .field hfield (ih h)
    | other => cases h

theorem mem_storedBy_of_fieldAt {format : List Directive} {s w : Text} (h : FieldAt format s w) :
    w ∈ storedBy format s := by
  induction h with
  | here hw =>
    rw [storedBy, hw.scan.1, if_neg hw.1]
    exact List.mem_cons_self
  | field hv h ih =>
    rw [storedBy, hv.scan.1, hv.scan.2, if_neg hv.1]
    exact List.mem_cons_of_mem _ ih
  | @literal format c s w h ih =>
    rw [storedBy, if_pos (List.head?_cons (a := c))]
    exact ih
  | space hws hs h ih =>
    rw [storedBy, (takeWhile_dropWhile_run hws hs).2]
    exact ih
  | @percent format ws s w hws h ih =>
    have hskip : (ws ++ '%' :: s).dropWhile isSpace = '%' :: s :=
      (takeWhile_dropWhile_run hws (by simp [isSpace])).2
    rw [storedBy, hskip, if_pos (List.head?_cons (a := '%'))]
    exact ih

theorem mem_storedBy_iff (format : List Directive) (s w : Text) : w ∈ storedBy format s ↔ FieldAt format s w :=
  ⟨fieldAt_of_mem_storedBy, mem_storedBy_of_fieldAt⟩

def formDirectives (names : List Text) : List Directive :=
  names.flatMap (fun name => name.map .literal ++ [.field])

theorem formDirectives_cons (name : Text) (names : List Text) :
    formDirectives (name :: names) = name.map .literal ++ .field :: formDirectives names := by
  simp [formDirectives]

inductive FormValue : List Text → Text → Text → Prop
  | here {names : List Text} {name w rest : Text} (hw : IsField w rest) : FormValue (name :: names) (name ++ (w ++ rest)) w
  | later {names : List Text} {name v rest w : Text} (hv : IsField v rest) (h : FormValue names rest w) :
      FormValue (name :: names) (name ++ (v ++ rest)) w

theorem fieldAt_literals_iff (name : Text) (format : List Directive) (s w : Text) :
    FieldAt (name.map .literal ++ format) s w ↔ ∃ s', s = name ++ s' ∧ FieldAt format s' w := by
  induction name generalizing s with
  | nil => simp
  | cons c name ih =>
    constructor
    · intro h
      cases h with
      | literal h =>
        obtain ⟨s', rfl, hfield⟩ := (ih _).mp h
        exact ⟨s', rfl, hfield⟩
    · rintro ⟨s', rfl, hfield⟩
      exact .literal ((ih _).mpr ⟨s', rfl, hfield⟩)

theorem fieldAt_formDirectives_iff (names : List Text) (s w : Text) :
    FieldAt (formDirectives names) s w ↔ FormValue names s w := by
  induction names generalizing s with
  | nil => exact iff_of_false nofun nofun
  | cons name names ih =>
    rw [formDirectives_cons, fieldAt_literals_iff]
    constructor
    · rintro ⟨s', rfl, h⟩
      cases h with
      | here hw => exact .here hw
      | field hv h => exact .later hv ((ih _).mp h)
    · intro h
      cases h with
      | here hw => exact ⟨_, rfl, .here hw⟩
      | later hv h => exact ⟨_, rfl, .field hv ((ih _).mpr h)⟩

theorem sscanf_literals (name : Text) (format : List Directive) (s : Text) :
    sscanf (name.map .literal ++ format) (name ++ s) = sscanf format s := by
  induction name with
  | nil => rfl
  | cons c name ih =>
    rw [List.map_cons, List.cons_append, List.cons_append, sscanf, if_pos (List.head?_cons (a := c))]
    exact ih

theorem sscanf_field {w : Text} (hne : w ≠ []) (hw : '&' ∉ w) : sscanf [.field] w = some [w] := by
  have hall : ∀ c ∈ w, decide (c ≠ '&') = true := by
    intro c hc
    have hamp : c ≠ '&' := by
      rintro rfl
      exact hw hc
    simpa using hamp
  have htake : w.takeWhile (· ≠ '&') = w := List.takeWhile_eq_self_iff.mpr hall
  rw [sscanf]
  simp only [htake, if_neg hne, sscanf, Option.map_some]

namespace MemeHandler

theorem scanFields_eq_of_sscanf {Db : Type} (env : Env Db) {format s : Text} {stored : List Text}
    (h : sscanf (directives (cString format)) (cString s) = some stored) :
    scanFields env format s = if ∀ t ∈ stored, t.length + 1 ≤ env.sizeofString then some stored else none := by
  have hall : stored.all (·.length < env.sizeofString) = true ↔ ∀ t ∈ stored, t.length + 1 ≤ env.sizeofString := by
    rw [List.all_eq_true]
    exact forall₂_congr fun _ _ => decide_eq_true_iff
  rw [scanFields, h]
  simp only [Option.bind_eq_bind, Option.bind_some, hall]

theorem scanFields_ne_none_iff {Db : Type} (env : Env Db) {format s : Text}
    (hformat : sscanf (directives (cString format)) (cString s) ≠ none) :
    scanFields env format s ≠ none ↔
      ∀ t ∈ storedBy (directives (cString format)) (cString s), t.length + 1 ≤ env.sizeofString := by
  obtain ⟨stored, hstored⟩ := Option.ne_none_iff_exists'.mp hformat
  rw [storedBy_of_sscanf hstored, scanFields_eq_of_sscanf env hstored]
  simp

-- the one variable that the call passes is enough
def ScansOneField (format s : Text) : Prop :=
  ∃ stored, sscanf (directives (cString format)) (cString s) = some stored ∧ stored.length ≤ 1

theorem scanField_ne_none_iff {Db : Type} (env : Env Db) (format s : Text) :
    scanField env format s ≠ none ↔
      (∀ t ∈ storedBy (directives (cString format)) (cString s), t.length + 1 ≤ env.sizeofString) ∧
        ScansOneField format s := by
  unfold ScansOneField
  cases hstored : sscanf (directives (cString format)) (cString s) with
  | none => simp [scanField, scanFields, hstored]
  | some stored =>
    rw [storedBy_of_sscanf hstored, scanField, scanFields_eq_of_sscanf env hstored]
    by_cases hfit : ∀ t ∈ stored, t.length + 1 ≤ env.sizeofString
    · rw [if_pos hfit, and_iff_right hfit]
      match stored with
      | [] => simp
      | [field] => simp
      | _ :: _ :: _ => simp
    · rw [if_neg hfit]
      exact iff_of_false (fun hne => hne rfl) (fun hall => hfit hall.1)

def scanCall (h : MemeHandler) (request : Request) : Option (Text × Text) :=
  if h.LocationMismatch request.path then none
  else
    match h.route request.path with
    | .create => some (createFormat request.body, request.body)
    | .view => some (h.location ++ h.viewPath ++ "?id=%[^&]".toList, request.path)
    | .list => some (h.location ++ "/list".toList ++ "?query=%[^&]".toList, request.path)
    | _ => none

/-- Every stored text fits its array, with its zero byte. -/
def FieldsFit (size : ℕ) (h : MemeHandler) (request : Request) : Prop :=
  ∀ format s, h.scanCall request = some (format, s) →
    ∀ t ∈ storedBy (directives (cString format)) (cString s), t.length + 1 ≤ size

theorem scanCall_of_route {h : MemeHandler} {request : Request} (hlocation : ¬ h.LocationMismatch request.path)
    {route : Route} : h.route request.path = route → h.scanCall request =
      match route with
      | .create => some (createFormat request.body, request.body)
      | .view => some (h.location ++ h.viewPath ++ "?id=%[^&]".toList, request.path)
      | .list => some (h.location ++ "/list".toList ++ "?query=%[^&]".toList, request.path)
      | _ => none := by
  rintro rfl
  exact if_neg hlocation

theorem fieldsFit_of_scanCall {size : ℕ} {h : MemeHandler} {request : Request} {format s : Text}
    (hcall : h.scanCall request = some (format, s)) :
    h.FieldsFit size request ↔ ∀ t ∈ storedBy (directives (cString format)) (cString s), t.length + 1 ≤ size := by
  constructor
  · intro hfit
    exact hfit format s hcall
  · intro hfit format' s' hcall'
    obtain ⟨rfl, rfl⟩ := Prod.mk.inj (Option.some.inj (hcall.symm.trans hcall'))
    exact hfit

theorem fieldsFit_of_none {size : ℕ} {h : MemeHandler} {request : Request} (hcall : h.scanCall request = none) :
    h.FieldsFit size request := by
  intro format s hcall'
  rw [hcall] at hcall'
  contradiction

def formNames (body : Text) : List Text :=
  if find "&update=".toList body = none then ["image=".toList, "&top=".toList, "&bottom=".toList]
  else ["image=".toList, "&top=".toList, "&bottom=".toList, "&update=".toList]

theorem directives_createFormat (body : Text) :
    directives (cString (createFormat body)) = formDirectives (formNames body) := by
  unfold createFormat formNames
  repeat rw [String.toList_ofList]
  split
  · decide +kernel
  · decide +kernel

end MemeHandler

end Bingit
