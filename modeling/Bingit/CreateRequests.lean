import Bingit.FormEncoding

namespace Bingit.MemeHandler

open Text Interleaving Session

variable {Db : Type} {env : Env Db}

theorem prepareCreateRequest_of_form {body : Text} {form : CreateForm} (hform : createForm env body = some form) :
    prepareCreateRequest env body =
      if form.Rejected then pure .badRequest
      else if form.editId = [] then insertPage form.picFile form.topText form.botText
      else updatePage form.picFile form.topText form.botText form.editId := by
  rw [prepareCreateRequest, hform]
  rfl

def storedForm (env : Env Db) (stored : List Text) : CreateForm :=
  { picFile := decodeField env (stored.getD 0 [])
    topText := decodeField env (stored.getD 1 [])
    botText := decodeField env (stored.getD 2 [])
    editId := stored.getD 3 [] }

theorem createForm_eq_of_sscanf {body : Text} {stored : List Text}
    (hscan : sscanf (formDirectives (formNames body)) (cString body) = some stored) :
    createForm env body =
      if ∀ t ∈ stored, t.length < env.sizeofString then some (storedForm env stored) else none := by
  rw [← directives_createFormat] at hscan
  rw [createForm, scanFields_eq_of_sscanf env hscan]
  simp only [Nat.succ_le_iff]
  split_ifs <;> rfl

theorem createForm_of_sscanf {body : Text} {stored : List Text}
    (hscan : sscanf (formDirectives (formNames body)) (cString body) = some stored)
    (hfit : ∀ t ∈ stored, t.length < env.sizeofString) : createForm env body = some (storedForm env stored) := by
  rw [createForm_eq_of_sscanf hscan, if_pos hfit]

section FormBody

variable {reserved : Char → Bool} {t a b : Text} {u : Option Text}

def formFields (reserved : Char → Bool) (t a b : Text) (u : Option Text) : List (Text × Text) :=
  [("image=".toList, formEncode reserved t), ("&top=".toList, formEncode reserved a),
    ("&bottom=".toList, formEncode reserved b)] ++ u.toList.map (fun id => ("&update=".toList, id))

def formBody (reserved : Char → Bool) (t a b : Text) (u : Option Text) : Text := formText (formFields reserved t a b u)

theorem notMem_digits {id : Text} (h : IsDigits id) {c : Char} (hc : c.isDigit = false) : c ∉ id := by
  intro hmem
  rw [h.isDigit c hmem] at hc
  contradiction

structure FormInput (reserved : Char → Bool) (t a b : Text) (u : Option Text) : Prop where
  reserves : Reserves reserved
  image : IsByteText t
  top : IsByteText a
  bottom : IsByteText b
  update : ∀ id ∈ u, IsDigits id

theorem FormInput.values (h : FormInput reserved t a b u) :
    ∀ field ∈ formFields reserved t a b u, '&' ∉ field.2 ∧ nul ∉ field.2 := by
  simp only [formFields, List.forall_mem_append, List.forall_mem_cons, List.forall_mem_map, Option.mem_toList]
  refine ⟨⟨?_, ?_, ?_, by simp⟩, ?_⟩
  · exact notMem_formEncode h.reserves h.image
  · exact notMem_formEncode h.reserves h.top
  · exact notMem_formEncode h.reserves h.bottom
  · intro id hid
    exact ⟨notMem_digits (h.update id hid) (by decide), notMem_digits (h.update id hid) (by decide)⟩

theorem FormInput.noNul (h : FormInput reserved t a b u) : nul ∉ formBody reserved t a b u := by
  intro hmem
  obtain ⟨field, hfield, hin⟩ := List.mem_flatMap.mp hmem
  have hname : ∀ field ∈ formFields reserved t a b u, nul ∉ field.1 := by
    simp only [formFields, List.forall_mem_append, List.forall_mem_cons, List.forall_mem_map]
    repeat rw [String.toList_ofList]
    refine ⟨⟨by decide, by decide, by decide, by simp⟩, ?_⟩
    intro id _
    decide
  rcases List.mem_append.mp hin with hin | hin
  · exact hname field hfield hin
  · exact (h.values field hfield).2 hin

theorem formBody_eq (reserved : Char → Bool) (t a b : Text) (u : Option Text) :
    formBody reserved t a b u = "image=".toList ++ (formEncode reserved t ++ ("&top=".toList ++
      (formEncode reserved a ++ ("&bottom=".toList ++ (formEncode reserved b ++ u.elim [] ("&update=".toList ++ ·)))))) := by
  cases u <;> simp [formBody, formText, formFields]

theorem find_update_append {w : Text} (hw : '&' ∉ w) (s : Text) :
    find "&update=".toList (w ++ s) = none ↔ find "&update=".toList s = none := by
  rw [String.toList_ofList, find_append_of_notMem hw, Option.map_eq_none_iff]

theorem find_update_name {name : Text} (hname : '&' ∉ name) {s : Text} (hne : ¬ "update=".toList <+: name ++ s) :
    find "&update=".toList ('&' :: name ++ s) = none ↔ find "&update=".toList s = none := by
  have hstart : ¬ "&update=".toList <+: '&' :: (name ++ s) := by
    rw [String.toList_ofList]
    intro hp
    apply hne
    rw [String.toList_ofList]
    exact (List.cons_prefix_cons.mp hp).2
  rw [List.cons_append, find_cons_of_not hstart, Option.map_eq_none_iff, find_update_append hname]

theorem FormInput.find_update (h : FormInput reserved t a b u) :
    find "&update=".toList (formBody reserved t a b u) = none ↔ u = none := by
  have ht := (notMem_formEncode h.reserves h.image).1
  have ha := (notMem_formEncode h.reserves h.top).1
  have hb := (notMem_formEncode h.reserves h.bottom).1
  have htop (s : Text) : find "&update=".toList ("&top=".toList ++ s) = none ↔ find "&update=".toList s = none :=
    @find_update_name "top=".toList (by decide) s (by simp [List.cons_prefix_cons])
  have hbottom (s : Text) : find "&update=".toList ("&bottom=".toList ++ s) = none ↔ find "&update=".toList s = none :=
    @find_update_name "bottom=".toList (by decide) s (by simp [List.cons_prefix_cons])
  rw [formBody_eq, find_update_append (by decide), find_update_append ht, htop, find_update_append ha, hbottom,
    find_update_append hb]
  cases u with
  | none => exact iff_of_true rfl rfl
  | some id =>
    simp only [Option.elim_some, find_append_self, reduceCtorEq]

theorem decodeField_formEncode (hreserves : Reserves reserved) (hunescape : env.unescape = percentDecode) {s : Text}
    (hs : IsByteText s) : decodeField env (formEncode reserved s) = s := by
  rw [decodeField, hunescape, percentDecode_formEncode hreserves hs.byte, cString_of_notMem hs.noNul]

theorem decodeField_nil (hunescape : env.unescape = percentDecode) : decodeField env [] = [] := by
  rw [decodeField, hunescape]
  rfl

theorem FormInput.formNames_eq (h : FormInput reserved t a b u) :
    formNames (formBody reserved t a b u) = (formFields reserved t a b u).map Prod.fst := by
  rw [formNames]
  cases u with
  | none =>
    rw [if_pos (h.find_update.mpr rfl)]
    rfl
  | some id =>
    have hfound : find "&update=".toList (formBody reserved t a b (some id)) ≠ none := by
      rw [ne_eq, h.find_update]
      simp
    rw [if_neg hfound]
    rfl

theorem FormInput.sscanf_eq (h : FormInput reserved t a b u) :
    sscanf (formDirectives (formNames (formBody reserved t a b u))) (cString (formBody reserved t a b u)) =
      some (((formFields reserved t a b u).map Prod.snd).takeWhile (fun value => decide (value ≠ []))) := by
  rw [h.formNames_eq, cString_of_notMem h.noNul]
  apply sscanf_formText
  · exact fun field hfield => (h.values field hfield).1
  · cases u <;> simp [formFields]

theorem FormInput.createForm_eq (h : FormInput reserved t a b u) (hunescape : env.unescape = percentDecode)
    (hfit : ∀ field ∈ formFields reserved t a b u, field.2.length < env.sizeofString) :
    ∃ form, createForm env (formBody reserved t a b u) = some form ∧
      ((t = [] ∨ a = [] ∨ b = []) ∧ form.Rejected ∨ form = ⟨t, a, b, u.getD []⟩) := by
  have hstored : ∀ value ∈ ((formFields reserved t a b u).map Prod.snd).takeWhile (fun value => decide (value ≠ [])),
      value.length < env.sizeofString := by
    intro value hvalue
    obtain ⟨field, hfield, rfl⟩ := List.mem_map.mp (List.takeWhile_subset _ hvalue)
    exact hfit field hfield
  refine ⟨_, createForm_of_sscanf h.sscanf_eq hstored, ?_⟩
  have hvalues : (formFields reserved t a b u).map Prod.snd =
      formEncode reserved t :: formEncode reserved a :: formEncode reserved b :: u.toList := by
    cases u <;> rfl
  have hnil := decodeField_nil hunescape
  have hdecode {s : Text} (hs : IsByteText s) := decodeField_formEncode h.reserves hunescape hs
  have hempty (s : Text) : (formEncode reserved s ≠ []) ↔ s ≠ [] := not_congr (formEncode_eq_nil_iff reserved s)
  rw [hvalues]
  simp only [List.takeWhile_cons, decide_eq_true_eq, hempty]
  by_cases ht : t = []
  · left
    simp [ht, storedForm, CreateForm.Rejected, hnil]
  by_cases ha : a = []
  · left
    simp [ht, ha, storedForm, CreateForm.Rejected, hnil]
  by_cases hb : b = []
  · left
    simp [ht, ha, hb, storedForm, CreateForm.Rejected, hnil]
  right
  have hid : u.toList.takeWhile (fun value => decide (value ≠ [])) = u.toList := by
    rw [List.takeWhile_eq_self_iff]
    intro id hid
    simpa using (h.update id (Option.mem_toList.mp hid)).ne_nil
  have hlast : u.toList.getD 0 [] = u.getD [] := by cases u <;> rfl
  rw [if_pos ht, if_pos ha, if_pos hb, hid]
  simp only [storedForm, List.getD_cons_zero, List.getD_cons_succ, hdecode h.image, hdecode h.top, hdecode h.bottom,
    hlast]

theorem rejected_iff (t a b id : Text) :
    CreateForm.Rejected ⟨t, a, b, id⟩ ↔ t = [] ∨ a = [] ∨ b = [] ∨ t = "Choose...".toList := by
  unfold CreateForm.Rejected
  tauto

def plainReserved (c : Char) : Bool := c ∈ ['+', '&', '=', '%']

theorem isByteText_of_all {s : Text} (h : s.all (fun c => decide (c.toNat < 256 ∧ c ≠ nul)) = true) : IsByteText s := by
  rw [List.all_eq_true] at h
  constructor
  · exact fun c hc => (of_decide_eq_true (h c hc)).1
  · exact fun hmem => (of_decide_eq_true (h nul hmem)).2 rfl

end FormBody

section AnyBody

theorem sscanf_literals_cases (name : Text) (format : List Directive) (s : Text) :
    (∃ s', s = name ++ s' ∧ sscanf (name.map .literal ++ format) s = sscanf format s') ∨
      (¬ ∃ s', s = name ++ s') ∧ sscanf (name.map .literal ++ format) s = some [] := by
  induction name generalizing s with
  | nil => exact .inl ⟨s, rfl, rfl⟩
  | cons c name ih =>
    rw [List.map_cons, List.cons_append, sscanf]
    cases s with
    | nil => exact .inr ⟨by simp, rfl⟩
    | cons d s =>
      by_cases hd : d = c
      · subst hd
        rw [List.head?_cons, if_pos rfl, List.tail_cons]
        rcases ih s with ⟨s', rfl, hscan⟩ | ⟨hno, hscan⟩
        · exact .inl ⟨s', rfl, hscan⟩
        · exact .inr ⟨by simpa using hno, hscan⟩
      · rw [List.head?_cons, if_neg (by simpa using hd)]
        refine .inr ⟨?_, rfl⟩
        rintro ⟨s', hs'⟩
        exact hd (List.cons.inj hs').1

theorem sscanf_field_cases (name : Text) (names : List Text) (s : Text) :
    (∃ w rest, s = name ++ (w ++ rest) ∧ IsField w rest ∧
      sscanf (formDirectives (name :: names)) s = (sscanf (formDirectives names) rest).map (w :: ·)) ∨
    (¬ ∃ w rest, s = name ++ (w ++ rest) ∧ IsField w rest) ∧ sscanf (formDirectives (name :: names)) s = some [] := by
  rw [formDirectives_cons]
  rcases sscanf_literals_cases name (.field :: formDirectives names) s with ⟨s', rfl, hscan⟩ | ⟨hno, hscan⟩
  · rw [hscan, sscanf]
    by_cases hempty : s'.takeWhile (· ≠ '&') = []
    · simp only [hempty, if_true]
      refine .inr ⟨?_, trivial⟩
      rintro ⟨w, rest, hs', hfield⟩
      rw [List.append_cancel_left hs', hfield.scan.1] at hempty
      exact hfield.1 hempty
    · simp only [if_neg hempty]
      refine .inl ⟨_, _, ?_, isField_scan hempty, rfl⟩
      rw [List.takeWhile_append_dropWhile]
  · refine .inr ⟨?_, hscan⟩
    rintro ⟨w, rest, rfl, -⟩
    exact hno ⟨_, rfl⟩

theorem sscanf_formDirectives_ne_none (names : List Text) (s : Text) : sscanf (formDirectives names) s ≠ none := by
  induction names generalizing s with
  | nil => simp [formDirectives, sscanf]
  | cons name names ih =>
    rcases sscanf_field_cases name names s with ⟨w, rest, -, -, hscan⟩ | ⟨-, hscan⟩
    · rw [hscan]
      simpa using ih rest
    · simp [hscan]

theorem field_unique {name w w' rest rest' : Text} (hw : IsField w rest) (hw' : IsField w' rest')
    (h : name ++ (w ++ rest) = name ++ (w' ++ rest')) : w = w' ∧ rest = rest' := by
  have htext := List.append_cancel_left h
  obtain ⟨htake, hdrop⟩ := hw.scan
  rw [htext] at htake hdrop
  exact ⟨htake.symm.trans hw'.scan.1, hdrop.symm.trans hw'.scan.2⟩

structure ThreeFields (s pic top bot rest : Text) : Prop where
  text : s = "image=".toList ++ (pic ++ ("&top=".toList ++ (top ++ ("&bottom=".toList ++ (bot ++ rest)))))
  image : IsField pic ("&top=".toList ++ (top ++ ("&bottom=".toList ++ (bot ++ rest))))
  top : IsField top ("&bottom=".toList ++ (bot ++ rest))
  bottom : IsField bot rest

def editNames : List Text := ["image=".toList, "&top=".toList, "&bottom=".toList, "&update=".toList]

theorem sscanf_editNames (s : Text) :
    (∃ pic top bot rest, ThreeFields s pic top bot rest ∧
      sscanf (formDirectives editNames) s =
        (sscanf (formDirectives ["&update=".toList]) rest).map (fun stored => pic :: top :: bot :: stored)) ∨
    (¬ ∃ pic top bot rest, ThreeFields s pic top bot rest) ∧
      ∃ stored, sscanf (formDirectives editNames) s = some stored ∧ stored.length < 3 := by
  rcases sscanf_field_cases "image=".toList ["&top=".toList, "&bottom=".toList, "&update=".toList] s with
    ⟨pic, s₁, rfl, hpic, himage⟩ | ⟨hno, himage⟩
  · rcases sscanf_field_cases "&top=".toList ["&bottom=".toList, "&update=".toList] s₁ with
      ⟨top, s₂, rfl, htop, hscanTop⟩ | ⟨hno, hscanTop⟩
    · rcases sscanf_field_cases "&bottom=".toList ["&update=".toList] s₂ with
        ⟨bot, rest, rfl, hbot, hscanBot⟩ | ⟨hno, hscanBot⟩
      · refine .inl ⟨pic, top, bot, rest, ⟨rfl, hpic, htop, hbot⟩, ?_⟩
        rw [editNames, himage, hscanTop, hscanBot, Option.map_map, Option.map_map]
        rfl
      · refine .inr ⟨?_, [pic, top], by rw [editNames, himage, hscanTop, hscanBot]; rfl, by simp⟩
        rintro ⟨pic', top', bot', rest', h⟩
        obtain ⟨rfl, hs₁⟩ := field_unique hpic h.image h.text
        obtain ⟨rfl, hs₂⟩ := field_unique htop h.top hs₁
        exact hno ⟨bot', rest', hs₂, h.bottom⟩
    · refine .inr ⟨?_, [pic], by rw [editNames, himage, hscanTop]; rfl, by simp⟩
      rintro ⟨pic', top', bot', rest', h⟩
      obtain ⟨rfl, hs₁⟩ := field_unique hpic h.image h.text
      exact hno ⟨top', _, hs₁, h.top⟩
  · refine .inr ⟨?_, [], himage, by simp⟩
    rintro ⟨pic, top, bot, rest, h⟩
    exact hno ⟨pic, _, h.text, h.image⟩

theorem ThreeFields.unique {s pic top bot rest pic' top' bot' rest' : Text} (h : ThreeFields s pic top bot rest)
    (h' : ThreeFields s pic' top' bot' rest') : pic = pic' ∧ top = top' ∧ bot = bot' ∧ rest = rest' := by
  obtain ⟨rfl, hbehindImage⟩ := field_unique h.image h'.image (h.text.symm.trans h'.text)
  obtain ⟨rfl, hbehindTop⟩ := field_unique h.top h'.top hbehindImage
  obtain ⟨rfl, rfl⟩ := field_unique h.bottom h'.bottom hbehindTop
  exact ⟨rfl, rfl, rfl, rfl⟩

def UpdateValue (s id : Text) : Prop :=
  ∃ before after, s = before ++ ("&update=".toList ++ (id ++ after)) ∧ before ≠ [] ∧ IsField id after

/-- The named row is updated, or there is an error. -/
def UpdatesOrRejects (env : Env Db) (body : Text) : Prop :=
  (prepareCreateRequest env body).Ensures (fun op => ∀ s, (execute env op s).1.memeCount = s.memeCount)
    (fun _ => True) ∧
    ((∃ page, prepareCreateRequest env body = pure page ∧ page.code ≠ 200) ∨
      ∃ pic top bot id, UpdateValue (cString body) id ∧ prepareCreateRequest env body = updatePage pic top bot id)

def ScanFits (env : Env Db) (body : Text) : Prop :=
  ∀ w, FormValue (formNames body) (cString body) w → w.length + 1 ≤ env.sizeofString

def UpdateFollows (env : Env Db) (body : Text) : Prop :=
  ∀ pic top bot rest, ThreeFields (cString body) pic top bot rest →
    CreateForm.Rejected ⟨decodeField env pic, decodeField env top, decodeField env bot, []⟩ ∨
      ∃ id after, rest = "&update=".toList ++ (id ++ after) ∧ IsField id after

theorem createForm_ne_none (env : Env Db) (body : Text) :
    createForm env body ≠ none ↔
      ∀ w ∈ storedBy (directives (cString (createFormat body))) (cString body), w.length + 1 ≤ env.sizeofString := by
  have hscan : sscanf (directives (cString (createFormat body))) (cString body) ≠ none := by
    rw [directives_createFormat]
    exact sscanf_formDirectives_ne_none _ _
  rw [← scanFields_ne_none_iff env hscan, createForm]
  cases scanFields env (createFormat body) body <;> simp

theorem createForm_ne_none_iff (env : Env Db) (body : Text) : createForm env body ≠ none ↔ ScanFits env body := by
  rw [createForm_ne_none]
  simp only [ScanFits, directives_createFormat, mem_storedBy_iff, fieldAt_formDirectives_iff]

theorem not_updatesOrRejects_of_none {body : Text} (hform : createForm env body = none) :
    ¬ UpdatesOrRejects env body := by
  have hfail : prepareCreateRequest env body = .fail .undefined := by
    rw [prepareCreateRequest, hform]
    rfl
  rintro ⟨-, ⟨page, hpage, -⟩ | ⟨pic, top, bot, id, -, hupdate⟩⟩
  · rw [hfail] at hpage
    cases hpage
  · rw [hfail] at hupdate
    cases hupdate

theorem scanned_update (rest : Text) :
    (∃ id after, rest = "&update=".toList ++ (id ++ after) ∧ IsField id after ∧
      sscanf (formDirectives ["&update=".toList]) rest = some [id]) ∨
    (¬ ∃ id after, rest = "&update=".toList ++ (id ++ after) ∧ IsField id after) ∧
      sscanf (formDirectives ["&update=".toList]) rest = some [] := by
  rcases sscanf_field_cases "&update=".toList [] rest with ⟨id, after, hrest, hid, hscan⟩ | hno
  · exact .inl ⟨id, after, hrest, hid, hscan⟩
  · exact .inr hno

theorem memeCount_updatePage (env : Env Db) (pic top bot id : Text) :
    (updatePage pic top bot id).Ensures (fun op => ∀ s, (execute env op s).1.memeCount = s.memeCount) (fun _ => True) :=
  ⟨fun _ => rfl, fun _ => trivial⟩

theorem updatesOrRejects_of_rejected {body : Text} {form : CreateForm} (hform : createForm env body = some form)
    (hrejected : form.Rejected) : UpdatesOrRejects env body := by
  rw [UpdatesOrRejects, prepareCreateRequest_of_form hform, if_pos hrejected]
  exact ⟨trivial, .inl ⟨.badRequest, rfl, by decide⟩⟩

theorem not_updatesOrRejects_of_insert {body pic top bot : Text}
    (h : prepareCreateRequest env body = insertPage pic top bot) :
    ¬ UpdatesOrRejects env body := by
  rintro ⟨-, ⟨page, hpage, -⟩ | ⟨pic', top', bot', id, -, hupdate⟩⟩
  · rw [h] at hpage
    cases hpage
  · rw [h] at hupdate
    cases (Prog.call.inj hupdate).1

theorem form_eq {body : Text} {form : CreateForm} {stored : List Text} (hform : createForm env body = some form)
    (hscan : sscanf (formDirectives (formNames body)) (cString body) = some stored) :
    form = storedForm env stored := by
  rw [createForm_eq_of_sscanf hscan] at hform
  split_ifs at hform
  exact (Option.some.inj hform).symm

theorem ThreeFields.updateFollows_iff {body pic top bot rest : Text} (h : ThreeFields (cString body) pic top bot rest) :
    UpdateFollows env body ↔
      CreateForm.Rejected ⟨decodeField env pic, decodeField env top, decodeField env bot, []⟩ ∨
        ∃ id after, rest = "&update=".toList ++ (id ++ after) ∧ IsField id after := by
  constructor
  · exact fun hfollows => hfollows pic top bot rest h
  · intro hhere pic' top' bot' rest' h'
    obtain ⟨rfl, rfl, rfl, rfl⟩ := h.unique h'
    exact hhere

theorem updatesOrRejects_iff {body : Text} (hupdate : find "&update=".toList body ≠ none)
    (hunescape : env.unescape [] = []) : UpdatesOrRejects env body ↔ ScanFits env body ∧ UpdateFollows env body := by
  rw [← createForm_ne_none_iff]
  cases hform : createForm env body with
  | none => exact iff_of_false (not_updatesOrRejects_of_none hform) (fun h => h.1 rfl)
  | some form =>
    rw [and_iff_right (by simp)]
    have hnames : formNames body = editNames := if_neg hupdate
    have hdecode : decodeField env [] = [] := by
      rw [decodeField, plusToSpace, List.map_nil, hunescape]
      rfl
    rcases sscanf_editNames (cString body) with ⟨pic, top, bot, rest, hthree, hscan⟩ | ⟨hno, stored, hscan, hfew⟩
    · rw [hthree.updateFollows_iff]
      rcases scanned_update rest with ⟨id, after, hrest, hid, hlast⟩ | ⟨hno, hlast⟩
      · have hfields := form_eq hform (hnames ▸ hscan.trans (congrArg _ hlast))
        refine iff_of_true ?_ (.inr ⟨id, after, hrest, hid⟩)
        by_cases hrejected : form.Rejected
        · exact updatesOrRejects_of_rejected hform hrejected
        have hedit : form.editId = id := congrArg CreateForm.editId hfields
        have hpage := prepareCreateRequest_of_form hform
        rw [if_neg hrejected, if_neg (hedit ▸ hid.1), hedit] at hpage
        refine ⟨?_, .inr ⟨_, _, _, id, ?_, hpage⟩⟩
        · rw [hpage]
          exact memeCount_updatePage env _ _ _ id
        · refine ⟨"image=".toList ++ (pic ++ ("&top=".toList ++ (top ++ ("&bottom=".toList ++ bot)))), after, ?_,
            by simp, hid⟩
          rw [hthree.text, hrest]
          simp only [List.append_assoc]
      · have hfields : form = ⟨decodeField env pic, decodeField env top, decodeField env bot, []⟩ :=
          @form_eq _ _ _ _ [pic, top, bot] hform (hnames ▸ hscan.trans (congrArg _ hlast))
        rw [or_iff_left hno]
        subst hfields
        constructor
        · intro hedits
          by_contra hrejected
          have hpage := prepareCreateRequest_of_form hform
          rw [if_neg hrejected, if_pos rfl] at hpage
          exact not_updatesOrRejects_of_insert hpage hedits
        · exact fun hrejected => updatesOrRejects_of_rejected hform hrejected
    · have hfields := form_eq hform (hnames ▸ hscan)
      have hbottom : form.botText = [] := by
        have hthird : stored.getD 2 [] = [] := by
          rw [List.getD_eq_getElem?_getD, List.getElem?_eq_none (Nat.le_of_lt_succ hfew), Option.getD_none]
        rw [hfields, storedForm, hthird, hdecode]
      refine iff_of_true (updatesOrRejects_of_rejected hform (.inr (.inr (.inr hbottom)))) ?_
      intro pic top bot rest hthree
      exact absurd ⟨pic, top, bot, rest, hthree⟩ hno

def extraField : Text := "image=cat.jpg&top=hi&bottom=me&update=5&x=1".toList

theorem threeFields_extraField :
    ThreeFields (cString extraField) "cat.jpg".toList "hi".toList "me".toList "&update=5&x=1".toList := by
  unfold extraField
  repeat rw [String.toList_ofList]
  constructor
  · rfl
  · exact isField_amp (by decide) (by decide) _
  · exact isField_amp (by decide) (by decide) _
  · exact isField_amp (by decide) (by decide) _

theorem updatesOrRejects_extraField :
    UpdatesOrRejects (.standalone fun (db : Unit) _ => (db, ⟨[], none⟩)) extraField := by
  have hread : find "&update=".toList extraField ≠ none ∧
      createForm (.standalone fun (db : Unit) _ => (db, ⟨[], none⟩)) extraField ≠ none := by
    unfold extraField
    repeat rw [String.toList_ofList]
    decide +kernel
  refine (updatesOrRejects_iff hread.1 rfl).mpr ⟨?_, threeFields_extraField.updateFollows_iff.mpr (.inr ?_)⟩
  · exact (createForm_ne_none_iff _ _).mp hread.2
  · exact ⟨['5'], ['&', 'x', '=', '1'], rfl, isField_amp (by decide) (by decide) _⟩

def fieldBetween : Text := "image=cat.jpg&top=hi&bottom=me&x=1&update=5".toList

theorem edit_inserts :
    UpdateValue fieldBetween ['5'] ∧
      ¬ UpdatesOrRejects (.standalone fun (db : Unit) _ => (db, ⟨[], none⟩)) fieldBetween := by
  have hform : createForm (.standalone fun (db : Unit) _ => (db, ⟨[], none⟩)) fieldBetween =
      some ⟨['c', 'a', 't', '.', 'j', 'p', 'g'], ['h', 'i'], ['m', 'e'], []⟩ := by
    unfold fieldBetween
    rw [String.toList_ofList]
    decide +kernel
  constructor
  · unfold fieldBetween UpdateValue
    repeat rw [String.toList_ofList]
    exact ⟨"image=cat.jpg&top=hi&bottom=me&x=1".toList, [], rfl, by decide, by decide, by decide, by simp⟩
  · have hpage := prepareCreateRequest_of_form hform
    rw [if_neg (by decide), if_pos rfl] at hpage
    exact not_updatesOrRejects_of_insert hpage

end AnyBody

end Bingit.MemeHandler
