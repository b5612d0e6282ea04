import Bingit.CreateRequests

namespace Bingit.MemeHandler

open Text Interleaving Meme

variable {Db : Type} (env : Env Db) (h : MemeHandler)

def CreateForm.Harmless (form : CreateForm) : Prop :=
  '\'' ∉ form.picFile ∧ '\'' ∉ form.topText ∧ '\'' ∉ form.botText ∧ (form.editId = [] ∨ Sql.IsNumber form.editId)

-- the format of `sscanf` begins with the location and the view path: a conversion there would have no array
def HarmlessRequest (request : Request) : Prop :=
  h.FieldsFit env.sizeofString request ∧
    (h.LocationMismatch request.path ∨
      match h.route request.path with
      | .new => True
      | .edit memeId => '\'' ∉ memeId
      | .create => ∀ form ∈ createForm env request.body, form.Rejected ∨ form.Harmless
      | .view =>
        ScansOneField (h.location ++ h.viewPath ++ "?id=%[^&]".toList) request.path ∧
          ∀ memeId ∈ h.viewId env request.path, '\'' ∉ memeId
      | .list =>
        ScansOneField (h.location ++ "/list".toList ++ "?query=%[^&]".toList) request.path ∧
          ∀ searchQuery ∈ h.searchQuery env request.path, '\'' ∉ searchQuery
      | .delete memeId => '\'' ∉ memeId
      | .unknown => True)

-- behind an undefined step any statement may be run
def KeepsUserText {α : Type} (p : Action α) : Prop :=
  p.Defined ∧ p.Ensures (fun op => ∀ q, op.Runs q → q.KeepsUserText) (fun _ => True)

theorem keepsUserText_pure {α : Type} (a : α) : KeepsUserText (Prog.pure a) := ⟨trivial, trivial⟩

theorem keepsUserText_query {α : Type} {q : Query} (hq : ∀ t ∈ q.userTexts, nul ∉ t) {f : ExecResult → Action α}
    (hf : ∀ r, KeepsUserText (f r)) : KeepsUserText (Action.query q >>= f) ↔ q.Harmless := by
  rw [← Query.keepsUserText_iff hq]
  constructor
  · intro h
    exact h.2.1 q (.query q)
  · intro hkeeps
    refine ⟨fun r => (hf r).1, ?_, fun r => (hf r).2⟩
    rintro _ ⟨⟩
    exact hkeeps

theorem keepsUserText_insertMeme {α : Type} {picFile topText botText : Text}
    (hq : ∀ t ∈ [picFile, topText, botText], nul ∉ t) {f : ℕ × ExecResult → Action α}
    (hf : ∀ r, KeepsUserText (f r)) :
    KeepsUserText (Action.insertMeme picFile topText botText >>= f) ↔
      '\'' ∉ picFile ∧ '\'' ∉ topText ∧ '\'' ∉ botText := by
  have hiff (uniqueId : ℕ) := Query.keepsUserText_iff (q := .insert uniqueId picFile topText botText) hq
  constructor
  · intro h
    exact (hiff 1).mp (h.2.1 _ (.insert 1 picFile topText botText))
  · intro hharmless
    refine ⟨fun r => (hf r).1, ?_, fun r => (hf r).2⟩
    rintro _ ⟨uniqueId⟩
    exact (hiff uniqueId).mpr hharmless

theorem keepsUserText_thrown {α β : Type} {o : Option α} {f : α → Action β} (h : ∀ a ∈ o, KeepsUserText (f a)) :
    KeepsUserText (Prog.ofOption .thrown o >>= f) := by
  cases o with
  | none => exact ⟨nofun, trivial⟩
  | some a => exact h a rfl

theorem keepsUserText_scan {α β : Type} {o : Option α} {f : α → Action β} :
    KeepsUserText (Prog.ofOption .undefined o >>= f) ↔ o ≠ none ∧ ∀ a ∈ o, KeepsUserText (f a) := by
  cases o with
  | none => exact iff_of_false (fun h => h.1 rfl) (fun h => h.1 rfl)
  | some a => simp [Prog.ofOption]

theorem keepsUserText_map {α β : Type} (p : Action α) (g : α → β) :
    KeepsUserText (p >>= fun a => pure (g a)) ↔ KeepsUserText p :=
  and_congr (Prog.defined_map p g) (Prog.ensures_map p g)

theorem nul_notMem_decodeField (field : Text) : nul ∉ decodeField env field := nul_notMem_cString _

theorem keepsUserText_readMeme {memeId : Text} (hid : nul ∉ memeId) (found : MemeRow → Page) :
    KeepsUserText (readMeme memeId found) ↔ '\'' ∉ memeId := by
  apply keepsUserText_query (q := .select memeId)
  · simpa [Query.userTexts] using hid
  · intro r
    apply keepsUserText_thrown
    intro row _
    split <;> exact keepsUserText_pure _

theorem keepsUserText_delete {memeId : Text} (hid : nul ∉ memeId) :
    KeepsUserText (prepareDeleteRequest memeId) ↔ '\'' ∉ memeId := by
  apply keepsUserText_query (q := .delete memeId)
  · simpa [Query.userTexts] using hid
  · exact fun _ => keepsUserText_pure _

theorem subset_of_sscanf {format : List Directive} {s : Text} {stored : List Text}
    (h : sscanf format s = some stored) : ∀ t ∈ stored, t ⊆ s := by
  induction format generalizing s stored with
  | nil =>
    obtain rfl := Option.some.inj h
    simp
  | cons d format ih =>
    cases d with
    | literal c =>
      rw [sscanf] at h
      split at h
      · intro t ht
        exact List.Subset.trans (ih h t ht) (List.tail_subset s)
      · obtain rfl := Option.some.inj h
        simp
    | space =>
      intro t ht
      exact List.Subset.trans (ih h t ht) (List.dropWhile_suffix _).subset
    | percent =>
      rw [sscanf] at h
      split at h
      · intro t ht
        exact List.Subset.trans (ih h t ht)
          (List.Subset.trans (List.tail_subset _) (List.dropWhile_suffix _).subset)
      · obtain rfl := Option.some.inj h
        simp
    | field =>
      simp only [sscanf] at h
      split at h
      · obtain rfl := Option.some.inj h
        simp
      · obtain ⟨fields, hfields, rfl⟩ := Option.map_eq_some_iff.mp h
        rw [List.forall_mem_cons]
        refine ⟨(List.takeWhile_prefix _).subset, ?_⟩
        intro t ht
        exact List.Subset.trans (ih hfields t ht) (List.dropWhile_suffix _).subset
    | other => simp [sscanf] at h

theorem nul_notMem_scanFields {format s : Text} {stored : List Text} (h : scanFields env format s = some stored) :
    ∀ t ∈ stored, nul ∉ t := by
  simp only [scanFields, Option.bind_eq_bind, Option.bind_eq_some_iff] at h
  obtain ⟨fields, hfields, hif⟩ := h
  split at hif
  · obtain rfl := Option.some.inj hif
    intro t ht hnul
    exact nul_notMem_cString s (subset_of_sscanf hfields t ht hnul)
  · contradiction

theorem nul_notMem_scanField {format s field : Text} (h : scanField env format s = some field) : nul ∉ field := by
  simp only [scanField, Option.bind_eq_bind, Option.bind_eq_some_iff] at h
  obtain ⟨stored, hstored, hmatch⟩ := h
  split at hmatch
  · obtain rfl := Option.some.inj hmatch
    simp
  · obtain rfl := Option.some.inj hmatch
    exact nul_notMem_scanFields env hstored _ (by simp)
  · contradiction

theorem nul_notMem_createForm {body : Text} {form : CreateForm} (h : createForm env body = some form) :
    nul ∉ form.picFile ∧ nul ∉ form.topText ∧ nul ∉ form.botText ∧ nul ∉ form.editId := by
  simp only [createForm, Option.bind_eq_bind, Option.bind_eq_some_iff] at h
  obtain ⟨stored, hstored, hform⟩ := h
  obtain rfl := Option.some.inj hform
  refine ⟨nul_notMem_decodeField env _, nul_notMem_decodeField env _, nul_notMem_decodeField env _, ?_⟩
  change nul ∉ stored.getD 3 []
  rw [List.getD_eq_getElem?_getD]
  cases hget : stored[3]? with
  | none => simp
  | some t => exact nul_notMem_scanFields env hstored t (List.mem_of_getElem? hget)

theorem keepsUserText_create (body : Text) :
    KeepsUserText (prepareCreateRequest env body) ↔
      createForm env body ≠ none ∧ ∀ form ∈ createForm env body, form.Rejected ∨ form.Harmless := by
  rw [prepareCreateRequest, keepsUserText_scan]
  apply and_congr_right'
  apply forall₂_congr
  intro form hform
  obtain ⟨hpic, htop, hbot, hid⟩ := nul_notMem_createForm env hform
  by_cases hrejected : form.Rejected
  · rw [if_pos hrejected]
    exact iff_of_true (keepsUserText_pure _) (.inl hrejected)
  rw [if_neg hrejected, or_iff_right hrejected]
  by_cases hedit : form.editId = []
  · rw [if_pos hedit, insertPage, keepsUserText_insertMeme]
    · simp [CreateForm.Harmless, hedit]
    · simp [hpic, htop, hbot]
    · exact fun _ => keepsUserText_pure _
  · rw [if_neg hedit, updatePage, keepsUserText_query]
    · simp [CreateForm.Harmless, Query.Harmless, hedit]
    · simp [Query.userTexts, hpic, htop, hbot, hid]
    · exact fun _ => keepsUserText_pure _

theorem keepsUserText_view (path : Text) :
    KeepsUserText (h.prepareViewRequest env path) ↔
      h.viewId env path ≠ none ∧ ∀ memeId ∈ h.viewId env path, '\'' ∉ memeId := by
  rw [prepareViewRequest, keepsUserText_scan]
  apply and_congr_right'
  apply forall₂_congr
  intro memeId hid
  split
  · next hempty => exact iff_of_true (keepsUserText_pure _) (by simp [hempty])
  · exact keepsUserText_readMeme (nul_notMem_scanField env hid) _

theorem searchQuery_ne_none_iff (path : Text) :
    h.searchQuery env path ≠ none ↔
      scanField env (h.location ++ "/list".toList ++ "?query=%[^&]".toList) path ≠ none :=
  not_congr Option.map_eq_none_iff

theorem keepsUserText_searchFor {s : Text} (hs : nul ∉ s) : KeepsUserText (searchFor s) ↔ '\'' ∉ s := by
  rw [searchFor, keepsUserText_query]
  · split
    · next hempty => exact iff_of_true trivial (by simp [hempty])
    · exact Iff.rfl
  · split
    · simp [Query.userTexts]
    · simpa [Query.userTexts] using hs
  · intro r
    apply keepsUserText_thrown
    intro rows _
    split <;> exact keepsUserText_pure _

theorem keepsUserText_list (path : Text) :
    KeepsUserText (h.prepareListRequest env path) ↔
      h.searchQuery env path ≠ none ∧ ∀ s ∈ h.searchQuery env path, '\'' ∉ s := by
  rw [prepareListRequest, keepsUserText_scan]
  apply and_congr_right'
  apply forall₂_congr
  intro s hs
  obtain ⟨field, -, rfl⟩ := Option.map_eq_some_iff.mp hs
  exact keepsUserText_searchFor (nul_notMem_decodeField env field)

theorem afterFirst_suffix (pattern s : Text) : afterFirst pattern s ⊆ s := by
  rw [afterFirst]
  cases find pattern s with
  | none => exact List.nil_subset s
  | some pos => exact (List.drop_suffix _ s).subset

theorem nul_notMem_route {path memeId : Text} (hpath : nul ∉ path)
    (hroute : h.route path = .edit memeId ∨ h.route path = .delete memeId) : nul ∉ memeId := by
  have hafter (pattern : Text) : nul ∉ afterFirst pattern path :=
    fun hnul => hpath (afterFirst_suffix pattern path hnul)
  unfold route at hroute
  split_ifs at hroute
  all_goals simp only [or_false, or_self, false_or, Route.edit.injEq, Route.delete.injEq] at hroute
  · exact hroute ▸ hafter _
  · exact hroute ▸ hafter _

theorem handleRequest_keepsUserText_iff (buffer : Text) :
    KeepsUserText (h.handleRequest env (Session.parseRequestLine buffer)) ↔
      h.HarmlessRequest env (Session.parseRequestLine buffer) := by
  have hpath := Session.nul_notMem_path buffer
  generalize Session.parseRequestLine buffer = request at hpath ⊢
  rw [handleRequest, keepsUserText_map, servePage, HarmlessRequest]
  by_cases hlocation : h.LocationMismatch request.path
  · rw [if_pos hlocation]
    exact iff_of_true (keepsUserText_pure _) ⟨fieldsFit_of_none (if_pos hlocation), .inl hlocation⟩
  rw [if_neg hlocation, or_iff_right hlocation]
  have hcall {route : Route} (hroute : h.route request.path = route) := scanCall_of_route hlocation hroute
  cases hroute : h.route request.path with
  | new => exact iff_of_true (keepsUserText_pure _) ⟨fieldsFit_of_none (hcall hroute), trivial⟩
  | edit memeId =>
    rw [and_iff_right (fieldsFit_of_none (hcall hroute))]
    exact keepsUserText_readMeme (h.nul_notMem_route hpath (.inl hroute)) _
  | create =>
    rw [fieldsFit_of_scanCall (hcall hroute), ← createForm_ne_none]
    exact keepsUserText_create env request.body
  | view =>
    rw [fieldsFit_of_scanCall (hcall hroute), ← and_assoc, ← scanField_ne_none_iff]
    exact h.keepsUserText_view env request.path
  | list =>
    rw [fieldsFit_of_scanCall (hcall hroute), ← and_assoc, ← scanField_ne_none_iff, ← searchQuery_ne_none_iff]
    exact h.keepsUserText_list env request.path
  | delete memeId =>
    rw [and_iff_right (fieldsFit_of_none (hcall hroute))]
    exact keepsUserText_delete (h.nul_notMem_route hpath (.inr hroute))
  | unknown => exact iff_of_true (keepsUserText_pure _) ⟨fieldsFit_of_none (hcall hroute), trivial⟩

theorem handleRequest_apostrophe :
    ¬ KeepsUserText (MemeHandler.handleRequest (.standalone fun (db : Unit) _ => (db, ⟨[], none⟩))
      ⟨"./meme".toList, "/meme".toList, "/view".toList⟩
      (Session.parseRequestLine "POST /meme/create HTTP/1.1\r\n\r\nimage=cat.jpg&top=it's&bottom=me".toList)) := by
  repeat rw [String.toList_ofList]
  rw [handleRequest, keepsUserText_map, servePage, if_neg (by decide +kernel)]
  rw [show route _ _ = .create by decide +kernel]
  simp only
  rw [keepsUserText_create]
  rintro ⟨-, hall⟩
  rcases hall ⟨"cat.jpg".toList, "it's".toList, "me".toList, []⟩ (by decide +kernel) with hrejected | hharmless
  · exact absurd hrejected (by decide +kernel)
  · exact hharmless.2.1 (by decide +kernel)

end Bingit.MemeHandler
