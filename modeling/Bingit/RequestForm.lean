import Bingit.HeaderLines

namespace Bingit

open Text

theorem Text.isInfix_trim (s : Text) : trim s <:+: s :=
  (List.rdropWhile_prefix isSpace _).isInfix.trans (List.dropWhile_suffix isSpace).isInfix

theorem Text.isSpace_head_trim (s : Text) : ∀ c ∈ (trim s).head?, isSpace c = false := by
  intro c hc
  obtain ⟨rest, hrest⟩ := List.rdropWhile_prefix isSpace (s.dropWhile isSpace)
  have hhead : (s.dropWhile isSpace).head? = some c := by
    rw [← hrest, List.head?_append]
    exact (congrArg (Option.or · rest.head?) hc).trans rfl
  have hnot := List.head?_dropWhile_not isSpace s
  rw [hhead] at hnot
  simpa using hnot

theorem Text.isSpace_getLast_trim (s : Text) : ∀ c ∈ (trim s).getLast?, isSpace c = false := by
  intro c hc
  obtain ⟨hne, rfl⟩ := List.mem_getLast?_eq_getLast hc
  exact Bool.not_eq_true _ ▸ List.rdropWhile_last_not isSpace (s.dropWhile isSpace) hne

namespace Session

theorem plainHeader_trim {name v : Text} (hname : ':' ∉ name) (hcrlf : NoCrlf (name ++ ':' :: v))
    (hnul : nul ∉ name ++ ':' :: v) : PlainHeader (name, trim v) := by
  rw [List.mem_append, List.mem_cons, not_or, not_or] at hnul
  obtain ⟨hn, -, hv⟩ := hnul
  have hcolon : NoCrlf (name ++ [':']) := fun hin => hcrlf (hin.trans ⟨[], v, by simp⟩)
  have hvalue : NoCrlf (trim v) := fun hin => hcrlf ((hin.trans (isInfix_trim v)).trans ⟨name ++ [':'], [], by simp⟩)
  refine ⟨hname, hn, fun hmem => hv ((isInfix_trim v).subset hmem), isSpace_head_trim v, isSpace_getLast_trim v, ?_⟩
  have hline : headerLine (name, trim v) = name ++ [':'] ++ ' ' :: trim v := by simp [headerLine]
  rw [hline]
  exact noCrlf_append_space hcolon hvalue

def PlainHeaders (headers : Headers) : Prop := ∀ name value, headers[name]? = some value → PlainHeader (name, value)

theorem PlainHeaders.storeHeader {headers : Headers} (h : PlainHeaders headers) {line : Text} (hcrlf : NoCrlf line)
    (hnul : nul ∉ line) : PlainHeaders (storeHeader headers line) := by
  rcases colon_split line with hno | ⟨name, v, rfl, hname⟩
  · rw [storeHeader_of_notMem _ hno]
    exact h
  · rw [storeHeader_colon _ hname]
    intro name' value hvalue
    rw [getElem?_insert_name] at hvalue
    split at hvalue
    · next heq =>
      rw [← heq, ← Option.some.inj hvalue]
      exact plainHeader_trim hname hcrlf hnul
    · exact h name' value hvalue

theorem PlainHeaders.foldl {headers : Headers} (h : PlainHeaders headers) {lines : List Text}
    (hlines : ∀ line ∈ lines, NoCrlf line ∧ nul ∉ line) : PlainHeaders (lines.foldl Session.storeHeader headers) := by
  induction lines generalizing headers with
  | nil => exact h
  | cons line lines ih =>
    rw [List.forall_mem_cons] at hlines
    exact ih (h.storeHeader hlines.1.1 hlines.1.2) hlines.2

theorem PlainHeaders.storeCutLine {headers : Headers} (h : PlainHeaders headers) {s : Text} (hcrlf : NoCrlf s)
    (hnul : nul ∉ s) : PlainHeaders (storeCutLine headers s) := by
  rw [Session.storeCutLine]
  split
  · apply h.storeHeader
    · exact fun hin => hcrlf (hin.trans (List.dropLast_prefix s).isInfix)
    · exact fun hmem => hnul (List.dropLast_subset s hmem)
  · exact h

theorem HeaderBlock.plain {headers headers' : Headers} {s body : Text} (h : HeaderBlock headers s headers' body)
    (hheaders : PlainHeaders headers) (hnul : nul ∉ s) : PlainHeaders headers' ∧ nul ∉ body := by
  obtain ⟨lines, tail, rfl, hlines, hend⟩ := h
  rw [List.mem_append, not_or] at hnul
  obtain ⟨hjoined, htail⟩ := hnul
  have hall : PlainHeaders (lines.foldl Session.storeHeader headers) := by
    apply hheaders.foldl
    intro line hline
    refine ⟨(hlines line hline).2, fun hmem => hjoined ?_⟩
    exact List.mem_flatMap.mpr ⟨line, hline, List.mem_append_left _ hmem⟩
  rcases hend with ⟨rfl, rfl⟩ | ⟨hno, rfl, rfl⟩
  · exact ⟨hall, fun hmem => htail (List.mem_append_right _ hmem)⟩
  · exact ⟨hall.storeCutLine hno htail, List.not_mem_nil⟩

/-- What the parser makes sure of. -/
structure WellFormedRequest (request : Request) : Prop where
  valid : request.valid = true
  known : request.method = "GET".toList ∨ request.method = "POST".toList
  nonempty : request.path ≠ []
  noSpace : ' ' ∉ request.path
  path_nul : nul ∉ request.path
  isVersion : IsHttpVersion request.httpVersion
  plain : PlainHeaders request.headers
  body_nul : nul ∉ request.body

structure SameFields (request request' : Request) : Prop where
  method : request.method = request'.method
  path : request.path = request'.path
  httpVersion : request.httpVersion = request'.httpVersion
  headers : ∀ name : Text, request.headers[name]? = request'.headers[name]?
  body : request.body = request'.body
  valid : request.valid = request'.valid

theorem WellFormedRequest.congr {request request' : Request} (h : WellFormedRequest request)
    (hsame : SameFields request request') : WellFormedRequest request' := by
  obtain ⟨hmethod, hpath, hversion, hheaders, hbody, hvalid⟩ := hsame
  refine ⟨hvalid ▸ h.valid, hmethod ▸ h.known, hpath ▸ h.nonempty, hpath ▸ h.noSpace, hpath ▸ h.path_nul,
    hversion ▸ h.isVersion, ?_, hbody ▸ h.body_nul⟩
  intro name value hvalue
  exact h.plain name value ((hheaders name).trans hvalue)

theorem wellFormedRequest_of_valid {s : Text} (hvalid : (parseRequestLine s).valid = true) :
    WellFormedRequest (parseRequestLine s) := by
  obtain ⟨method, path, version, rest, h⟩ := isRequestLine_of_valid hvalid
  have hnul := nul_notMem_cString s
  rw [h.text] at hnul
  simp only [List.mem_append, List.mem_cons, not_or] at hnul
  obtain ⟨-, -, hpath, -, -, -, -, hrest⟩ := hnul
  have hempty : PlainHeaders ∅ := by
    intro name value hvalue
    rw [Std.TreeMap.getElem?_emptyc] at hvalue
    contradiction
  have hblock := (scanHeaders_block ∅ rest).plain hempty hrest
  rw [parse_of_isRequestLine h]
  exact ⟨rfl, h.known, h.nonempty, h.noSpace, hpath, h.isVersion, hblock.1, hblock.2⟩

theorem getElem?_foldl_insert {fields : List (Text × Text)} (hnames : (fields.map Prod.fst).Nodup) (name value : Text) :
    (fields.foldl (fun (m : Headers) h => m.insert h.1 h.2) ∅)[name]? = some value ↔ (name, value) ∈ fields := by
  induction fields using List.reverseRec with
  | nil => simp
  | append_singleton fields field ih =>
    rw [List.map_append, List.map_singleton, List.nodup_append] at hnames
    obtain ⟨hnodup, -, hdisjoint⟩ := hnames
    rw [List.foldl_concat, getElem?_insert_name, List.mem_append, List.mem_singleton]
    split
    · next heq =>
      subst heq
      have hnot : (field.1, value) ∉ fields := fun hmem =>
        hdisjoint field.1 (List.mem_map.mpr ⟨_, hmem, rfl⟩) field.1 (List.mem_singleton_self _) rfl
      rw [Option.some.injEq, Prod.ext_iff]
      constructor
      · intro h
        exact .inr ⟨rfl, h.symm⟩
      · rintro (hmem | ⟨-, h⟩)
        · exact absurd hmem hnot
        · exact h.symm
    · next hne =>
      rw [ih hnodup, Prod.ext_iff]
      constructor
      · exact .inl
      · rintro (hmem | ⟨h, -⟩)
        · exact hmem
        · exact absurd h.symm hne

theorem foldl_insert_perm {headers : Headers} {fields : List (Text × Text)} (h : fields.Perm headers.toList)
    (name : Text) : (fields.foldl (fun (m : Headers) h => m.insert h.1 h.2) ∅)[name]? = headers[name]? := by
  have hkeys : (fields.map Prod.fst).Nodup := by
    rw [(h.map Prod.fst).nodup_iff, Std.TreeMap.map_fst_toList_eq_keys]
    exact Std.TreeMap.nodup_keys
  apply Option.ext
  intro value
  rw [getElem?_foldl_insert hkeys, h.mem_iff]
  exact Std.TreeMap.mem_toList_iff_getElem?_eq_some

def requestText (request : Request) (fields : List (Text × Text)) : Text :=
  serializeRequest request.method request.path request.httpVersion fields request.body

theorem sameFields_of_wellFormed {request : Request} (h : WellFormedRequest request) {fields : List (Text × Text)}
    (hfields : fields.Perm request.headers.toList) :
    SameFields (parseRequestLine (requestText request fields)) request := by
  have hplain : ∀ header ∈ fields, PlainHeader header := by
    intro header hmem
    exact h.plain _ _ (Std.TreeMap.mem_toList_iff_getElem?_eq_some.mp (hfields.mem_iff.mp hmem))
  have hmethod : nul ∉ request.method := by rcases h.known with hm | hm <;> rw [hm] <;> decide
  have hversion : nul ∉ request.httpVersion := by
    obtain ⟨major, minor, hmajor, hminor, heq⟩ := h.isVersion
    rw [heq]
    exact notMem_httpVersion hmajor hminor (by decide) (by decide)
  have hwhole : cString (requestText request fields) = requestText request fields :=
    cString_of_notMem (nul_notMem_serialize hmethod h.path_nul hversion hplain h.body_nul)
  have hline : IsRequestLine (cString (requestText request fields)) request.method request.path request.httpVersion
      (fields.flatMap (fun header => headerLine header ++ "\r\n".toList) ++ '\r' :: '\n' :: request.body) := by
    refine ⟨?_, h.known, h.nonempty, h.noSpace, h.isVersion⟩
    rw [hwhole]
    simp [requestText, serializeRequest]
  have hheaders := scanHeaders_plain fields hplain ∅ request.body
  rw [parse_of_isRequestLine hline, hheaders]
  exact ⟨rfl, rfl, rfl, foldl_insert_perm hfields, rfl, h.valid.symm⟩

theorem parseRequestLine_normalForm (request : Request) :
    ((∃ s, (parseRequestLine s).valid = true ∧ SameFields (parseRequestLine s) request) ↔ WellFormedRequest request) ∧
      (WellFormedRequest request ↔ request.valid = true ∧ ∀ fields : List (Text × Text),
        fields.Perm request.headers.toList → SameFields (parseRequestLine (requestText request fields)) request) := by
  have haccepted {s : Text} (hvalid : (parseRequestLine s).valid = true)
      (hsame : SameFields (parseRequestLine s) request) : WellFormedRequest request :=
    (wellFormedRequest_of_valid hvalid).congr hsame
  have hwritten (h : WellFormedRequest request) {fields : List (Text × Text)}
      (hfields : fields.Perm request.headers.toList) := sameFields_of_wellFormed h hfields
  refine ⟨⟨fun ⟨s, hvalid, hsame⟩ => haccepted hvalid hsame, fun h => ?_⟩, fun h => ⟨h.valid, fun _ => hwritten h⟩, ?_⟩
  · have hsame := hwritten h (List.Perm.refl _)
    exact ⟨_, hsame.valid.trans h.valid, hsame⟩
  · rintro ⟨hvalid, hread⟩
    have hsame := hread _ (List.Perm.refl _)
    exact haccepted (hsame.valid.trans hvalid) hsame

end Session

end Bingit
