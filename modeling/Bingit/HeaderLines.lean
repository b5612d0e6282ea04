import Bingit.RequestLine

namespace Bingit.Session

open Text

def LastLine (lines : List Text) (name value : Text) : Prop :=
  ∃ before v after, lines = before ++ (name ++ ':' :: v) :: after ∧ ':' ∉ name ∧ trim v = value ∧
    ∀ line ∈ after, ∀ w, line ≠ name ++ ':' :: w

theorem find_colon_none {line : Text} (h : ':' ∉ line) : find ":".toList line = none := by
  have hfind := find_append_of_notMem h [] []
  rw [List.append_nil] at hfind
  exact hfind

theorem colon_split (line : Text) : ':' ∉ line ∨ ∃ name v, line = name ++ ':' :: v ∧ ':' ∉ name := by
  rcases split_at_first (· = ':') line with hno | ⟨name, c, v, rfl, hname, rfl⟩
  · exact .inl fun hmem => hno ':' hmem rfl
  · exact .inr ⟨name, v, rfl, fun hmem => hname ':' hmem rfl⟩

theorem colon_split_unique {name name' v v' : Text} (hname : ':' ∉ name) (hname' : ':' ∉ name')
    (h : name ++ ':' :: v = name' ++ ':' :: v') : name = name' ∧ v = v' := by
  have hcut := @takeWhile_dropWhile_ne ':' name (':' :: v) hname (by simp)
  have hcut' := @takeWhile_dropWhile_ne ':' name' (':' :: v') hname' (by simp)
  rw [h] at hcut
  exact ⟨hcut.1.symm.trans hcut'.1, (List.cons.inj (hcut.2.symm.trans hcut'.2)).2⟩

theorem storeHeader_of_notMem (headers : Headers) {line : Text} (h : ':' ∉ line) :
    storeHeader headers line = headers := by
  rw [storeHeader, find_colon_none h]

theorem storeHeader_colon (headers : Headers) {name : Text} (h : ':' ∉ name) (v : Text) :
    storeHeader headers (name ++ ':' :: v) = headers.insert name (trim v) := by
  rw [storeHeader, find_colon h]
  simp

theorem getElem?_insert_name (headers : Headers) (name name' value : Text) :
    (headers.insert name value)[name']? = if name = name' then some value else headers[name']? := by
  rw [Std.TreeMap.getElem?_insert]
  simp only [Std.compare_eq_iff_eq]

theorem lastLine_concat (lines : List Text) (line name value : Text) :
    LastLine (lines ++ [line]) name value ↔
      (∃ v, line = name ++ ':' :: v ∧ ':' ∉ name ∧ trim v = value) ∨
        (∀ w, line ≠ name ++ ':' :: w) ∧ LastLine lines name value := by
  constructor
  · rintro ⟨before, v, after, hlines, hname, hv, hafter⟩
    rcases List.eq_nil_or_concat after with rfl | ⟨after, last, rfl⟩
    · obtain ⟨-, hlast⟩ := List.append_inj' hlines rfl
      exact .inl ⟨v, (List.cons.inj hlast).1, hname, hv⟩
    · rw [List.concat_eq_append, ← List.cons_append, ← List.append_assoc] at hlines
      obtain ⟨rfl, hlast⟩ := List.append_inj' hlines rfl
      obtain rfl := (List.cons.inj hlast).1
      rw [List.concat_eq_append, List.forall_mem_append] at hafter
      exact .inr ⟨hafter.2 line (List.mem_singleton_self _), before, v, after, rfl, hname, hv, hafter.1⟩
  · rintro (⟨v, rfl, hname, hv⟩ | ⟨hline, before, v, after, rfl, hname, hv, hafter⟩)
    · exact ⟨lines, v, [], rfl, hname, hv, by simp⟩
    · refine ⟨before, v, after ++ [line], by simp, hname, hv, ?_⟩
      rw [List.forall_mem_append]
      exact ⟨hafter, by simpa using hline⟩

theorem getElem?_foldl_storeHeader (lines : List Text) (name value : Text) :
    (lines.foldl storeHeader ∅)[name]? = some value ↔ LastLine lines name value := by
  induction lines using List.reverseRec with
  | nil =>
    apply iff_of_false
    · simp
    · rintro ⟨before, v, after, hlines, -⟩
      simp at hlines
  | append_singleton lines line ih =>
    rw [List.foldl_concat, lastLine_concat]
    rcases colon_split line with hno | ⟨n, v, rfl, hn⟩
    · have hline (w : Text) : line ≠ name ++ ':' :: w := by
        rintro rfl
        simp at hno
      simp only [storeHeader_of_notMem _ hno, ih, hline, false_and, exists_false, false_or, ne_eq, not_false_eq_true,
        implies_true, true_and]
    · rw [storeHeader_colon _ hn, getElem?_insert_name]
      split
      · next heq =>
        subst heq
        constructor
        · intro hv
          exact .inl ⟨v, rfl, hn, Option.some.inj hv⟩
        · rintro (⟨w, hw, -, rfl⟩ | ⟨hother, -⟩)
          · rw [(colon_split_unique hn hn hw).2]
          · exact absurd rfl (hother v)
      · next hne =>
        rw [ih]
        constructor
        · intro hlast
          refine .inr ⟨?_, hlast⟩
          obtain ⟨-, -, -, -, hname, -⟩ := hlast
          exact fun w hw => hne (colon_split_unique hn hname hw).1
        · rintro (⟨w, hw, hname, -⟩ | ⟨-, hlast⟩)
          · exact absurd (colon_split_unique hn hname hw).1 hne
          · exact hlast

instance (line : Text) : Decidable (IsHeaderLine line) := inferInstanceAs (Decidable (_ ≠ _ ∧ _))

structure HeaderSection (s : Text) (lines : List Text) (tail : Text) : Prop where
  text : s = joinLines lines ++ tail
  lines : ∀ line ∈ lines, IsHeaderLine line
  ending : "\r\n".toList <+: tail ∨ NoCrlf tail

theorem joinLines_cons (line : Text) (lines : List Text) (tail : Text) :
    joinLines (line :: lines) ++ tail = line ++ '\r' :: '\n' :: (joinLines lines ++ tail) := by
  simp [joinLines]

theorem HeaderSection.scanLine_cons {s line tail : Text} {lines : List Text}
    (h : HeaderSection s (line :: lines) tail) :
    scanLine [] s = (line, joinLines lines ++ tail, true) := by
  rw [h.text, joinLines_cons, scanLine_crlf (h.lines line List.mem_cons_self).2, List.nil_append]

theorem HeaderSection.not_cons {s line tail tail' : Text} {lines : List Text} (h : HeaderSection s [] tail) :
    ¬ HeaderSection s (line :: lines) tail' := by
  intro h'
  have hs : s = tail := h.text
  rcases h.ending with ⟨rest, hrest⟩ | hno
  · have hempty := scanLine_crlf (show NoCrlf [] by simp [NoCrlf]) [] rest
    have hscan := h'.scanLine_cons
    rw [hs, ← hrest] at hscan
    exact (h'.lines line List.mem_cons_self).1 (Prod.mk.inj (hscan.symm.trans hempty)).1
  · apply hno
    rw [← hs, h'.text, joinLines_cons]
    exact ⟨line, joinLines lines ++ tail', by simp⟩

theorem HeaderSection.tail {s line tail : Text} {lines : List Text} (h : HeaderSection s (line :: lines) tail) :
    HeaderSection (joinLines lines ++ tail) lines tail :=
  ⟨rfl, fun l hl => h.lines l (List.mem_cons_of_mem _ hl), h.ending⟩

theorem HeaderSection.unique {s tail tail' : Text} {lines lines' : List Text} (h : HeaderSection s lines tail)
    (h' : HeaderSection s lines' tail') : lines = lines' ∧ tail = tail' := by
  induction lines generalizing s lines' with
  | nil =>
    cases lines' with
    | nil => exact ⟨rfl, h.text.symm.trans h'.text⟩
    | cons line lines' => exact absurd h' h.not_cons
  | cons line lines ih =>
    cases lines' with
    | nil => exact absurd h h'.not_cons
    | cons line' lines' =>
      obtain ⟨rfl, hrest⟩ := Prod.mk.inj (h.scanLine_cons.symm.trans h'.scanLine_cons)
      have hsame := h'.tail
      rw [← (Prod.mk.inj hrest).1] at hsame
      obtain ⟨rfl, rfl⟩ := ih h.tail hsame
      exact ⟨rfl, rfl⟩

theorem exists_headerSection (s : Text) : ∃ lines tail, HeaderSection s lines tail := by
  obtain ⟨lines, tail, hs, hlines, hend⟩ := scanHeaders_block ∅ s
  refine ⟨lines, tail, hs, hlines, ?_⟩
  rcases hend with ⟨rfl, -⟩ | ⟨hno, -⟩
  · exact .inl (List.prefix_append _ _)
  · exact .inr hno

theorem HeaderSection.headers_eq {s tail : Text} {lines : List Text} (h : HeaderSection s lines tail) :
    "\r\n".toList <+: tail ∧ (scanHeaders s.length ∅ s).1 = lines.foldl storeHeader ∅ ∨
      NoCrlf tail ∧ (scanHeaders s.length ∅ s).1 = storeCutLine (lines.foldl storeHeader ∅) tail := by
  obtain ⟨lines', tail', hs, hlines, hend⟩ := scanHeaders_block ∅ s
  have hending : "\r\n".toList <+: tail' ∨ NoCrlf tail' := by
    rcases hend with ⟨rfl, -⟩ | ⟨hno, -⟩
    · exact .inl (List.prefix_append _ _)
    · exact .inr hno
  obtain ⟨rfl, rfl⟩ := h.unique ⟨hs, hlines, hending⟩
  rcases hend with ⟨htail, hheaders⟩ | ⟨hno, -, hheaders⟩
  · exact .inl ⟨htail ▸ List.prefix_append _ _, hheaders⟩
  · exact .inr ⟨hno, hheaders⟩

def CutLineAgrees (lines : List Text) (tail : Text) : Prop :=
  "\r\n".toList <+: tail ∨ ∀ name v, tail.dropLast = name ++ ':' :: v → ':' ∉ name → LastLine lines name (trim v)

theorem storeCutLine_agrees_iff (lines : List Text) (tail : Text) :
    (∀ name value, (storeCutLine (lines.foldl storeHeader ∅) tail)[name]? = some value → LastLine lines name value) ↔
      ∀ name v, tail.dropLast = name ++ ':' :: v → ':' ∉ name → LastLine lines name (trim v) := by
  have hcomplete := getElem?_foldl_storeHeader lines
  generalize lines.foldl storeHeader ∅ = headers at hcomplete
  have hcut : storeCutLine headers tail = storeHeader headers tail.dropLast := by
    rw [storeCutLine]
    split
    · rfl
    · have hnil : tail.dropLast = [] := by
        rw [← List.length_eq_zero_iff, List.length_dropLast]
        omega
      rw [hnil]
      rfl
  rw [hcut]
  rcases colon_split tail.dropLast with hno | ⟨n, w, hw, hn⟩
  · rw [storeHeader_of_notMem _ hno]
    apply iff_of_true
    · exact fun name value => (hcomplete name value).mp
    · intro name v hv
      rw [hv] at hno
      simp at hno
  · rw [hw, storeHeader_colon _ hn]
    constructor
    · intro h name v hv hname
      obtain ⟨rfl, rfl⟩ := colon_split_unique hn hname hv
      apply h
      rw [getElem?_insert_name, if_pos rfl]
    · intro h name value hvalue
      rw [getElem?_insert_name] at hvalue
      split at hvalue
      · next heq =>
        subst heq
        rw [← Option.some.inj hvalue]
        exact h n w rfl hn
      · exact (hcomplete name value).mp hvalue

theorem HeaderSection.agrees_iff {s tail : Text} {lines : List Text} (h : HeaderSection s lines tail) :
    (∀ name value, (scanHeaders s.length ∅ s).1[name]? = some value → LastLine lines name value) ↔
      CutLineAgrees lines tail := by
  rcases h.headers_eq with ⟨hcrlf, heq⟩ | ⟨hno, heq⟩
  · rw [heq]
    exact iff_of_true (fun name value => (getElem?_foldl_storeHeader lines name value).mp) (.inl hcrlf)
  · have hcrlf : ¬ "\r\n".toList <+: tail := fun hp => hno hp.isInfix
    rw [heq, storeCutLine_agrees_iff, CutLineAgrees, or_iff_right hcrlf]

/-- The last complete line with a name gives its value. -/
def OnlyCompleteLines (s : Text) (request : Request) : Prop :=
  ∃ rest lines tail, IsRequestLine s request.method request.path request.httpVersion rest ∧
    HeaderSection rest lines tail ∧ ∀ name value, request.headers[name]? = some value → LastLine lines name value

theorem onlyCompleteLines_iff_agrees {s method path version rest tail : Text} {lines : List Text}
    (hline : IsRequestLine (cString s) method path version rest) (hsection : HeaderSection rest lines tail) :
    OnlyCompleteLines (cString s) (parseRequestLine s) ↔ CutLineAgrees lines tail := by
  rw [← hsection.agrees_iff, parse_of_isRequestLine hline]
  constructor
  · rintro ⟨rest', lines', tail', hline', hsection', hheaders⟩
    obtain ⟨-, -, -, rfl⟩ := hline.unique hline'
    obtain ⟨rfl, rfl⟩ := hsection.unique hsection'
    exact hheaders
  · intro hheaders
    exact ⟨rest, lines, tail, hline, hsection, hheaders⟩

theorem onlyCompleteLines_iff {s : Text} (hvalid : (parseRequestLine s).valid = true) :
    OnlyCompleteLines (cString s) (parseRequestLine s) ↔
      ∀ method path version rest lines tail, IsRequestLine (cString s) method path version rest →
        HeaderSection rest lines tail → CutLineAgrees lines tail := by
  constructor
  · intro h method path version rest lines tail hline hsection
    exact (onlyCompleteLines_iff_agrees hline hsection).mp h
  · intro h
    obtain ⟨method, path, version, rest, hline⟩ := isRequestLine_of_valid hvalid
    obtain ⟨lines, tail, hsection⟩ := exists_headerSection rest
    exact (onlyCompleteLines_iff_agrees hline hsection).mpr (h _ _ _ _ _ _ hline hsection)

theorem isRequestLine_get (rest : Text) :
    IsRequestLine ("GET /a HTTP/1.1\r\n".toList ++ rest) "GET".toList "/a".toList "HTTP/1.1".toList rest := by
  have hversion : IsHttpVersion "HTTP/1.1".toList := (validateHttpVersion_iff _).mp (by decide +kernel)
  exact ⟨rfl, .inl rfl, by decide, by decide, hversion⟩

theorem onlyCompleteLines_complete :
    OnlyCompleteLines (cString "GET /a HTTP/1.1\r\nA: b\r\n\r\n".toList)
      (parseRequestLine "GET /a HTTP/1.1\r\nA: b\r\n\r\n".toList) := by
  apply (onlyCompleteLines_iff (by decide +kernel)).mpr
  intro method path version rest lines tail hline hsection
  obtain ⟨-, -, -, rfl⟩ := hline.unique (isRequestLine_get "A: b\r\n\r\n".toList)
  have hsection' : HeaderSection "A: b\r\n\r\n".toList ["A: b".toList] "\r\n".toList :=
    ⟨rfl, by decide, .inl List.prefix_rfl⟩
  obtain ⟨rfl, rfl⟩ := hsection.unique hsection'
  exact .inl List.prefix_rfl

theorem cut_line_stored :
    (parseRequestLine "GET /a HTTP/1.1\r\nHost: a.org".toList).valid = true ∧
      ¬ OnlyCompleteLines (cString "GET /a HTTP/1.1\r\nHost: a.org".toList)
        (parseRequestLine "GET /a HTTP/1.1\r\nHost: a.org".toList) := by
  have hsection : HeaderSection "Host: a.org".toList [] "Host: a.org".toList := ⟨rfl, by simp, .inr (by decide)⟩
  refine ⟨by decide +kernel, ?_⟩
  rw [onlyCompleteLines_iff_agrees (s := "GET /a HTTP/1.1\r\nHost: a.org".toList)
    (isRequestLine_get "Host: a.org".toList) hsection]
  rintro (hcrlf | hlast)
  · revert hcrlf
    decide
  · obtain ⟨before, v, after, hlines, -⟩ := hlast "Host".toList " a.or".toList rfl (by decide)
    simp at hlines

end Bingit.Session
