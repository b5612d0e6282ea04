import Bingit.Text
import Std.Data.TreeMap.Lemmas

namespace Bingit

/-- A `std::unordered_map` of header fields. -/
abbrev Headers := Std.TreeMap Text Text

structure Request where
  method : Text
  path : Text
  httpVersion : Text
  headers : Headers
  body : Text
  originalRequest : Text
  valid : Bool

namespace Session

open Text

def countDots : ℕ → Text → Option ℕ
  | count, [] => some count
  | count, c :: s =>
    if c = '.' then countDots (count + 1) s else if c.isDigit then countDots count s else none

def validateHttpVersion (version : Text) : Bool :=
  if version.length < 5 ∨ ¬ version[5]?.any Char.isDigit ∨ version.getLast? = some '.' ∨
      version.take 5 ≠ "HTTP/".toList
  then false
  else countDots 0 (version.drop 5) = some 1

def scanMethod : Text → Text → Option (Text × Text)
  | method, [] => some (method, [])
  | method, c :: s =>
    if c = ' ' then
      if method ≠ "GET".toList ∧ method ≠ "POST".toList then none else some (method, s)
    else scanMethod (method ++ [c]) s

def scanPath : Text → Text → Text × Text
  | path, [] => (path, [])
  | path, c :: s => if c = ' ' then (path, s) else scanPath (path ++ [c]) s

/-- Whether a CRLF was found is its third component. -/
def scanLine : Text → Text → Text × Text × Bool
  | line, '\r' :: '\n' :: s => (line, s, true)
  | line, c :: d :: s => scanLine (line ++ [c]) (d :: s)
  | line, s => (line, s, false)

def storeHeader (headers : Headers) (line : Text) : Headers :=
  match find ":".toList line with
  | none => headers
  | some pos => headers.insert (line.take pos) (trim (line.drop (pos + 1)))

def scanHeaders : ℕ → Headers → Text → Headers × Text
  | 0, headers, _ => (headers, [])
  | fuel + 1, headers, s =>
    if s.length > 1 then
      let (line, rest, _) := scanLine [] s
      if line.length = 0 then (headers, rest) else scanHeaders fuel (storeHeader headers line) rest
    else (headers, [])

def parseRequestLine (requestLine : Text) : Request :=
  let originalRequest := cString requestLine
  let invalidRequest : Request := ⟨[], [], "HTTP/1.1".toList, ∅, [], originalRequest, false⟩
  match scanMethod [] originalRequest with
  | none => invalidRequest
  | some (method, s) =>
    let (path, s) := scanPath [] s
    if path.length = 0 then invalidRequest
    else
      let (version, s, hasCarriageLineFeed) := scanLine [] s
      if ¬ hasCarriageLineFeed then invalidRequest
      else if validateHttpVersion version ≠ true then invalidRequest
      else
        let (headers, body) := scanHeaders s.length ∅ s
        ⟨method, path, version, headers, body, originalRequest, true⟩

theorem parseRequestLine_cases (requestLine : Text) :
    parseRequestLine requestLine = ⟨[], [], "HTTP/1.1".toList, ∅, [], cString requestLine, false⟩ ∨
      ∃ method path version headers body s₁ s₂ s₃,
        scanMethod [] (cString requestLine) = some (method, s₁) ∧ scanPath [] s₁ = (path, s₂) ∧ path ≠ [] ∧
          scanLine [] s₂ = (version, s₃, true) ∧ validateHttpVersion version = true ∧
          scanHeaders s₃.length ∅ s₃ = (headers, body) ∧
          parseRequestLine requestLine = ⟨method, path, version, headers, body, cString requestLine, true⟩ := by
  unfold parseRequestLine
  cases hmethod : scanMethod [] (cString requestLine) with
  | none => exact .inl (by simp only [hmethod])
  | some r =>
    obtain ⟨method, s₁⟩ := r
    rcases hpath : scanPath [] s₁ with ⟨path, s₂⟩
    rcases hversion : scanLine [] s₂ with ⟨version, s₃, found⟩
    rcases hheaders : scanHeaders s₃.length ∅ s₃ with ⟨headers, body⟩
    by_cases hlength : path.length = 0
    · left
      simp only [hmethod, hpath]
      exact if_pos hlength
    by_cases hfound : ¬ found
    · left
      simp only [hmethod, hpath, hversion]
      exact (if_neg hlength).trans (if_pos hfound)
    by_cases hvalid : validateHttpVersion version ≠ true
    · left
      simp only [hmethod, hpath, hversion]
      exact (if_neg hlength).trans ((if_neg hfound).trans (if_pos hvalid))
    right
    refine ⟨method, path, version, headers, body, s₁, s₂, s₃, rfl, hpath, ?_, ?_, ?_, hheaders, ?_⟩
    · rintro rfl
      exact hlength rfl
    · rw [hversion, not_not.mp hfound]
    · exact not_not.mp hvalid
    · simp only [hmethod, hpath, hversion, hheaders]
      exact (if_neg hlength).trans ((if_neg hfound).trans (if_neg hvalid))

theorem originalRequest_parse (data : Text) : (parseRequestLine data).originalRequest = cString data := by
  rcases parseRequestLine_cases data with hinvalid | hvalid
  · rw [hinvalid]
  · obtain ⟨method, path, version, headers, body, s₁, s₂, s₃, -, -, -, -, -, -, heq⟩ := hvalid
    rw [heq]

theorem scanMethod_rest {method s m rest : Text} (h : scanMethod method s = some (m, rest)) :
    rest <:+ s := by
  induction s generalizing method with
  | nil =>
    obtain ⟨-, rfl⟩ := Prod.mk.inj (Option.some.inj h)
    exact List.suffix_rfl
  | cons c s ih =>
    unfold scanMethod at h
    split_ifs at h
    · obtain ⟨-, rfl⟩ := Prod.mk.inj (Option.some.inj h)
      exact List.suffix_cons c _
    · exact (ih h).trans (List.suffix_cons c s)

theorem scanPath_subset (path s : Text) : (scanPath path s).1 ⊆ path ++ s := by
  induction s generalizing path with
  | nil => simp [scanPath]
  | cons c s ih =>
    rw [scanPath]
    split
    · exact List.subset_append_left _ _
    · simpa using ih (path ++ [c])

theorem nul_notMem_path (requestLine : Text) : nul ∉ (parseRequestLine requestLine).path := by
  rcases parseRequestLine_cases requestLine with hinvalid | hvalid
  · rw [hinvalid]
    exact List.not_mem_nil
  · obtain ⟨method, path, version, headers, body, s₁, s₂, s₃, hmethod, hpath, -, -, -, -, heq⟩ := hvalid
    rw [heq]
    intro hnul
    have hmem := scanPath_subset [] s₁ (by rw [hpath]; exact hnul)
    exact nul_notMem_cString requestLine ((scanMethod_rest hmethod).subset hmem)

theorem scanLine_rest_le (line s : Text) : (scanLine line s).2.1.length ≤ s.length := by
  fun_induction scanLine line s with
  | case1 line s => simp only [List.length_cons]; omega
  | case2 line c d s _ ih => simp only [List.length_cons] at ih ⊢; omega
  | case3 line s => exact le_rfl

theorem scanLine_step (line : Text) {c d : Char} (h : ¬ (c = '\r' ∧ d = '\n')) (s : Text) :
    scanLine line (c :: d :: s) = scanLine (line ++ [c]) (d :: s) := by
  rw [scanLine]
  exact fun hc hd => h ⟨hc, hd⟩

theorem scanLine_rest_lt (line s : Text) (h : 1 < s.length) : (scanLine line s).2.1.length < s.length := by
  match s, h with
  | c :: d :: s, _ =>
    by_cases hcd : c = '\r' ∧ d = '\n'
    · obtain ⟨rfl, rfl⟩ := hcd
      rw [scanLine]
      simp only [List.length_cons]; omega
    · rw [scanLine_step line hcd]
      exact Nat.lt_succ_of_le (scanLine_rest_le (line ++ [c]) (d :: s))

theorem scanHeaders_fuel {fuel fuel' : ℕ} {headers : Headers} {s : Text} (h : s.length ≤ fuel)
    (h' : s.length ≤ fuel') : scanHeaders fuel headers s = scanHeaders fuel' headers s := by
  induction fuel generalizing fuel' headers s with
  | zero =>
    have hs : ¬ s.length > 1 := by omega
    cases fuel' with
    | zero => rfl
    | succ fuel' => rw [scanHeaders, scanHeaders, if_neg hs]
  | succ fuel ih =>
    cases fuel' with
    | zero =>
      have hs : ¬ s.length > 1 := by omega
      rw [scanHeaders, scanHeaders, if_neg hs]
    | succ fuel' =>
      rw [scanHeaders, scanHeaders]
      split_ifs with hs
      · have hlt := scanLine_rest_lt [] s hs
        rcases hl : scanLine [] s with ⟨line, rest, found⟩
        rw [hl] at hlt
        simp only at hlt ⊢
        rw [ih (show rest.length ≤ fuel by omega) (show rest.length ≤ fuel' by omega)]
      · rfl

theorem scanHeaders_step (headers : Headers) {s line rest : Text} {found : Bool} (h : 1 < s.length)
    (hl : scanLine [] s = (line, rest, found)) (hline : line ≠ []) :
    scanHeaders s.length headers s = scanHeaders rest.length (storeHeader headers line) rest := by
  have hlt := scanLine_rest_lt [] s h
  rw [hl] at hlt
  obtain ⟨n, hn⟩ : ∃ n, s.length = n + 1 := ⟨s.length - 1, by omega⟩
  have hlen : line.length ≠ 0 := by simpa using hline
  rw [hn, scanHeaders, if_pos h, hl]
  simp only [if_neg hlen]
  exact scanHeaders_fuel (by simp only at hlt; omega) le_rfl

def NoCrlf (s : Text) : Prop := ¬ "\r\n".toList <:+: s

theorem NoCrlf.tail {c : Char} {s : Text} (h : NoCrlf (c :: s)) : NoCrlf s :=
  fun hs => h (hs.trans (List.suffix_cons c s).isInfix)

theorem scanLine_crlf {w : Text} (hw : NoCrlf w) (line s : Text) :
    scanLine line (w ++ '\r' :: '\n' :: s) = (line ++ w, s, true) := by
  induction w generalizing line with
  | nil => simp [scanLine]
  | cons c w ih =>
    have hstep : scanLine line (c :: w ++ '\r' :: '\n' :: s) =
        scanLine (line ++ [c]) (w ++ '\r' :: '\n' :: s) := by
      cases w with
      | nil => exact scanLine_step line (by simp) _
      | cons d w =>
        refine scanLine_step line ?_ _
        rintro ⟨rfl, rfl⟩
        exact hw (List.prefix_append ['\r', '\n'] w).isInfix
    rw [hstep, ih hw.tail]
    simp

theorem scanPath_space {path : Text} (h : ' ' ∉ path) (acc s : Text) :
    scanPath acc (path ++ ' ' :: s) = (acc ++ path, s) := by
  induction path generalizing acc with
  | nil => simp [scanPath]
  | cons c path ih =>
    have hc : c ≠ ' ' := fun hc => h (by simp [hc])
    rw [List.cons_append, scanPath, if_neg hc, ih (fun hp => h (by simp [hp]))]
    simp

theorem scanMethod_space {method : Text} (h : method = "GET".toList ∨ method = "POST".toList) (s : Text) :
    scanMethod [] (method ++ ' ' :: s) = some (method, s) := by
  rcases h with rfl | rfl <;> rfl

theorem find_colon {name : Text} (h : ':' ∉ name) (s : Text) :
    find ":".toList (name ++ ':' :: s) = some name.length := by
  induction name with
  | nil => simp [find]
  | cons c name ih =>
    have hprefix : ¬ ":".toList <+: c :: (name ++ ':' :: s) := by
      intro hp
      obtain rfl : ':' = c := (List.cons_prefix_cons.mp hp).1
      exact h (by simp)
    rw [List.cons_append, find, if_neg hprefix, ih (fun hn => h (by simp [hn]))]
    rfl

theorem countDots_digits {ds : Text} (h : ∀ c ∈ ds, c.isDigit = true) (count : ℕ) (s : Text) :
    countDots count (ds ++ s) = countDots count s := by
  induction ds with
  | nil => rfl
  | cons c ds ih =>
    have hc := h c (by simp)
    have hdot : c ≠ '.' := by rintro rfl; simp at hc
    rw [List.cons_append, countDots, if_neg hdot, if_pos hc, ih (fun d hd => h d (by simp [hd]))]

structure IsDigits (ds : Text) : Prop where
  ne_nil : ds ≠ []
  isDigit : ∀ c ∈ ds, c.isDigit = true

def httpVersion (major minor : Text) : Text := "HTTP/".toList ++ major ++ ".".toList ++ minor

theorem httpVersion_eq (major minor : Text) :
    httpVersion major minor = 'H' :: 'T' :: 'T' :: 'P' :: '/' :: (major ++ '.' :: minor) := by
  unfold httpVersion
  simp

theorem validateHttpVersion_of_digits {major minor : Text} (hmajor : IsDigits major)
    (hminor : IsDigits minor) : validateHttpVersion (httpVersion major minor) = true := by
  have hdots : countDots 0 (major ++ '.' :: minor) = some 1 := by
    rw [countDots_digits hmajor.isDigit, countDots, if_pos rfl]
    simpa [countDots] using countDots_digits hminor.isDigit 1 []
  have hlast : (httpVersion major minor).getLast? ≠ some '.' := by
    intro hl
    unfold httpVersion at hl
    rw [List.getLast?_append_of_ne_nil _ hminor.ne_nil] at hl
    simpa using hminor.isDigit '.' (List.mem_of_getLast? hl)
  obtain ⟨c, major, rfl⟩ := List.exists_cons_of_ne_nil hmajor.ne_nil
  have hc := hmajor.isDigit c (by simp)
  rw [httpVersion_eq] at hlast ⊢
  unfold validateHttpVersion
  rw [if_neg]
  · simpa using hdots
  · simpa [hc] using hlast

def headerLine (header : Text × Text) : Text := header.1 ++ ": ".toList ++ header.2

def serializeRequest (method path version : Text) (headers : List (Text × Text)) (body : Text) : Text :=
  method ++ " ".toList ++ path ++ " ".toList ++ version ++ "\r\n".toList ++
    headers.flatMap (fun header => headerLine header ++ "\r\n".toList) ++ "\r\n".toList ++ body

structure PlainHeader (header : Text × Text) : Prop where
  name_colon : ':' ∉ header.1
  name_nul : nul ∉ header.1
  value_nul : nul ∉ header.2
  value_head : ∀ c ∈ header.2.head?, isSpace c = false
  value_last : ∀ c ∈ header.2.getLast?, isSpace c = false
  noCrlf : NoCrlf (headerLine header)

theorem trim_space_cons {s : Text} (hhead : ∀ c ∈ s.head?, isSpace c = false)
    (hlast : ∀ c ∈ s.getLast?, isSpace c = false) : trim (' ' :: s) = s := by
  have hdrop : (' ' :: s).dropWhile isSpace = s := by
    cases s with
    | nil => rfl
    | cons c s =>
      rw [List.dropWhile_cons_of_pos rfl, List.dropWhile_cons_of_neg (by simp [hhead c rfl])]
  rw [trim, hdrop, List.rdropWhile_eq_self_iff]
  intro hs
  simpa using hlast _ (List.getLast?_eq_getLast_of_ne_nil hs)

theorem storeHeader_plain (headers : Headers) {header : Text × Text} (h : PlainHeader header) :
    storeHeader headers (headerLine header) = headers.insert header.1 header.2 := by
  have hline : headerLine header = header.1 ++ ':' :: ' ' :: header.2 := by simp [headerLine]
  rw [hline, storeHeader, find_colon h.name_colon]
  simp only [List.take_left, List.drop_length_add_append]
  rw [show (':' :: ' ' :: header.2).drop 1 = ' ' :: header.2 from rfl,
    trim_space_cons h.value_head h.value_last]

theorem scanHeaders_plain (list : List (Text × Text)) (hlist : ∀ h ∈ list, PlainHeader h)
    (headers : Headers) (body : Text) :
    let s := list.flatMap (fun header => headerLine header ++ "\r\n".toList) ++ '\r' :: '\n' :: body
    scanHeaders s.length headers s = (list.foldl (fun m h => m.insert h.1 h.2) headers, body) := by
  induction list generalizing headers with
  | nil => simp [scanHeaders, scanLine]
  | cons header list ih =>
    have hplain := hlist header (by simp)
    have hline : headerLine header ≠ [] := by simp [headerLine]
    have hscan (s : Text) := scanLine_crlf hplain.noCrlf [] s
    intro s
    have hs : s = headerLine header ++ '\r' :: '\n' ::
        (list.flatMap (fun header => headerLine header ++ "\r\n".toList) ++ '\r' :: '\n' :: body) := by
      simp [s]
    rw [hs, scanHeaders_step headers (by simp; omega) (hscan _) hline, List.nil_append,
      storeHeader_plain headers hplain]
    exact ih (fun h hm => hlist h (by simp [hm])) _

theorem notMem_httpVersion {major minor : Text} (hmajor : IsDigits major) (hminor : IsDigits minor) {c : Char}
    (hdigit : c.isDigit = false) (hliteral : c ∉ ['H', 'T', 'P', '/', '.']) : c ∉ httpVersion major minor := by
  have hdigits (ds : Text) (hds : IsDigits ds) : c ∉ ds := by
    intro hmem
    rw [hds.isDigit c hmem] at hdigit
    contradiction
  rw [httpVersion_eq]
  simp only [List.mem_cons, List.mem_append, List.not_mem_nil, or_false, not_or] at hliteral ⊢
  obtain ⟨hH, hT, hP, hslash, hdot⟩ := hliteral
  exact ⟨hH, hT, hT, hP, hslash, hdigits major hmajor, hdot, hdigits minor hminor⟩

theorem noCrlf_httpVersion {major minor : Text} (hmajor : IsDigits major) (hminor : IsDigits minor) :
    NoCrlf (httpVersion major minor) := by
  intro h
  have hcr : '\r' ∈ httpVersion major minor := h.subset (by simp)
  exact notMem_httpVersion hmajor hminor (by decide) (by decide) hcr

theorem nul_notMem_serialize {method path version : Text} {headers : List (Text × Text)} {body : Text}
    (hm : nul ∉ method) (hp : nul ∉ path) (hv : nul ∉ version) (hh : ∀ h ∈ headers, PlainHeader h)
    (hb : nul ∉ body) : nul ∉ serializeRequest method path version headers body := by
  have hsep : nul ∉ ": ".toList ∧ nul ∉ "\r\n".toList ∧ nul ∉ " ".toList := by decide
  have hlines : nul ∉ headers.flatMap (fun header => headerLine header ++ "\r\n".toList) := by
    intro h
    obtain ⟨header, hmem, hc⟩ := List.mem_flatMap.mp h
    have hplain := hh header hmem
    simp only [headerLine, List.mem_append, hplain.name_nul, hplain.value_nul, hsep, or_self] at hc
  simp only [serializeRequest, List.mem_append, hm, hp, hv, hlines, hb, hsep, or_self, not_false_eq_true]

theorem parseRequestLine_serialize {method path major minor : Text} {headers : List (Text × Text)} {body : Text}
    (hmethod : method = "GET".toList ∨ method = "POST".toList)
    (hpath : path ≠ []) (hspace : ' ' ∉ path) (hnul : nul ∉ path)
    (hmajor : IsDigits major) (hminor : IsDigits minor)
    (hheaders : ∀ h ∈ headers, PlainHeader h) (hbody : nul ∉ body) :
    parseRequestLine (serializeRequest method path (httpVersion major minor) headers body) =
      { method := method
        path := path
        httpVersion := httpVersion major minor
        headers := headers.foldl (fun m h => m.insert h.1 h.2) ∅
        body := body
        originalRequest := serializeRequest method path (httpVersion major minor) headers body
        valid := true } := by
  have hmnul : nul ∉ method := by rcases hmethod with rfl | rfl <;> decide
  have hvnul : nul ∉ httpVersion major minor := notMem_httpVersion hmajor hminor (by decide) (by decide)
  have hc := cString_of_notMem (nul_notMem_serialize hmnul hnul hvnul hheaders hbody)
  have hserial : serializeRequest method path (httpVersion major minor) headers body =
      method ++ ' ' :: (path ++ ' ' :: (httpVersion major minor ++ '\r' :: '\n' ::
        (headers.flatMap (fun header => headerLine header ++ "\r\n".toList) ++ '\r' :: '\n' :: body))) := by
    simp [serializeRequest]
  have hplen : path.length ≠ 0 := by simpa using hpath
  simp only [parseRequestLine, hc]
  rw [hserial, scanMethod_space hmethod]
  simp only [scanPath_space hspace, List.nil_append, if_neg hplen,
    scanLine_crlf (noCrlf_httpVersion hmajor hminor), validateHttpVersion_of_digits hmajor hminor,
    not_true_eq_false, if_false, ne_eq, scanHeaders_plain headers hheaders]

theorem parseRequestLine_serialize_post :
    parseRequestLine (serializeRequest "POST".toList "/a\r\nb".toList (httpVersion "1".toList "10".toList)
        [("A".toList, "x: y".toList), ("B".toList, []), ("A".toList, "z".toList)] "=".toList) =
      { method := "POST".toList
        path := "/a\r\nb".toList
        httpVersion := "HTTP/1.10".toList
        headers := ((∅ : Headers).insert "A".toList "x: y".toList |>.insert "B".toList []).insert "A".toList "z".toList
        body := "=".toList
        originalRequest := "POST /a\r\nb HTTP/1.10\r\nA: x: y\r\nB: \r\nA: z\r\n\r\n=".toList
        valid := true } :=
  parseRequestLine_serialize (.inr rfl) (by decide) (by decide) (by decide) ⟨by decide, List.all_eq_true.mp rfl⟩
    ⟨by decide, List.all_eq_true.mp rfl⟩ (by
      have hplain (header : Text × Text) (h : ':' ∉ header.1 ∧ nul ∉ header.1 ∧ nul ∉ header.2 ∧
          header.2.head?.any isSpace = false ∧ header.2.getLast?.any isSpace = false ∧
          ¬ "\r\n".toList <:+: headerLine header) : PlainHeader header :=
        ⟨h.1, h.2.1, h.2.2.1, (Option.any_eq_false _ _).mp h.2.2.2.1, (Option.any_eq_false _ _).mp h.2.2.2.2.1,
          h.2.2.2.2.2⟩
      intro h hm
      simp only [List.mem_cons, List.not_mem_nil, or_false] at hm
      rcases hm with rfl | rfl | rfl <;> exact hplain _ (by decide)) (by decide)

end Session

end Bingit
