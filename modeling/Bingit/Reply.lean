import Bingit.Request

namespace Bingit

open Text

structure Reply where
  httpVersion : Text
  code : ℤ
  mimeType : Text
  content : Text
  headers : Headers

def codeToMessage (code : ℤ) : Text :=
  if code = 200 then "OK".toList
  else if code = 400 then "Bad Request".toList
  else if code = 404 then "Not Found".toList
  else "CODE NOT CONFIGURED".toList

/-- How a header map is iterated is left open. -/
structure HeaderOrder where
  list : Headers → List (Text × Text)
  perm : ∀ headers, (list headers).Perm headers.toList

def constructHttpResponse (order : HeaderOrder) (r : Reply) : Text :=
  r.httpVersion ++ " ".toList ++ ofInt r.code ++ " ".toList ++ codeToMessage r.code ++ "\r\n".toList ++
    (order.list r.headers).flatMap (fun h => h.1 ++ ": ".toList ++ h.2 ++ "\r\n".toList) ++
    "\r\n".toList ++ r.content

def makeReply (httpVersion : Text) (code : ℤ) (mimeType content : Text) : Reply :=
  { httpVersion := httpVersion
    code := code
    mimeType := mimeType
    content := content
    headers := ((∅ : Headers).insert "Content-Type".toList mimeType).insert "Content-Length".toList
      (decimal content.length) }

def decodeNumber (s : Text) : Option ℕ :=
  if s ≠ [] ∧ s.all Char.isDigit then some (Nat.ofDigitChars 10 s 0) else none

structure DecodedResponse where
  httpVersion : Text
  code : ℕ
  headers : List (Text × Text)
  content : Text

def splitPair (a b : Char) : Text → Option (Text × Text)
  | [] => none
  | [_] => none
  | c :: d :: s =>
    if c = a ∧ d = b then some ([], s) else (splitPair a b (d :: s)).map (fun r => (c :: r.1, r.2))

def splitSpace (s : Text) : Option (Text × Text) :=
  match s.dropWhile (· ≠ ' ') with
  | [] => none
  | _ :: rest => some (s.takeWhile (· ≠ ' '), rest)

def decodeHeaders : ℕ → Text → Option (List (Text × Text) × Text)
  | 0, _ => none
  | fuel + 1, s => do
    let (line, rest) ← splitPair '\r' '\n' s
    if line = [] then some ([], rest)
    else
      let header ← splitPair ':' ' ' line
      let (headers, content) ← decodeHeaders fuel rest
      some (header :: headers, content)

def decodeResponse (bytes : Text) : Option DecodedResponse := do
  let (statusLine, rest) ← splitPair '\r' '\n' bytes
  let (httpVersion, statusLine) ← splitSpace statusLine
  let (code, _) ← splitSpace statusLine
  let (headers, content) ← decodeHeaders rest.length rest
  some ⟨httpVersion, ← decodeNumber code, headers, content⟩

theorem decodeNumber_decimal (n : ℕ) : decodeNumber (decimal n) = some n := by
  rw [decodeNumber, if_pos]
  · exact congrArg some Nat.ofDigitChars_ten_toDigits
  · refine ⟨decimal_ne_nil n, ?_⟩
    rw [List.all_eq_true]
    intro c hc
    exact isDigit_of_mem_decimal hc

theorem splitPair_append {a b : Char} {w : Text} (hw : a ∉ w) (s : Text) :
    splitPair a b (w ++ a :: b :: s) = some (w, s) := by
  induction w with
  | nil => simp [splitPair]
  | cons c w ih =>
    have hc : c ≠ a := by
      intro hc
      apply hw
      simp [hc]
    have htail := ih (fun h => hw (by simp [h]))
    cases w with
    | nil => simp [splitPair, hc]
    | cons d w =>
      rw [List.cons_append] at htail
      simp [splitPair, hc, htail]

theorem splitSpace_append {w : Text} (hw : ' ' ∉ w) (s : Text) : splitSpace (w ++ ' ' :: s) = some (w, s) := by
  have hall : ∀ c ∈ w, decide (c ≠ ' ') = true := by
    intro c hc
    simpa using ne_of_mem_of_not_mem hc hw
  rw [splitSpace, List.dropWhile_append_of_pos hall, List.takeWhile_append_of_pos hall]
  simp

structure PlainField (h : Text × Text) : Prop where
  name_ne : h.1 ≠ []
  name_colon : ':' ∉ h.1
  name_cr : '\r' ∉ h.1
  value_cr : '\r' ∉ h.2

theorem decodeHeaders_lines {hs : List (Text × Text)} (hhs : ∀ h ∈ hs, PlainField h) (content : Text)
    {fuel : ℕ} (hfuel : hs.length < fuel) :
    decodeHeaders fuel (hs.flatMap (fun h => h.1 ++ ": ".toList ++ h.2 ++ "\r\n".toList) ++
      '\r' :: '\n' :: content) = some (hs, content) := by
  induction hs generalizing fuel with
  | nil =>
    obtain ⟨fuel, rfl⟩ : ∃ k, fuel = k + 1 := ⟨fuel - 1, by omega⟩
    simp [decodeHeaders, splitPair]
  | cons h hs ih =>
    rw [List.length_cons] at hfuel
    obtain ⟨fuel, rfl⟩ : ∃ k, fuel = k + 1 := ⟨fuel - 1, by omega⟩
    have hplain := hhs h (by simp)
    have hcr : '\r' ∉ h.1 ++ ':' :: ' ' :: h.2 := by simp [hplain.name_cr, hplain.value_cr]
    have hsplit (s : Text) := splitPair_append (b := '\n') hcr s
    have hrest := ih (fun g hg => hhs g (by simp [hg])) (show hs.length < fuel by omega)
    have htext : (h :: hs).flatMap (fun h => h.1 ++ ": ".toList ++ h.2 ++ "\r\n".toList) ++
        '\r' :: '\n' :: content = (h.1 ++ ':' :: ' ' :: h.2) ++ '\r' :: '\n' ::
          (hs.flatMap (fun h => h.1 ++ ": ".toList ++ h.2 ++ "\r\n".toList) ++ '\r' :: '\n' :: content) := by
      simp
    rw [htext, decodeHeaders, hsplit]
    simp only [Option.bind_eq_bind, Option.bind_some, List.append_eq_nil_iff, reduceCtorEq, and_false, if_false,
      splitPair_append hplain.name_colon, hrest]

theorem length_le_lines (hs : List (Text × Text)) :
    hs.length ≤ (hs.flatMap (fun h => h.1 ++ ": ".toList ++ h.2 ++ "\r\n".toList)).length := by
  induction hs with
  | nil => rfl
  | cons h hs ih =>
    have hcrlf : ("\r\n".toList).length = 2 := rfl
    rw [List.flatMap_cons]
    simp only [List.length_cons, List.length_append]
    omega

theorem decodeResponse_construct (order : HeaderOrder) (r : Reply) {n : ℕ} (hcode : r.code = n)
    (hspace : ' ' ∉ r.httpVersion) (hcr : '\r' ∉ r.httpVersion)
    (hheaders : ∀ h ∈ order.list r.headers, PlainField h) :
    decodeResponse (constructHttpResponse order r) =
      some ⟨r.httpVersion, n, order.list r.headers, r.content⟩ := by
  have hdigits : ofInt r.code = decimal n := by rw [hcode]; rfl
  have hmessage : '\r' ∉ codeToMessage r.code := by
    rw [codeToMessage]
    split_ifs <;> decide
  have hline : '\r' ∉ r.httpVersion ++ ' ' :: (decimal n ++ ' ' :: codeToMessage r.code) := by
    simp [hcr, hmessage, Text.notMem_decimal (c := '\r') rfl n]
  have htext : constructHttpResponse order r =
      (r.httpVersion ++ ' ' :: (decimal n ++ ' ' :: codeToMessage r.code)) ++ '\r' :: '\n' ::
        ((order.list r.headers).flatMap (fun h => h.1 ++ ": ".toList ++ h.2 ++ "\r\n".toList) ++
          '\r' :: '\n' :: r.content) := by
    simp [constructHttpResponse, hdigits]
  have hfuel := length_le_lines (order.list r.headers)
  rw [htext, decodeResponse, splitPair_append hline]
  simp only [Option.bind_eq_bind, Option.bind_some, splitSpace_append hspace, splitSpace_append (Text.notMem_decimal rfl n)]
  rw [decodeHeaders_lines hheaders _ (by simp only [List.length_append, List.length_cons]; omega)]
  simp only [Option.bind_some, decodeNumber_decimal]

end Bingit
