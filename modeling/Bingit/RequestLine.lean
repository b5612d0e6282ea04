import Bingit.Request

namespace Bingit.Session

open Text

theorem le_of_countDots {count n : ℕ} {s : Text} (h : countDots count s = some n) : count ≤ n := by
  induction s generalizing count with
  | nil => exact (Option.some.inj h).le
  | cons c s ih =>
    rw [countDots] at h
    split_ifs at h
    · exact (Nat.le_succ count).trans (ih h)
    · exact ih h

theorem digits_of_countDots {count : ℕ} {s : Text} (h : countDots count s = some count) :
    ∀ c ∈ s, c.isDigit = true := by
  induction s with
  | nil => simp
  | cons c s ih =>
    rw [countDots] at h
    rw [List.forall_mem_cons]
    split_ifs at h with hdot hdigit
    · have hle := le_of_countDots h
      omega
    · exact ⟨hdigit, ih h⟩

theorem split_of_countDots {count : ℕ} {s : Text} (h : countDots count s = some (count + 1)) :
    ∃ major minor, s = major ++ '.' :: minor ∧ (∀ c ∈ major, c.isDigit = true) ∧
      ∀ c ∈ minor, c.isDigit = true := by
  induction s with
  | nil =>
    have hcount : count = count + 1 := Option.some.inj h
    omega
  | cons c s ih =>
    rw [countDots] at h
    split_ifs at h with hdot hdigit
    · subst hdot
      exact ⟨[], s, rfl, by simp, digits_of_countDots h⟩
    · obtain ⟨major, minor, rfl, hmajor, hminor⟩ := ih h
      refine ⟨c :: major, minor, rfl, ?_, hminor⟩
      rw [List.forall_mem_cons]
      exact ⟨hdigit, hmajor⟩

def IsHttpVersion (v : Text) : Prop :=
  ∃ major minor, IsDigits major ∧ IsDigits minor ∧ v = httpVersion major minor

theorem validateHttpVersion_iff (v : Text) : validateHttpVersion v = true ↔ IsHttpVersion v := by
  constructor
  · intro h
    unfold validateHttpVersion at h
    split at h
    · contradiction
    · next hnot =>
      push Not at hnot
      obtain ⟨-, hfifth, hlast, hhead⟩ := hnot
      obtain ⟨major, minor, hsplit, hmajor, hminor⟩ := split_of_countDots (of_decide_eq_true h)
      have hv : v = httpVersion major minor := by
        rw [← List.take_append_drop 5 v, hhead, hsplit]
        unfold httpVersion
        simp
      subst hv
      refine ⟨major, minor, ⟨?_, hmajor⟩, ⟨?_, hminor⟩, rfl⟩
      · rintro rfl
        rw [httpVersion_eq] at hfifth
        simp at hfifth
      · rintro rfl
        apply hlast
        unfold httpVersion
        simp only [List.append_nil]
        exact List.getLast?_concat
  · rintro ⟨major, minor, hmajor, hminor, rfl⟩
    exact validateHttpVersion_of_digits hmajor hminor

theorem IsHttpVersion.noCrlf {v : Text} (h : IsHttpVersion v) : NoCrlf v := by
  obtain ⟨major, minor, hmajor, hminor, rfl⟩ := h
  exact noCrlf_httpVersion hmajor hminor

theorem scanMethod_eq_some {acc s method rest : Text} (h : scanMethod acc s = some (method, rest)) (hrest : rest ≠ []) :
    ∃ w, s = w ++ ' ' :: rest ∧ method = acc ++ w ∧ (method = "GET".toList ∨ method = "POST".toList) := by
  induction s generalizing acc with
  | nil =>
    obtain ⟨-, rfl⟩ := Prod.mk.inj (Option.some.inj h)
    exact absurd rfl hrest
  | cons c s ih =>
    unfold scanMethod at h
    split_ifs at h with hc hknown
    · obtain ⟨rfl, rfl⟩ := Prod.mk.inj (Option.some.inj h)
      subst hc
      refine ⟨[], rfl, by simp, ?_⟩
      exact not_and_or.mp hknown |>.imp not_not.mp not_not.mp
    · obtain ⟨w, rfl, hmethod, hknown⟩ := ih h
      exact ⟨c :: w, rfl, by simp [hmethod], hknown⟩

theorem scanPath_eq {acc s path rest : Text} (h : scanPath acc s = (path, rest)) (hrest : rest ≠ []) :
    ∃ w, s = w ++ ' ' :: rest ∧ path = acc ++ w ∧ ' ' ∉ w := by
  induction s generalizing acc with
  | nil =>
    obtain ⟨-, rfl⟩ := Prod.mk.inj h
    exact absurd rfl hrest
  | cons c s ih =>
    unfold scanPath at h
    split_ifs at h with hc
    · obtain ⟨rfl, rfl⟩ := Prod.mk.inj h
      subst hc
      exact ⟨[], rfl, by simp, List.not_mem_nil⟩
    · obtain ⟨w, rfl, hpath, hspace⟩ := ih h
      refine ⟨c :: w, rfl, by simp [hpath], ?_⟩
      rw [List.mem_cons, not_or]
      exact ⟨Ne.symm hc, hspace⟩

instance (s : Text) : Decidable (NoCrlf s) := inferInstanceAs (Decidable (¬ "\r\n".toList <:+: s))

theorem noCrlf_cons {c : Char} {w : Text} (hw : NoCrlf w) (hc : ¬ ['\r', '\n'] <+: c :: w) : NoCrlf (c :: w) := by
  intro hin
  rcases List.infix_cons_iff.mp hin with hinitial | hinner
  · exact hc (by simpa using hinitial)
  · exact hw hinner

theorem scanLine_eq_true {acc s line rest : Text} (h : scanLine acc s = (line, rest, true)) :
    ∃ w, s = w ++ '\r' :: '\n' :: rest ∧ line = acc ++ w ∧ NoCrlf w := by
  fun_induction scanLine acc s with
  | case1 acc s =>
    obtain ⟨rfl, hrest⟩ := Prod.mk.inj h
    obtain ⟨rfl, -⟩ := Prod.mk.inj hrest
    exact ⟨[], rfl, by simp, by simp [NoCrlf]⟩
  | case2 acc c d s hcd ih =>
    obtain ⟨w, hs, hline, hw⟩ := ih h
    refine ⟨c :: w, by rw [hs]; rfl, by simp [hline], noCrlf_cons hw ?_⟩
    -- a CRLF at `c` would also be one of the input, where the loop looked for it
    intro hcrlf
    obtain ⟨rfl, hd⟩ := List.cons_prefix_cons.mp hcrlf
    cases w with
    | nil => simp at hd
    | cons e w =>
      obtain rfl : '\n' = e := (List.cons_prefix_cons.mp hd).1
      obtain ⟨rfl, -⟩ := List.cons.inj hs
      exact hcd rfl rfl
  | case3 acc s =>
    obtain ⟨-, hrest⟩ := Prod.mk.inj h
    cases (Prod.mk.inj hrest).2

structure IsRequestLine (s method path version rest : Text) : Prop where
  text : s = method ++ ' ' :: (path ++ ' ' :: (version ++ '\r' :: '\n' :: rest))
  known : method = "GET".toList ∨ method = "POST".toList
  nonempty : path ≠ []
  noSpace : ' ' ∉ path
  isVersion : IsHttpVersion version

theorem parse_of_isRequestLine {s method path version rest : Text}
    (h : IsRequestLine (cString s) method path version rest) :
    parseRequestLine s =
      { method := method
        path := path
        httpVersion := version
        headers := (scanHeaders rest.length ∅ rest).1
        body := (scanHeaders rest.length ∅ rest).2
        originalRequest := cString s
        valid := true } := by
  have hlength : path.length ≠ 0 := by simpa using h.nonempty
  have hversion := (validateHttpVersion_iff version).mpr h.isVersion
  simp only [parseRequestLine]
  rw [h.text, scanMethod_space h.known]
  simp only [scanPath_space h.noSpace, List.nil_append, if_neg hlength, scanLine_crlf h.isVersion.noCrlf, hversion,
    not_true_eq_false, if_false, ne_eq]

theorem isRequestLine_of_valid {s : Text} (h : (parseRequestLine s).valid = true) :
    ∃ method path version rest, IsRequestLine (cString s) method path version rest := by
  rcases parseRequestLine_cases s with hinvalid | hvalid
  · rw [hinvalid] at h
    contradiction
  · obtain ⟨method, path, version, headers, body, s₁, s₂, s₃, hmethod, hpath, hne, hline, hversion, -, -⟩ := hvalid
    obtain ⟨w, rfl, rfl, -⟩ := scanLine_eq_true hline
    obtain ⟨p, rfl, rfl, hspace⟩ := scanPath_eq hpath (by simp)
    obtain ⟨m, hs, rfl, hknown⟩ := scanMethod_eq_some hmethod (by simp)
    exact ⟨_, _, _, s₃, hs, hknown, hne, hspace, (validateHttpVersion_iff _).mp hversion⟩

theorem IsRequestLine.unique {s method path version rest method' path' version' rest' : Text}
    (h : IsRequestLine s method path version rest) (h' : IsRequestLine s method' path' version' rest') :
    method = method' ∧ path = path' ∧ version = version' ∧ rest = rest' := by
  have hmethod := scanMethod_space h.known (path ++ ' ' :: (version ++ '\r' :: '\n' :: rest))
  rw [← h.text, h'.text, scanMethod_space h'.known] at hmethod
  obtain ⟨rfl, hrest⟩ := Prod.mk.inj (Option.some.inj hmethod)
  have hpath := scanPath_space h.noSpace [] (version ++ '\r' :: '\n' :: rest)
  rw [← hrest, scanPath_space h'.noSpace] at hpath
  obtain ⟨hp, hline⟩ := Prod.mk.inj hpath
  have hversion := scanLine_crlf h.isVersion.noCrlf [] rest
  rw [← hline, scanLine_crlf h'.isVersion.noCrlf] at hversion
  obtain ⟨hv, hlast⟩ := Prod.mk.inj hversion
  exact ⟨rfl, by simpa using hp.symm, by simpa using hv.symm, (Prod.mk.inj hlast).1.symm⟩

theorem parseRequestLine_of_invalid {s : Text} (h : (parseRequestLine s).valid = false) :
    parseRequestLine s = ⟨[], [], "HTTP/1.1".toList, ∅, [], cString s, false⟩ := by
  rcases parseRequestLine_cases s with hinvalid | hvalid
  · exact hinvalid
  · obtain ⟨method, path, version, headers, body, s₁, s₂, s₃, -, -, -, -, -, -, heq⟩ := hvalid
    rw [heq] at h
    contradiction

theorem parseRequestLine_language (s : Text) :
    ((parseRequestLine s).valid = true ↔
      ∃ method path version rest, IsRequestLine (cString s) method path version rest) ∧
    (∀ method path version rest, IsRequestLine (cString s) method path version rest →
      (∀ method' path' version' rest', IsRequestLine (cString s) method' path' version' rest' →
        method' = method ∧ path' = path ∧ version' = version ∧ rest' = rest) ∧
      (parseRequestLine s).method = method ∧ (parseRequestLine s).path = path ∧
        (parseRequestLine s).httpVersion = version) ∧
    ((¬ ∃ method path version rest, IsRequestLine (cString s) method path version rest) →
      (parseRequestLine s).valid = false ∧ (parseRequestLine s).method = [] ∧ (parseRequestLine s).path = [] ∧
        (parseRequestLine s).body = [] ∧ (parseRequestLine s).headers = ∅) := by
  refine ⟨⟨isRequestLine_of_valid, ?_⟩, ?_, ?_⟩
  · rintro ⟨method, path, version, rest, h⟩
    rw [parse_of_isRequestLine h]
  · intro method path version rest h
    refine ⟨fun method' path' version' rest' h' => h'.unique h, ?_⟩
    rw [parse_of_isRequestLine h]
    exact ⟨rfl, rfl, rfl⟩
  · intro hno
    have hvalid : (parseRequestLine s).valid = false := by
      rw [← Bool.not_eq_true]
      exact fun h => hno (isRequestLine_of_valid h)
    refine ⟨hvalid, ?_⟩
    rw [parseRequestLine_of_invalid hvalid]
    exact ⟨rfl, rfl, rfl, rfl⟩

theorem scanLine_eq_false {acc s line rest : Text} (h : scanLine acc s = (line, rest, false)) :
    NoCrlf s ∧ line = acc ++ s.dropLast ∧ rest.length ≤ 1 := by
  fun_induction scanLine acc s with
  | case1 acc s => cases (Prod.mk.inj (Prod.mk.inj h).2).2
  | case2 acc c d s hcd ih =>
    obtain ⟨hno, hline, hrest⟩ := ih h
    refine ⟨noCrlf_cons hno ?_, by simp [hline], hrest⟩
    intro hcrlf
    obtain ⟨rfl, hd⟩ := List.cons_prefix_cons.mp hcrlf
    obtain ⟨rfl, -⟩ := List.cons_prefix_cons.mp hd
    exact hcd rfl rfl
  | case3 acc s hcrlf hmore =>
    obtain ⟨rfl, hrest⟩ := Prod.mk.inj h
    obtain ⟨rfl, -⟩ := Prod.mk.inj hrest
    cases s with
    | nil => exact ⟨by simp [NoCrlf], by simp, by simp⟩
    | cons c s =>
      cases s with
      | nil => exact ⟨fun hin => absurd hin.length_le (by simp), by simp, by simp⟩
      | cons d s => exact absurd rfl (hmore c d s)

def storeCutLine (headers : Headers) (s : Text) : Headers :=
  if 1 < s.length then storeHeader headers s.dropLast else headers

def joinLines (lines : List Text) : Text := lines.flatMap (fun line => line ++ "\r\n".toList)

def IsHeaderLine (line : Text) : Prop := line ≠ [] ∧ NoCrlf line

def HeaderBlock (headers : Headers) (s : Text) (headers' : Headers) (body : Text) : Prop :=
  ∃ lines tail, s = joinLines lines ++ tail ∧ (∀ line ∈ lines, IsHeaderLine line) ∧
    (tail = "\r\n".toList ++ body ∧ headers' = lines.foldl storeHeader headers ∨
      NoCrlf tail ∧ body = [] ∧ headers' = storeCutLine (lines.foldl storeHeader headers) tail)

theorem HeaderBlock.cons {headers headers' : Headers} {line s body : Text} (hline : IsHeaderLine line)
    (h : HeaderBlock (storeHeader headers line) s headers' body) :
    HeaderBlock headers (line ++ '\r' :: '\n' :: s) headers' body := by
  obtain ⟨lines, tail, rfl, hlines, hend⟩ := h
  refine ⟨line :: lines, tail, by simp [joinLines], ?_, hend⟩
  rw [List.forall_mem_cons]
  exact ⟨hline, hlines⟩

theorem headerBlock_short (headers : Headers) {s : Text} (h : ¬ 1 < s.length) : HeaderBlock headers s headers [] := by
  refine ⟨[], s, rfl, by simp, .inr ⟨?_, rfl, (if_neg h).symm⟩⟩
  intro hin
  exact h hin.length_le

theorem scanHeaders_short (headers : Headers) {s : Text} (h : ¬ 1 < s.length) (fuel : ℕ) :
    scanHeaders fuel headers s = (headers, []) := by
  cases fuel with
  | zero => rfl
  | succ fuel => exact if_neg h

theorem scanHeaders_block (headers : Headers) (s : Text) :
    HeaderBlock headers s (scanHeaders s.length headers s).1 (scanHeaders s.length headers s).2 := by
  induction hn : s.length using Nat.strong_induction_on generalizing headers s with
  | _ n ih =>
    subst hn
    by_cases hlong : 1 < s.length
    · rcases hscan : scanLine [] s with ⟨line, rest, found⟩
      have hlt := scanLine_rest_lt [] s hlong
      rw [hscan] at hlt
      cases found with
      | true =>
        obtain ⟨w, hs, hline, hw⟩ := scanLine_eq_true hscan
        rw [List.nil_append] at hline
        subst hline
        by_cases hempty : line = []
        · subst hempty
          obtain ⟨fuel, hfuel⟩ : ∃ fuel, s.length = fuel + 1 := ⟨s.length - 1, by omega⟩
          have hend : scanHeaders s.length headers s = (headers, rest) := by
            rw [hfuel, scanHeaders, if_pos hlong, hscan]
            rfl
          rw [hend]
          exact ⟨[], s, rfl, by simp, .inl ⟨hs, rfl⟩⟩
        · rw [scanHeaders_step headers hlong hscan hempty, hs]
          exact HeaderBlock.cons ⟨hempty, hw⟩ (ih rest.length hlt (storeHeader headers line) rest rfl)
      | false =>
        obtain ⟨hno, hline, hrest⟩ := scanLine_eq_false hscan
        rw [List.nil_append] at hline
        have hne : line ≠ [] := by
          rw [hline, ← List.length_pos_iff, List.length_dropLast]
          omega
        rw [scanHeaders_step headers hlong hscan hne, scanHeaders_short _ (by omega)]
        refine ⟨[], s, rfl, by simp, .inr ⟨hno, rfl, ?_⟩⟩
        rw [hline]
        exact (if_pos hlong).symm
    · rw [scanHeaders_short headers hlong]
      exact headerBlock_short headers hlong

def requestLineText (request : Request) : Text :=
  request.method ++ " ".toList ++ request.path ++ " ".toList ++ request.httpVersion

def ConfinedToFirstLine (s : Text) (request : Request) : Prop :=
  NoCrlf (requestLineText request) ∧
    ∃ rest, s = requestLineText request ++ "\r\n".toList ++ rest ∧
      HeaderBlock ∅ rest request.headers request.body

def betweenSpaces (s : Text) : Text := ((s.dropWhile (· ≠ ' ')).drop 1).takeWhile (· ≠ ' ')

theorem IsRequestLine.betweenSpaces {s method path version rest : Text}
    (h : IsRequestLine s method path version rest) : betweenSpaces s = path := by
  have hmethod : ' ' ∉ method := by rcases h.known with rfl | rfl <;> decide
  have hcut {w : Text} (hw : ' ' ∉ w) (s : Text) := @takeWhile_dropWhile_ne ' ' w (' ' :: s) hw (by simp)
  rw [h.text, Session.betweenSpaces, (hcut hmethod _).2]
  exact (hcut h.noSpace _).1

theorem noCrlf_append_space {a b : Text} (ha : NoCrlf a) (hb : NoCrlf b) : NoCrlf (a ++ ' ' :: b) := by
  induction a with
  | nil => exact noCrlf_cons hb (by simp)
  | cons c a ih =>
    refine noCrlf_cons (ih ha.tail) ?_
    intro hcrlf
    obtain ⟨rfl, hd⟩ := List.cons_prefix_cons.mp hcrlf
    cases a with
    | nil => simp at hd
    | cons d a =>
      obtain rfl : '\n' = d := (List.cons_prefix_cons.mp hd).1
      exact ha (List.prefix_append ['\r', '\n'] a).isInfix

theorem IsRequestLine.noCrlf_iff {s method path version rest : Text} (h : IsRequestLine s method path version rest) :
    NoCrlf (method ++ ' ' :: (path ++ ' ' :: version)) ↔ NoCrlf path := by
  constructor
  · intro hno hin
    apply hno
    exact hin.trans ⟨method ++ [' '], ' ' :: version, by simp⟩
  · intro hpath
    have hmethod : NoCrlf method := by rcases h.known with rfl | rfl <;> decide
    exact noCrlf_append_space hmethod (noCrlf_append_space hpath h.isVersion.noCrlf)

theorem confinedToFirstLine_iff {s : Text} (hvalid : (parseRequestLine s).valid = true) :
    ConfinedToFirstLine (cString s) (parseRequestLine s) ↔ NoCrlf (betweenSpaces (cString s)) := by
  obtain ⟨method, path, version, rest, h⟩ := isRequestLine_of_valid hvalid
  have hparse := parse_of_isRequestLine h
  have hline : requestLineText (parseRequestLine s) = method ++ ' ' :: (path ++ ' ' :: version) := by
    rw [hparse]
    simp [requestLineText]
  rw [ConfinedToFirstLine, hline, h.noCrlf_iff, h.betweenSpaces]
  constructor
  · exact And.left
  · intro hpath
    refine ⟨hpath, rest, by simp [h.text], ?_⟩
    rw [hparse]
    exact scanHeaders_block ∅ rest

theorem confinedToFirstLine_twoHeaders :
    ConfinedToFirstLine (cString "GET /a HTTP/1.1\r\nA: b\r\nC: d\r\n\r\n".toList)
      (parseRequestLine "GET /a HTTP/1.1\r\nA: b\r\nC: d\r\n\r\n".toList) :=
  (confinedToFirstLine_iff (by decide +kernel)).mpr (by decide +kernel)

theorem path_across_lines :
    (parseRequestLine "GET /a\r\nX HTTP/1.1\r\n\r\n".toList).valid = true ∧
      ¬ ConfinedToFirstLine (cString "GET /a\r\nX HTTP/1.1\r\n\r\n".toList)
        (parseRequestLine "GET /a\r\nX HTTP/1.1\r\n\r\n".toList) := by
  refine ⟨by decide +kernel, ?_⟩
  rintro ⟨hno, -⟩
  exact hno (by decide +kernel)

end Bingit.Session
