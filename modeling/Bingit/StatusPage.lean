import Bingit.RequestEffects

namespace Bingit

open Text

namespace StatusHandler

def expect (w s : Text) : Option Text := if w <+: s then some (s.drop w.length) else none

theorem expect_append (w s : Text) : expect w (w ++ s) = some s := by
  rw [expect, if_pos (List.prefix_append w s), List.drop_left]

def splitLine (s : Text) : Option (Text × Text) :=
  match s.dropWhile (· ≠ '\n') with
  | [] => none
  | _ :: rest => some (s.takeWhile (· ≠ '\n'), rest)

theorem splitLine_append {w : Text} (hw : '\n' ∉ w) (s : Text) : splitLine (w ++ '\n' :: s) = some (w, s) := by
  have hall : ∀ c ∈ w, decide (c ≠ '\n') = true := by
    intro c hc
    simpa using ne_of_mem_of_not_mem hc hw
  rw [splitLine, List.dropWhile_append_of_pos hall, List.takeWhile_append_of_pos hall]
  simp

def readCount (s : Text) : Option (ℤ × Text) := do
  let (digits, s) ← splitLine s
  some (← decodeNumber digits, s)

def readUrl (s : Text) : Option ((Text × ℤ) × Text) := do
  let (url, s) ← splitSpace (← expect "Number of requests received for ".toList s)
  let (count, s) ← readCount s
  some ((url.dropLast, count), s)

def readCode (s : Text) : Option ((ℤ × ℤ) × Text) := do
  let (code, s) ← splitSpace (← expect "Number of ".toList s)
  let (count, s) ← readCount (← expect "responses sent: ".toList s)
  some ((← decodeNumber code, count), s)

def readLines {α : Type} (next : Text → Option (α × Text)) : ℕ → Text → Option (List α × Text)
  | 0, _ => none
  | _ + 1, '\n' :: s => some ([], s)
  | fuel + 1, s => do
    let (a, s) ← next s
    let (as, s) ← readLines next fuel s
    some (a :: as, s)

/-- What a monitor reads off a status page. -/
def readPage (s : Text) : Option (ℤ × List (Text × ℤ) × List (ℤ × ℤ)) := do
  let (total, s) ← readCount (← expect "Total Number of Requests Received: ".toList s)
  let s ← expect "\n".toList s
  let (urls, s) ← readLines readUrl s.length s
  let (codes, _) ← readLines readCode s.length s
  some (total, urls, codes)

theorem readCount_decimal (n : ℕ) (s : Text) : readCount (decimal n ++ '\n' :: s) = some ((n : ℤ), s) := by
  have hsplit := splitLine_append (notMem_decimal (c := '\n') rfl n) s
  simp only [readCount, hsplit, decodeNumber_decimal, Option.bind_eq_bind, Option.bind_some]

def urlLine (element : Text × ℤ) : Text :=
  "Number of requests received for ".toList ++ element.1 ++ ": ".toList ++ ofInt element.2 ++ "\n".toList

def codeLine (element : ℤ × ℤ) : Text :=
  "Number of ".toList ++ ofInt element.1 ++ " responses sent: ".toList ++ ofInt element.2 ++ "\n".toList

def pathLine (element : Text × Text × NginxConfig) : Text :=
  "A ".toList ++ element.2.1 ++ " request handler exists for the path: ".toList ++ element.1 ++ "\n".toList

theorem readUrl_urlLine {url : Text} (hurl : ' ' ∉ url) (n : ℕ) (s : Text) :
    readUrl (urlLine (url, (n : ℤ)) ++ s) = some ((url, (n : ℤ)), s) := by
  have htext : urlLine (url, (n : ℤ)) ++ s = "Number of requests received for ".toList ++
      ((url ++ [':']) ++ ' ' :: (decimal n ++ '\n' :: s)) := by
    change "Number of requests received for ".toList ++ url ++ [':', ' '] ++ decimal n ++ ['\n'] ++ s = _
    simp only [List.append_assoc, List.cons_append, List.nil_append]
  have hspace : ' ' ∉ url ++ [':'] := by
    rw [List.mem_append, not_or]
    exact ⟨hurl, by decide⟩
  rw [htext, readUrl, expect_append]
  simp only [Option.bind_eq_bind, Option.bind_some, splitSpace_append hspace, readCount_decimal,
    List.dropLast_concat]

theorem readCode_codeLine (code n : ℕ) (s : Text) :
    readCode (codeLine ((code : ℤ), (n : ℤ)) ++ s) = some (((code : ℤ), (n : ℤ)), s) := by
  have htext : codeLine ((code : ℤ), (n : ℤ)) ++ s = "Number of ".toList ++
      (decimal code ++ ' ' :: ("responses sent: ".toList ++ (decimal n ++ '\n' :: s))) := by
    change "Number of ".toList ++ decimal code ++ (' ' :: "responses sent: ".toList) ++ decimal n ++ ['\n'] ++ s = _
    simp only [List.append_assoc, List.cons_append, List.nil_append]
  rw [htext, readCode, expect_append]
  simp only [Option.bind_eq_bind, Option.bind_some, splitSpace_append (notMem_decimal (c := ' ') rfl code),
    expect_append, readCount_decimal, decodeNumber_decimal]

def BeginsLine (s : Text) : Prop := ∃ c rest, s = c :: rest ∧ c ≠ '\n'

theorem urlLine_beginsLine (element : Text × ℤ) : BeginsLine (urlLine element) := ⟨'N', _, rfl, by decide⟩

theorem codeLine_beginsLine (element : ℤ × ℤ) : BeginsLine (codeLine element) := ⟨'N', _, rfl, by decide⟩

theorem readLines_flatMap {α : Type} {next : Text → Option (α × Text)} {line : α → Text} {as : List α}
    (hnext : ∀ a ∈ as, ∀ s, next (line a ++ s) = some (a, s)) (hline : ∀ a, BeginsLine (line a)) {fuel : ℕ}
    (hfuel : (as.flatMap line).length < fuel) (s : Text) :
    readLines next fuel (as.flatMap line ++ '\n' :: s) = some (as, s) := by
  induction as generalizing fuel with
  | nil =>
    obtain ⟨fuel, rfl⟩ : ∃ k, fuel = k + 1 := ⟨fuel - 1, by omega⟩
    rfl
  | cons a as ih =>
    obtain ⟨c, rest, ha, hc⟩ := hline a
    obtain ⟨fuel, rfl⟩ : ∃ k, fuel = k + 1 := ⟨fuel - 1, by omega⟩
    rw [List.forall_mem_cons] at hnext
    rw [List.flatMap_cons, List.length_append, ha, List.length_cons] at hfuel
    rw [List.flatMap_cons, List.append_assoc, readLines]
    · rw [hnext.1]
      simp only [Option.bind_eq_bind, Option.bind_some, ih hnext.2 (show (as.flatMap line).length < fuel by omega)]
    · intro t hnewline
      rw [ha] at hnewline
      exact hc (List.cons.inj hnewline).1

structure Readable (urls : List (Text × ℤ)) (codes : List (ℤ × ℤ)) : Prop where
  urls : ∀ u ∈ urls, ' ' ∉ u.1 ∧ ∃ n : ℕ, u.2 = n
  codes : ∀ u ∈ codes, (∃ m : ℕ, u.1 = m) ∧ ∃ n : ℕ, u.2 = n

theorem readPage_content (total : ℕ) {urls : List (Text × ℤ)} {codes : List (ℤ × ℤ)} (h : Readable urls codes)
    (paths : HandlerPaths) : readPage (content (total : ℤ) urls codes paths) = some ((total : ℤ), urls, codes) := by
  have hurls : ∀ u ∈ urls, ∀ s, readUrl (urlLine u ++ s) = some (u, s) := by
    rintro ⟨url, count⟩ hu s
    obtain ⟨hspace, n, rfl⟩ := h.urls _ hu
    exact readUrl_urlLine hspace n s
  have hcodes : ∀ u ∈ codes, ∀ s, readCode (codeLine u ++ s) = some (u, s) := by
    rintro ⟨code, count⟩ hu s
    obtain ⟨⟨m, rfl⟩, n, rfl⟩ := h.codes _ hu
    exact readCode_codeLine m n s
  have hcontent : content (total : ℤ) urls codes paths =
      "Total Number of Requests Received: ".toList ++ (decimal total ++ '\n' :: ("\n".toList ++
        (urls.flatMap urlLine ++ '\n' :: (codes.flatMap codeLine ++ '\n' :: paths.toList.flatMap pathLine)))) := by
    change "Total Number of Requests Received: ".toList ++ decimal total ++ ('\n' :: "\n".toList) ++
      urls.flatMap urlLine ++ ['\n'] ++ codes.flatMap codeLine ++ ['\n'] ++ paths.toList.flatMap pathLine = _
    simp only [List.append_assoc, List.cons_append, List.nil_append]
  rw [hcontent]
  unfold readPage
  rw [expect_append]
  simp only [Option.bind_eq_bind, Option.bind_some, readCount_decimal, expect_append]
  rw [readLines_flatMap hurls urlLine_beginsLine (by simp only [List.length_append, List.length_cons]; omega)]
  simp only [Option.bind_some]
  rw [readLines_flatMap hcodes codeLine_beginsLine (by simp only [List.length_append, List.length_cons]; omega)]
  rfl

end StatusHandler

namespace Session

open Interleaving StatusHandler

variable {Db : Type} {env : Env Db} {params : ConfigParams} {db : Db}

theorem scanPath_notMem_space {acc s : Text} (hacc : ' ' ∉ acc) : ' ' ∉ (scanPath acc s).1 := by
  induction s generalizing acc with
  | nil => exact hacc
  | cons c s ih =>
    unfold scanPath
    split_ifs with hc
    · exact hacc
    · apply ih
      rw [List.mem_append, not_or]
      exact ⟨hacc, by simpa [eq_comm] using hc⟩

theorem space_notMem_path (data : Text) : ' ' ∉ (parseRequestLine data).path := by
  rcases parseRequestLine_cases data with hinvalid | hvalid
  · rw [hinvalid]
    exact List.not_mem_nil
  · obtain ⟨method, path, version, headers, body, s₁, s₂, s₃, -, hpath, -, -, -, -, heq⟩ := hvalid
    have hspace := @scanPath_notMem_space [] s₁ List.not_mem_nil
    rw [hpath] at hspace
    rwa [heq]

theorem updates_mono {t t' : List (ℕ × Event Ret)} (h : t.Sublist t') {u : Text × ℤ} (hu : u ∈ updates t) :
    u ∈ updates t' := (h.filterMap _).subset hu

theorem space_notMem_update {c : Server Db} (h : Run env params db c) {u : Text × ℤ} (hu : u ∈ updates c.trace) :
    ' ' ∉ u.1 := by
  obtain ⟨⟨i, ⟨op, answer⟩⟩, hmem, hevent⟩ := List.mem_filterMap.mp hu
  cases op with
  | updateCounters path code =>
    obtain rfl := Option.some.inj hevent
    obtain ⟨data, q, es, r, -, -, rfl, -⟩ := update_of_mem_trace h hmem
    exact space_notMem_path data
  | _ => contradiction

theorem natural_update {c : Server Db} (h : Run env params db c) {u : Text × ℤ} (hu : u ∈ updates c.trace) :
    ∃ m : ℕ, u.2 = m := by
  rcases update_cases h hu with ⟨-, hcode⟩ | ⟨-, hsends⟩
  · exact ⟨400, hcode⟩
  · rcases hsends.standard with hcode | hcode | hcode
    · exact ⟨200, hcode⟩
    · exact ⟨400, hcode⟩
    · exact ⟨404, hcode⟩

theorem readable_of_run {c : Server Db} (h : Run env params db c) {t t' : List (ℕ × Event Ret)}
    (ht : t.Sublist c.trace) (ht' : t'.Sublist c.trace) :
    Readable (after env db t).urlCounter.toList (after env db t').codeCounter.toList := by
  constructor
  · rintro ⟨url, count⟩ hu
    obtain ⟨hurl, hcount⟩ := ((exact_after env db t).urls.mem_toList url count).mp hu
    obtain ⟨u, hupdate, rfl⟩ := List.mem_map.mp hurl
    have hspace := space_notMem_update h (updates_mono ht hupdate)
    exact ⟨hspace, _, hcount⟩
  · rintro ⟨code, count⟩ hu
    obtain ⟨hcode, hcount⟩ := ((exact_after env db t').codes.mem_toList code count).mp hu
    obtain ⟨u, hupdate, rfl⟩ := List.mem_map.mp hcode
    have hnatural := natural_update h (updates_mono ht' hupdate)
    exact ⟨hnatural, _, hcount⟩

theorem status_page_recovers {c : Server Db} (h : Run env params db c) {i : ℕ} {data : Text} {r : Reply}
    (hi : c.threads[i]? = some (data, .pure r)) (hvalid : (parseRequestLine data).valid = true)
    (hstatus : selectHandler params (parseRequestLine data).path = .status) :
    ∃ t₀ t₁ t₂ total urls codes, StatusPasses env db c.trace i t₀ t₁ t₂ total urls codes ∧
      readPage r.content = some (total, urls, codes) := by
  obtain ⟨t₀, t₁, t₂, total, urls, codes, hpasses, hcontent⟩ := exists_statusPasses h hi hvalid hstatus
  refine ⟨t₀, t₁, t₂, total, urls, codes, hpasses, ?_⟩
  obtain ⟨t₃, htrace⟩ := hpasses.trace_eq
  have hurls : (t₀ ++ t₁).Sublist c.trace := by
    rw [htrace]
    exact (List.Sublist.refl t₀).append (((List.sublist_append_left _ _).trans (List.sublist_cons_self _ _)))
  have hcodes : (t₀ ++ t₁ ++ t₂).Sublist c.trace := by
    rw [htrace, List.append_assoc]
    refine (List.Sublist.refl t₀).append (.cons _ ((List.Sublist.refl t₁).append (.cons _ ?_)))
    exact List.sublist_append_left _ _
  have hreadable := readable_of_run h hurls hcodes
  rw [← hpasses.urls_eq, ← hpasses.codes_eq] at hreadable
  rw [hcontent, hpasses.total_eq.trans (exact_after env db t₀).sum_urls]
  exact readPage_content _ hreadable params.handlerPaths

theorem status_page_recovers_disturbed :
    ∃ t₀ t₁ t₂, StatusPasses plainEnv () disturbed.trace 2 t₀ t₁ t₂ 1 [([], 1), (oddPath, 1)] [(400, 1), (404, 1)] := by
  obtain ⟨t₀, t₁, t₂, total, urls, codes, hpasses, hread⟩ := status_page_recovers (run_scheduled disturbing) (i := 2)
    rfl (by decide +kernel) rfl
  have hpage := hread.symm.trans (show readPage _ = some (1, [([], 1), (oddPath, 1)], [(400, 1), (404, 1)]) by
    decide +kernel)
  simp only [Option.some.injEq, Prod.mk.injEq] at hpage
  obtain ⟨rfl, rfl, rfl⟩ := hpage
  exact ⟨t₀, t₁, t₂, hpasses⟩

end Session

end Bingit
