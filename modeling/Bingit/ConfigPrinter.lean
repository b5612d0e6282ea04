import Bingit.ConfigGrammar

namespace Bingit

def indent (depth : Int32) : Text := (List.replicate depth.toInt.toNat "  ".toList).flatten

def joinTokens : List Text → Text
  | [] => []
  | [w] => w
  | w :: ws => w ++ " ".toList ++ joinTokens ws

mutual

def NginxConfigStatement.toString : NginxConfigStatement → Int32 → Text
  | .mk tokens none, depth => indent depth ++ joinTokens tokens ++ ";".toList ++ "\n".toList
  | .mk tokens (some child), depth =>
    indent depth ++ joinTokens tokens ++ " \x7b\n".toList ++ NginxConfig.toString child (depth + 1) ++
      indent depth ++ "\x7d".toList ++ "\n".toList

def NginxConfig.toString : List NginxConfigStatement → Int32 → Text
  | [], _ => []
  | statement :: rest, depth => statement.toString depth ++ NginxConfig.toString rest depth

end

namespace ConfigParser

theorem tokens_congr {s s' : Text} (h : parseToken s = parseToken s') : tokens s = tokens s' := by
  rcases hp : parseToken s' with ⟨type, value, rest⟩
  by_cases ht : type = .eof ∨ type = .error
  · rw [tokens_last hp ht, tokens_last (h.trans hp) ht]
  · rw [tokens_more hp ht, tokens_more (h.trans hp) ht]

theorem tokens_ne_nil (s : Text) : tokens s ≠ [] := by
  intro h
  have hc := tokens_complete s
  rw [h] at hc
  cases hc

structure LexesTo (s : Text) (ts : List Terminal) (rest : Text) : Prop where
  terminals_eq : terminals (tokens s) = ts ++ terminals (tokens rest)
  ends_iff : endsInEof (tokens s) ↔ endsInEof (tokens rest)

theorem LexesTo.trans {s r r' : Text} {ts us : List Terminal} (h : LexesTo s ts r) (h' : LexesTo r us r') :
    LexesTo s (ts ++ us) r' :=
  ⟨by rw [h.terminals_eq, h'.terminals_eq, List.append_assoc], h.ends_iff.trans h'.ends_iff⟩

theorem lexesTo_white (ws : Text) (hws : ∀ c ∈ ws, isWhite c = true) (rest : Text) :
    LexesTo (ws ++ rest) [] rest := by
  have h := tokens_congr (white_skip hws rest)
  exact ⟨by rw [h]; rfl, by rw [h]⟩

theorem lexesTo_lexeme {s value rest : Text} {type : TokenType} {x : Terminal}
    (h : Lexeme s type value rest) (hx : terminal (type, value) = some x) : LexesTo s [x] rest := by
  have ht : ¬ (type = .eof ∨ type = .error) := by
    rintro (rfl | rfl) <;> simp [terminal] at hx
  have hs := tokens_more (parseToken_of_lexeme h) ht
  refine ⟨by rw [hs]; exact List.filterMap_cons_some hx, ?_⟩
  rw [hs, endsInEof, endsInEof, List.getLast?_cons_of_ne_nil (tokens_ne_nil rest)]

theorem lexesTo_word {w : Text} (hw : IsBare w ∨ IsQuoted w) {d : Char} (hd : isDelimiter d = true)
    (rest : Text) : LexesTo (w ++ d :: rest) [.word w] (d :: rest) := by
  rcases hw with hw | hw
  · exact lexesTo_lexeme (.bare rest hw hd) rfl
  · exact lexesTo_lexeme (.quoted (d :: rest) hw) rfl

theorem lexesTo_joinTokens {ws : List Text} (hne : ws ≠ []) (hws : ∀ w ∈ ws, IsBare w ∨ IsQuoted w)
    {d : Char} (hd : isDelimiter d = true) (rest : Text) :
    LexesTo (joinTokens ws ++ d :: rest) (ws.map .word) (d :: rest) := by
  induction ws with
  | nil => exact absurd rfl hne
  | cons w ws ih =>
    have hw := hws w (by simp)
    cases ws with
    | nil => exact lexesTo_word hw hd rest
    | cons w' ws =>
      have hfirst := lexesTo_word hw (d := ' ') rfl (joinTokens (w' :: ws) ++ d :: rest)
      have hgap := lexesTo_white [' '] (by simp [isWhite]) (joinTokens (w' :: ws) ++ d :: rest)
      have hrest := ih (by simp) (fun v hv => hws v (by simp [hv]))
      simpa [joinTokens] using (hfirst.trans hgap).trans hrest

theorem isWhite_of_mem_indent {depth : Int32} {c : Char} (h : c ∈ indent depth) : isWhite c = true := by
  obtain ⟨part, hpart, hc⟩ := List.mem_flatten.mp h
  obtain rfl := List.eq_of_mem_replicate hpart
  have hc' : c = ' ' := by simpa using hc
  rw [hc']
  rfl

theorem lexesTo_toString {config : NginxConfig} {ts : List Terminal} (h : Derives config ts)
    (hws : ∀ w, .word w ∈ ts → IsBare w ∨ IsQuoted w) (depth : Int32) (rest : Text) :
    LexesTo (NginxConfig.toString config depth ++ rest) ts rest := by
  induction h generalizing depth rest with
  | nil => exact ⟨rfl, Iff.rfl⟩
  | @simple ws config ts hw hrest ih =>
    have hindent := lexesTo_white (indent depth) (fun _ => isWhite_of_mem_indent)
    have hwords := lexesTo_joinTokens hw (fun w h => hws w (by simp [h])) (d := ';') rfl
    have hend (s : Text) := lexesTo_lexeme (.statementEnd s) rfl
    have hline := lexesTo_white ['\n'] (by simp [isWhite])
    have hconfig := ih (fun w h => hws w (by simp [h])) depth rest
    have hall := (((hindent _).trans (hwords _)).trans ((hend _).trans (hline _))).trans hconfig
    simpa [NginxConfig.toString, NginxConfigStatement.toString] using hall
  | @block ws child config us ts hw hb hchild hrest ihc ih =>
    have hindent := lexesTo_white (indent depth) (fun _ => isWhite_of_mem_indent)
    have hwords := lexesTo_joinTokens hw (fun w h => hws w (by simp [h])) (d := ' ') rfl
    have hgap := lexesTo_white [' '] (by simp [isWhite])
    have hopen (s : Text) := lexesTo_lexeme (.startBlock s) rfl
    have hline := lexesTo_white ['\n'] (by simp [isWhite])
    have hblock := ihc (fun w h => hws w (by simp [h])) (depth + 1)
    have hclose (s : Text) := lexesTo_lexeme (.endBlock s) rfl
    have hconfig := ih (fun w h => hws w (by simp [h])) depth rest
    have hhead (s : Text) := (((hindent _).trans (hwords _)).trans ((hgap _).trans (hopen _))).trans
      ((hline _).trans (hblock s))
    have htail := (((hindent _).trans (hclose _)).trans (hline _)).trans hconfig
    simpa [NginxConfig.toString, NginxConfigStatement.toString] using (hhead _).trans htail

theorem tokens_normal_text (input : Text) {w : Text} (h : (.normal, w) ∈ tokens input) :
    IsBare w ∨ IsQuoted w := by
  induction input using tokens_induction with
  | last input type value rest hp ht =>
    rw [tokens_last hp ht, List.mem_singleton] at h
    obtain ⟨rfl, rfl⟩ := Prod.mk.inj h
    simp at ht
  | more input type value rest hp ht ih =>
    rw [tokens_more hp ht, List.mem_cons] at h
    rcases h with h | h
    · obtain ⟨rfl, rfl⟩ := Prod.mk.inj h
      exact parseToken_normal_text hp
    · exact ih h

theorem word_mem_terminals {ts : List Token} {w : Text} (h : .word w ∈ terminals ts) : (.normal, w) ∈ ts := by
  obtain ⟨⟨type, v⟩, ht, hx⟩ := List.mem_filterMap.mp h
  cases type <;> simp only [terminal, reduceCtorEq, Option.some.injEq, Terminal.word.injEq] at hx
  exact hx ▸ ht

theorem parse_toString {input : Text} {config : NginxConfig} (h : parse input = some (true, config))
    (depth : Int32) : parse (NginxConfig.toString config depth) = some (true, config) := by
  obtain ⟨-, hderives⟩ := (parse_true_iff input config).mp h
  have hwords (w : Text) (hw : .word w ∈ terminals (tokens input)) : IsBare w ∨ IsQuoted w :=
    tokens_normal_text input (word_mem_terminals hw)
  have hlex := lexesTo_toString hderives hwords depth []
  rw [List.append_nil] at hlex
  have hnil : tokens [] = [(.eof, [])] := rfl
  have hterminals : terminals (tokens (NginxConfig.toString config depth)) = terminals (tokens input) := by
    rw [hlex.terminals_eq, hnil]
    exact List.append_nil _
  refine (parse_true_iff _ config).mpr ⟨?_, by rw [hterminals]; exact hderives⟩
  rw [hlex.ends_iff, hnil]
  rfl

theorem parse_toString_nested : parse "a 'b;' # c\n\x7b d\r; \x7d".toList =
      some (true, [.mk ["a".toList, "'b;'".toList] (some [.mk ["d\r".toList] none])]) ∧
    parse (NginxConfig.toString [.mk ["a".toList, "'b;'".toList] (some [.mk ["d\r".toList] none])] 3) =
      some (true, [.mk ["a".toList, "'b;'".toList] (some [.mk ["d\r".toList] none])]) :=
  ⟨rfl, @parse_toString "a 'b;' # c\n\x7b d\r; \x7d".toList _ rfl 3⟩

end ConfigParser

end Bingit
