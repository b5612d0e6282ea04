import Bingit.ConfigParser

namespace Bingit.ConfigParser

inductive Terminal where
  | word (w : Text) | semicolon | openBrace | closeBrace

def terminal : Token → Option Terminal
  | (.normal, w) => some (.word w)
  | (.statementEnd, _) => some .semicolon
  | (.startBlock, _) => some .openBrace
  | (.endBlock, _) => some .closeBrace
  | _ => none

def terminals (ts : List Token) : List Terminal := ts.filterMap terminal

theorem comment_of_terminal {type : TokenType} {value : Text} (hx : terminal (type, value) = none)
    (ht : ¬ (type = .eof ∨ type = .error)) (hs : type ≠ .start) : type = .comment := by
  cases type with
  | start => exact absurd rfl hs
  | comment => rfl
  | eof => exact absurd (.inl rfl) ht
  | error => exact absurd (.inr rfl) ht
  | normal | startBlock | endBlock | statementEnd => simp [terminal] at hx

/-- `config ::= stmt*`, `stmt ::= NORMAL+ ';' | NORMAL+ '{' stmt+ '}'`, with the trees. -/
inductive Derives : NginxConfig → List Terminal → Prop
  | nil : Derives [] []
  | simple {ws : List Text} {rest : NginxConfig} {ts : List Terminal} (hw : ws ≠ [])
      (hrest : Derives rest ts) : Derives (.mk ws none :: rest) (ws.map .word ++ .semicolon :: ts)
  | block {ws : List Text} {b rest : NginxConfig} {us ts : List Terminal} (hw : ws ≠ []) (hb : b ≠ [])
      (hblock : Derives b us) (hrest : Derives rest ts) :
      Derives (.mk ws (some b) :: rest)
        (ws.map .word ++ .openBrace :: (us ++ .closeBrace :: ts))

theorem Derives.append {c d : NginxConfig} {ts us : List Terminal} (hc : Derives c ts) (hd : Derives d us) :
    Derives (c ++ d) (ts ++ us) := by
  induction hc with
  | nil => exact hd
  | simple hw hrest ih => simpa using Derives.simple hw ih
  | block hw hb hblock hrest _ ih => simpa using Derives.block hw hb hblock ih

/-- The open blocks, innermost first, then what is finished. -/
structure Zipper where
  frames : List (NginxConfig × List Text)
  done : NginxConfig
  current : List Text
  last : TokenType

namespace Zipper

def initial : Zipper := ⟨[], [], [], .start⟩

def block (z : Zipper) : NginxConfig :=
  if z.current = [] then z.done else z.done ++ [.mk z.current none]

def plug : List (NginxConfig × List Text) → NginxConfig → NginxConfig
  | [], b => b
  | (before, ws) :: frames, b => plug frames (before ++ [.mk ws (some b)])

def pointer : List (NginxConfig × List Text) → BlockPtr
  | [] => []
  | (before, _) :: frames => pointer frames ++ [before.length]

def step (z : Zipper) : Terminal → Option Zipper
  | .word w => some { z with current := z.current ++ [w], last := .normal }
  | .semicolon =>
    if z.current = [] then none
    else some { z with done := z.done ++ [.mk z.current none], current := [], last := .statementEnd }
  | .openBrace =>
    if z.current = [] then none else some ⟨(z.done, z.current) :: z.frames, [], [], .startBlock⟩
  | .closeBrace =>
    if z.last ≠ .statementEnd ∧ z.last ≠ .endBlock then none
    else match z.frames with
      | [] => none
      | (before, ws) :: frames => some ⟨frames, before ++ [.mk ws (some z.done)], [], .endBlock⟩

def Finished (z : Zipper) : Prop :=
  z.frames = [] ∧ (z.last = .statementEnd ∨ z.last = .endBlock ∨ z.last = .start)

end Zipper

open Zipper

theorem modifyBack_append (f : NginxConfigStatement → NginxConfigStatement) (c : NginxConfig)
    (s : NginxConfigStatement) : modifyBack f (c ++ [s]) = some (c ++ [f s]) := by
  simp [modifyBack]

theorem modifyBlock_append (f : NginxConfig → Option NginxConfig) (p q : BlockPtr) (c : NginxConfig) :
    modifyBlock f (p ++ q) c = modifyBlock (modifyBlock f q) p c := by
  induction p generalizing c with
  | nil => rfl
  | cons i p ih => simp only [List.cons_append, modifyBlock, ih]

theorem blockAt_append (p q : BlockPtr) (c : NginxConfig) :
    blockAt (p ++ q) c = (blockAt p c).bind (blockAt q) := by
  induction p generalizing c with
  | nil => rfl
  | cons i p ih => simp [blockAt, ih, Option.bind_assoc]

theorem modifyBlock_plug (f : NginxConfig → Option NginxConfig) (frames : List (NginxConfig × List Text))
    (b : NginxConfig) : modifyBlock f (pointer frames) (plug frames b) = (f b).map (plug frames) := by
  induction frames generalizing f b with
  | nil => simp [pointer, plug, modifyBlock]
  | cons frame frames ih =>
    obtain ⟨before, ws⟩ := frame
    rw [pointer, plug, modifyBlock_append, ih]
    cases hf : f b with
    | none => simp [modifyBlock, hf, NginxConfigStatement.childBlock]
    | some b' => simp [modifyBlock, hf, NginxConfigStatement.childBlock, NginxConfigStatement.tokens, plug]

theorem blockAt_plug (frames : List (NginxConfig × List Text)) (b : NginxConfig) :
    blockAt (pointer frames) (plug frames b) = some b := by
  induction frames generalizing b with
  | nil => rfl
  | cons frame frames ih =>
    obtain ⟨before, ws⟩ := frame
    rw [pointer, plug, blockAt_append, ih]
    simp [blockAt, NginxConfigStatement.childBlock]

structure Represents (z : Zipper) (st : ParseState) : Prop where
  config : st.config = plug z.frames z.block
  stack : st.configStack = z.frames.tails.map pointer
  last : st.lastTokenType = z.last
  blocks : st.numStartBlock = st.numEndBlock + z.frames.length
  normal : z.last = .normal ↔ z.current ≠ []
  expected : z.last = .start ∨ z.last = .statementEnd ∨ z.last = .startBlock ∨ z.last = .endBlock ∨
    z.last = .normal

theorem represents_initial : Represents .initial .initial := by
  constructor <;> simp [Zipper.initial, ParseState.initial, plug, pointer, Zipper.block]

theorem Represents.top {z : Zipper} {st : ParseState} (h : Represents z st) :
    st.configStack.head? = some (pointer z.frames) := by
  rw [h.stack]
  cases z.frames <;> rfl

theorem simulate_word {z : Zipper} {st : ParseState} (h : Represents z st) (w : Text) :
    ∃ st', parseStep st (.normal, w) = .next st' ∧
      Represents { z with current := z.current ++ [w], last := .normal } st' := by
  have hbegin : beginStatement st (pointer z.frames) =
      some (plug z.frames (z.done ++ [.mk z.current none])) := by
    rw [beginStatement, h.last, h.config]
    by_cases hn : z.last = .normal
    · simp [hn, Zipper.block, h.normal.mp hn]
    · have hc : z.current = [] := by simpa using fun hc => hn (h.normal.mpr hc)
      simp [hn, modifyBlock_plug, Zipper.block, hc]
  have hpush : pushToken st w = some { st with
      config := plug z.frames (z.done ++ [.mk (z.current ++ [w]) none]), lastTokenType := .normal } := by
    simp only [pushToken, h.top, Option.bind_eq_bind, Option.bind_some, hbegin, modifyBlock_plug,
      modifyBack_append, Option.map_some]
    rfl
  have hlast := h.expected
  rw [← h.last] at hlast
  refine ⟨_, by rw [parseStep, if_pos hlast, hpush]; rfl, ?_⟩
  exact ⟨by simp [Zipper.block], h.stack, rfl, h.blocks, by simp, by simp⟩

theorem simulate_semicolon {z : Zipper} {st : ParseState} (h : Represents z st) (v : Text)
    (hc : z.current ≠ []) : ∃ st', parseStep st (.statementEnd, v) = .next st' ∧
      Represents { z with done := z.done ++ [.mk z.current none], current := [], last := .statementEnd } st' := by
  have hn : st.lastTokenType = .normal := by rw [h.last]; exact h.normal.mpr hc
  refine ⟨_, by rw [parseStep, if_neg (by simp [hn])], ?_⟩
  exact ⟨by simp [h.config, Zipper.block, hc], h.stack, rfl, h.blocks, by simp, by simp⟩

theorem simulate_openBrace {z : Zipper} {st : ParseState} (h : Represents z st) (v : Text)
    (hc : z.current ≠ []) : ∃ st', parseStep st (.startBlock, v) = .next st' ∧
      Represents ⟨(z.done, z.current) :: z.frames, [], [], .startBlock⟩ st' := by
  have hn : st.lastTokenType = .normal := by rw [h.last]; exact h.normal.mpr hc
  have hb : z.block = z.done ++ [.mk z.current none] := by simp [Zipper.block, hc]
  have hpush : pushBlock st = some { st with
      config := plug z.frames (z.done ++ [.mk z.current (some [])])
      configStack := (pointer z.frames ++ [z.done.length]) :: st.configStack
      lastTokenType := .startBlock
      numStartBlock := st.numStartBlock + 1 } := by
    simp only [pushBlock, h.top, Option.bind_eq_bind, Option.bind_some, h.config, blockAt_plug,
      modifyBlock_plug, hb, modifyBack_append, Option.map_some, List.length_append, List.length_singleton,
      Nat.add_sub_cancel]
    rfl
  refine ⟨_, by rw [parseStep, if_neg (by simp [hn]), hpush]; rfl, ?_⟩
  refine ⟨rfl, ?_, rfl, ?_, by simp, by simp⟩
  · simp [h.stack, pointer]
  · have := h.blocks
    simp only [List.length_cons]
    omega

theorem simulate_closeBrace {z : Zipper} {st : ParseState} (h : Represents z st) (v : Text)
    (hl : z.last = .statementEnd ∨ z.last = .endBlock) {before : NginxConfig} {ws : List Text}
    {frames : List (NginxConfig × List Text)} (hf : z.frames = (before, ws) :: frames) :
    ∃ st', parseStep st (.endBlock, v) = .next st' ∧
      Represents ⟨frames, before ++ [.mk ws (some z.done)], [], .endBlock⟩ st' := by
  have hblocks := h.blocks
  rw [hf, List.length_cons] at hblocks
  have hc : z.current = [] := by
    by_contra hc
    rcases hl with hl | hl <;> simp [h.normal.mpr hc] at hl
  have hpop : popBlock st = some { st with
      configStack := frames.tails.map pointer
      lastTokenType := .endBlock
      numEndBlock := st.numEndBlock + 1 } := by
    simp [popBlock, h.stack, hf]
  refine ⟨_, by rw [parseStep, h.last, if_neg (by tauto), if_neg (by omega), hpop]; rfl, ?_⟩
  refine ⟨?_, rfl, rfl, ?_, by simp, by simp⟩
  · simp [h.config, hf, plug, Zipper.block, hc]
  · change st.numStartBlock = st.numEndBlock + 1 + (frames.length : ℤ)
    omega

theorem simulate {z : Zipper} {st : ParseState} (h : Represents z st) {t : Token} {x : Terminal}
    (ht : terminal t = some x) :
    (z.step x = none ∧ parseStep st t = .finish false st.config) ∨
      ∃ z' st', z.step x = some z' ∧ parseStep st t = .next st' ∧ Represents z' st' := by
  obtain ⟨type, v⟩ := t
  cases type <;> simp only [terminal, Option.some.injEq, reduceCtorEq] at ht <;> subst ht
  case normal =>
    obtain ⟨st', hs, hr⟩ := simulate_word h v
    exact .inr ⟨_, st', rfl, hs, hr⟩
  case startBlock =>
    by_cases hc : z.current = []
    · have hn : z.last ≠ .normal := fun hn => h.normal.mp hn hc
      exact .inl ⟨by simp [step, hc], by simp [parseStep, h.last, hn]⟩
    · obtain ⟨st', hs, hr⟩ := simulate_openBrace h v hc
      exact .inr ⟨_, st', by simp [step, hc], hs, hr⟩
  case endBlock =>
    by_cases hl : z.last = .statementEnd ∨ z.last = .endBlock
    · cases hf : z.frames with
      | nil =>
        have hblocks : st.numStartBlock = st.numEndBlock := by simpa [hf] using h.blocks
        exact .inl ⟨by simp [step, hf], by simp [parseStep, hblocks]⟩
      | cons frame frames =>
        obtain ⟨st', hs, hr⟩ := simulate_closeBrace h v hl hf
        exact .inr ⟨_, st', by rw [step, if_neg (by tauto), hf], hs, hr⟩
    · have hl' : z.last ≠ .statementEnd ∧ z.last ≠ .endBlock := by tauto
      exact .inl ⟨by simp [step, hl'], by simp [parseStep, h.last, hl']⟩
  case statementEnd =>
    by_cases hc : z.current = []
    · have hn : z.last ≠ .normal := fun hn => h.normal.mp hn hc
      exact .inl ⟨by simp [step, hc], by simp [parseStep, h.last, hn]⟩
    · obtain ⟨st', hs, hr⟩ := simulate_semicolon h v hc
      exact .inr ⟨_, st', by simp [step, hc], hs, hr⟩

inductive FramesRead : List (NginxConfig × List Text) → List Terminal → Prop
  | nil : FramesRead [] []
  | cons {frames : List (NginxConfig × List Text)} {before : NginxConfig} {ws : List Text}
      {ts us : List Terminal} (hf : FramesRead frames ts) (hb : Derives before us) (hw : ws ≠ []) :
      FramesRead ((before, ws) :: frames) (ts ++ us ++ ws.map .word ++ [.openBrace])

structure Reads (z : Zipper) (ts : List Terminal) : Prop where
  read : ∃ us vs, FramesRead z.frames us ∧ Derives z.done vs ∧ ts = us ++ vs ++ z.current.map .word
  closed : z.last = .statementEnd ∨ z.last = .endBlock → z.done ≠ [] ∧ z.current = []

theorem reads_initial : Reads .initial [] :=
  ⟨⟨[], [], .nil, .nil, rfl⟩, by simp [Zipper.initial]⟩

theorem Reads.step {z z' : Zipper} {ts : List Terminal} {x : Terminal} (h : Reads z ts)
    (hs : z.step x = some z') : Reads z' (ts ++ [x]) := by
  obtain ⟨⟨us, vs, hf, hd, rfl⟩, hclosed⟩ := h
  cases x with
  | word w =>
    obtain rfl := Option.some.inj hs
    exact ⟨⟨us, vs, hf, hd, by simp⟩, by simp⟩
  | semicolon =>
    simp only [Zipper.step] at hs
    split at hs
    · contradiction
    · rename_i hc
      obtain rfl := Option.some.inj hs
      refine ⟨⟨us, vs ++ (z.current.map .word ++ [.semicolon]), hf, hd.append (.simple hc .nil), by simp⟩, by simp⟩
  | openBrace =>
    simp only [Zipper.step] at hs
    split at hs
    · contradiction
    · rename_i hc
      obtain rfl := Option.some.inj hs
      exact ⟨⟨_, [], .cons hf hd hc, .nil, by simp⟩, by simp⟩
  | closeBrace =>
    simp only [Zipper.step] at hs
    split at hs
    · contradiction
    · rename_i hl
      obtain ⟨hdone, hcurrent⟩ := hclosed (by tauto)
      cases hframes : z.frames with
      | nil => simp [hframes] at hs
      | cons frame frames =>
        rw [hframes] at hs hf
        obtain rfl := Option.some.inj hs
        cases hf with
        | cons hf hb hw =>
          refine ⟨⟨_, _, hf, hb.append (.block hw hdone hd .nil), by simp [hcurrent]⟩, by simp⟩

theorem Reads.run {z z' : Zipper} {ts us : List Terminal} (h : Reads z ts)
    (hr : us.foldlM Zipper.step z = some z') : Reads z' (ts ++ us) := by
  induction us generalizing z ts with
  | nil =>
    obtain rfl := Option.some.inj hr
    simpa using h
  | cons x us ih =>
    rw [List.foldlM_cons] at hr
    obtain ⟨z₁, hs, hr⟩ := Option.bind_eq_some_iff.mp hr
    simpa using ih (h.step hs) hr

theorem Reads.derives {z : Zipper} {ts : List Terminal} (h : Reads z ts) (hfin : z.Finished)
    (hc : z.current = []) : Derives z.done ts := by
  obtain ⟨⟨us, vs, hf, hd, rfl⟩, -⟩ := h
  rw [hfin.1] at hf
  cases hf
  simpa [hc] using hd

theorem run_words (z : Zipper) {ws : List Text} (hw : ws ≠ []) :
    (ws.map Terminal.word).foldlM Zipper.step z =
      some { z with current := z.current ++ ws, last := .normal } := by
  induction ws generalizing z with
  | nil => exact absurd rfl hw
  | cons w ws ih =>
    rw [List.map_cons, List.foldlM_cons]
    change (ws.map Terminal.word).foldlM Zipper.step
      { z with current := z.current ++ [w], last := .normal } = _
    by_cases hws : ws = []
    · simp [hws]
    · rw [ih _ hws]
      simp

theorem Derives.run {c : NginxConfig} {ts : List Terminal} (h : Derives c ts) (z : Zipper)
    (hz : z.current = []) :
    ∃ last, ts.foldlM Zipper.step z = some { z with done := z.done ++ c, last := last } ∧
      (c = [] → last = z.last) ∧ (c ≠ [] → last = .statementEnd ∨ last = .endBlock) := by
  induction h generalizing z with
  | nil =>
    refine ⟨z.last, ?_, fun _ => rfl, fun h => absurd rfl h⟩
    simp only [List.append_nil]
    rfl
  | @simple ws rest ts hw hrest ih =>
    obtain ⟨last, hr, hnil, hcons⟩ :=
      ih { z with done := z.done ++ [.mk ws none], current := [], last := .statementEnd } rfl
    refine ⟨last, ?_, by simp, fun _ => ?_⟩
    · rw [List.foldlM_append, run_words z hw, Option.bind_eq_bind, Option.bind_some, List.foldlM_cons, hz]
      simp only [Zipper.step, List.nil_append, if_neg hw, Option.bind_eq_bind, Option.bind_some, hr]
      simp
    · by_cases he : rest = []
      · exact .inl (hnil he)
      · exact hcons he
  | @block ws b rest us ts hw hb hblock hrest ihb ih =>
    obtain ⟨lastb, hrb, -, hlastb⟩ := ihb ⟨(z.done, ws) :: z.frames, [], [], .startBlock⟩ rfl
    obtain ⟨last, hr, hnil, hcons⟩ :=
      ih ⟨z.frames, z.done ++ [.mk ws (some b)], [], .endBlock⟩ rfl
    refine ⟨last, ?_, by simp, fun _ => ?_⟩
    · have hclose : ¬ (lastb ≠ .statementEnd ∧ lastb ≠ .endBlock) := by have := hlastb hb; tauto
      rw [List.foldlM_append, run_words z hw, Option.bind_eq_bind, Option.bind_some, List.foldlM_cons, hz]
      simp only [Zipper.step, List.nil_append, if_neg hw, Option.bind_eq_bind, Option.bind_some]
      rw [List.foldlM_append, hrb, Option.bind_eq_bind, Option.bind_some, List.foldlM_cons]
      simp only [Zipper.step, if_neg hclose, Option.bind_eq_bind, Option.bind_some, List.nil_append, hr]
      simp
    · by_cases he : rest = []
      · exact .inr (hnil he)
      · exact hcons he

inductive Complete : List Token → Prop
  | last {type : TokenType} (value : Text) (ht : type = .eof ∨ type = .error) : Complete [(type, value)]
  | more {type : TokenType} {ts : List Token} (value : Text) (ht : ¬ (type = .eof ∨ type = .error))
      (hs : type ≠ .start) (hts : Complete ts) : Complete ((type, value) :: ts)

theorem tokens_complete (input : Text) : Complete (tokens input) := by
  induction input using tokens_induction with
  | last input type value rest hp ht =>
    rw [tokens_last hp ht]
    exact .last value ht
  | more input type value rest hp ht ih =>
    rw [tokens_more hp ht]
    exact .more value ht (parseToken_ne_start hp) ih

def endsInEof (ts : List Token) : Prop := ts.getLast?.map Prod.fst = some .eof

theorem runTokens_eof {z : Zipper} {st : ParseState} (h : Represents z st) (value : Text) :
    ∃ result, runTokens st [(.eof, value)] = some (result, st.config) ∧ (result = true ↔ z.Finished) := by
  have hblocks := h.blocks
  have hlen : st.numStartBlock = st.numEndBlock ↔ z.frames = [] := by
    rw [← List.length_eq_zero_iff]
    omega
  by_cases hl : z.last = .statementEnd ∨ z.last = .endBlock ∨ z.last = .start
  · by_cases hf : z.frames = []
    · refine ⟨true, ?_, by simp [Finished, hf, hl]⟩
      rw [runTokens, parseStep, h.last, if_neg (by tauto), if_neg (by simpa using hlen.mpr hf)]
    · refine ⟨false, ?_, by simp [Finished, hf]⟩
      rw [runTokens, parseStep, h.last, if_neg (by tauto), if_pos (fun he => hf (hlen.mp he))]
  · refine ⟨false, ?_, by simp [Finished, hl]⟩
    rw [runTokens, parseStep, h.last, if_pos (by tauto)]

theorem Represents.current_of_finished {z : Zipper} {st : ParseState} (h : Represents z st)
    (hfin : z.Finished) : z.current = [] := by
  by_contra hc
  have hn := h.normal.mpr hc
  rcases hfin.2 with hl | hl | hl <;> simp [hn] at hl

theorem runTokens_iff {ts : List Token} (hts : Complete ts) {z : Zipper} {st : ParseState}
    (h : Represents z st) :
    (∃ result config, runTokens st ts = some (result, config)) ∧
      ∀ config, runTokens st ts = some (true, config) ↔ endsInEof ts ∧
        ∃ z', (terminals ts).foldlM Zipper.step z = some z' ∧ z'.Finished ∧ z'.current = [] ∧
          z'.done = config := by
  induction hts generalizing z st with
  | @last type value ht =>
    rcases ht with rfl | rfl
    · obtain ⟨result, hr, hiff⟩ := runTokens_eof h value
      refine ⟨⟨result, _, hr⟩, fun config => ?_⟩
      rw [hr]
      constructor
      · intro he
        obtain ⟨rfl, rfl⟩ := Prod.mk.inj (Option.some.inj he)
        have hfin := hiff.mp rfl
        have hc := h.current_of_finished hfin
        refine ⟨rfl, z, rfl, hfin, hc, ?_⟩
        rw [h.config, hfin.1]
        simp [plug, Zipper.block, hc]
      · rintro ⟨-, z', hz, hfin, hc, rfl⟩
        obtain rfl := Option.some.inj hz
        rw [hiff.mpr hfin, h.config, hfin.1]
        simp [plug, Zipper.block, hc]
    · refine ⟨⟨false, st.config, rfl⟩, fun config => ?_⟩
      simp [runTokens, parseStep, endsInEof]
  | @more type ts value ht hs hts ih =>
    have hlast : endsInEof ((type, value) :: ts) ↔ endsInEof ts := by
      cases hts <;> simp [endsInEof]
    cases hx : terminal (type, value) with
    | none =>
      obtain rfl := comment_of_terminal hx ht hs
      have hstep : runTokens st ((.comment, value) :: ts) = runTokens st ts := rfl
      rw [hstep, hlast]
      exact ih h
    | some x =>
      have hcons : terminals ((type, value) :: ts) = x :: terminals ts := List.filterMap_cons_some hx
      rw [hlast, hcons, List.foldlM_cons]
      rcases simulate h hx with ⟨hz, hp⟩ | ⟨z', st', hz, hp, hr⟩
      · refine ⟨⟨false, st.config, by simp [runTokens, hp]⟩, fun config => ?_⟩
        simp [runTokens, hp, hz]
      · simp only [runTokens, hp, hz, Option.bind_eq_bind, Option.bind_some]
        exact ih hr

theorem parse_total (input : Text) : ∃ result config, parse input = some (result, config) := by
  rw [parse_eq_runTokens]
  exact (runTokens_iff (tokens_complete input) represents_initial).1

theorem parse_true_iff (input : Text) (config : NginxConfig) :
    parse input = some (true, config) ↔ endsInEof (tokens input) ∧ Derives config (terminals (tokens input)) := by
  rw [parse_eq_runTokens, (runTokens_iff (tokens_complete input) represents_initial).2 config]
  apply and_congr_right
  intro _
  constructor
  · rintro ⟨z, hz, hfin, hc, rfl⟩
    exact (reads_initial.run hz).derives hfin hc
  · intro hd
    obtain ⟨last, hr, hnil, hcons⟩ := hd.run .initial rfl
    refine ⟨_, hr, ⟨rfl, ?_⟩, rfl, rfl⟩
    by_cases hc : config = []
    · exact .inr (.inr (hnil hc))
    · rcases hcons hc with hl | hl
      · exact .inl hl
      · exact .inr (.inl hl)

theorem parse_accepts_grammar (input : Text) :
    (∃ result config, parse input = some (result, config)) ∧
      ∀ config, parse input = some (true, config) ↔
        endsInEof (tokens input) ∧ Derives config (terminals (tokens input)) := by
  refine ⟨parse_total input, ?_⟩
  intro config
  exact parse_true_iff input config

end Bingit.ConfigParser
