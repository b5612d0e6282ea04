import Bingit.ConfigGrammar

namespace Bingit.ConfigParser

open Zipper

def ParseState.into (config : NginxConfig) : ParseState := { ParseState.initial with config := config }

def parseInto (config : NginxConfig) (input : Text) : Option (Bool × NginxConfig) :=
  parseLoop (input.length + 1) (.into config) input

theorem parse_eq_parseInto (input : Text) : parse input = parseInto [] input := rfl

inductive Visits (config : NginxConfig) (input : Text) : ParseState → Text → Prop
  | start : Visits config input (.into config) input
  | round {st st' : ParseState} {rest rest' : Text} {type : TokenType} {value : Text}
      (hvisits : Visits config input st rest) (htoken : parseToken rest = (type, value, rest'))
      (hstep : parseStep st (type, value) = .next st') : Visits config input st' rest'

def StatementOpen (st : ParseState) : Prop :=
  ∃ top below block statement, st.configStack = top :: below ∧
    blockAt top st.config = some (block ++ [statement]) ∧ statement.tokens ≠ [] ∧ statement.childBlock = none

structure Safe (st : ParseState) : Prop where
  depth : (st.configStack.length : ℤ) = 1 + st.numStartBlock - st.numEndBlock
  nonempty : 1 ≤ st.configStack.length
  live : ∀ ptr ∈ st.configStack, ∃ block, blockAt ptr st.config = some block
  statementOpen : st.lastTokenType = .normal → StatementOpen st

theorem plug_append (inner outer : List (NginxConfig × List Text)) (b : NginxConfig) :
    plug (inner ++ outer) b = plug outer (plug inner b) := by
  induction inner generalizing b with
  | nil => rfl
  | cons frame inner ih =>
    obtain ⟨before, ws⟩ := frame
    exact ih _

theorem blockAt_outer {frames outer : List (NginxConfig × List Text)} (h : outer <:+ frames) (b : NginxConfig) :
    ∃ block, blockAt (pointer outer) (plug frames b) = some block := by
  obtain ⟨inner, rfl⟩ := h
  rw [plug_append]
  exact ⟨_, blockAt_plug _ _⟩

theorem Represents.statementOpen {z : Zipper} {st : ParseState} (h : Represents z st)
    (hn : st.lastTokenType = .normal) : StatementOpen st := by
  have hc : z.current ≠ [] := h.normal.mp (h.last.symm.trans hn)
  obtain ⟨below, hstack⟩ : ∃ below, st.configStack = pointer z.frames :: below :=
    List.head?_eq_some_iff.mp h.top
  refine ⟨pointer z.frames, below, z.done, .mk z.current none, hstack, ?_, hc, rfl⟩
  rw [h.config, blockAt_plug, Zipper.block, if_neg hc]

theorem Represents.safe {z : Zipper} {st : ParseState} (h : Represents z st) : Safe st := by
  have hlength : st.configStack.length = z.frames.length + 1 := by simp [h.stack]
  have hblocks := h.blocks
  refine ⟨by omega, by omega, ?_, h.statementOpen⟩
  intro ptr hptr
  rw [h.stack, List.mem_map] at hptr
  obtain ⟨outer, houter, rfl⟩ := hptr
  rw [h.config]
  exact blockAt_outer ((List.mem_tails outer z.frames).mp houter) _

theorem represents_into (config : NginxConfig) :
    Represents ⟨[], config, [], .start⟩ (.into config) := by
  constructor <;> simp [ParseState.into, ParseState.initial, plug, pointer, Zipper.block]

theorem Represents.step_cases {z : Zipper} {st : ParseState} (h : Represents z st) {rest rest' : Text}
    {type : TokenType} {value : Text} (htoken : parseToken rest = (type, value, rest')) :
    (∃ result, parseStep st (type, value) = .finish result st.config) ∨
      ∃ z' st', parseStep st (type, value) = .next st' ∧ Represents z' st' := by
  by_cases hlast : type = .eof ∨ type = .error
  · exact .inl (parseStep_last st value hlast)
  · cases hx : terminal (type, value) with
    | none =>
      obtain rfl := comment_of_terminal hx hlast (parseToken_ne_start htoken)
      exact .inr ⟨z, st, rfl, h⟩
    | some x =>
      rcases simulate h hx with ⟨-, hfinish⟩ | ⟨z', st', -, hnext, h'⟩
      · exact .inl ⟨false, hfinish⟩
      · exact .inr ⟨z', st', hnext, h'⟩

theorem Visits.represents {config : NginxConfig} {input : Text} {st : ParseState} {rest : Text}
    (h : Visits config input st rest) : ∃ z, Represents z st := by
  induction h with
  | start => exact ⟨_, represents_into config⟩
  | round hvisits htoken hstep ih =>
    obtain ⟨z, hz⟩ := ih
    rcases hz.step_cases htoken with ⟨result, hfinish⟩ | ⟨z', st', hnext, h'⟩
    · rw [hfinish] at hstep
      contradiction
    · obtain rfl := Outcome.next.inj (hnext.symm.trans hstep)
      exact ⟨z', h'⟩

theorem Represents.not_undefined {z : Zipper} {st : ParseState} (h : Represents z st) {rest rest' : Text}
    {type : TokenType} {value : Text} (htoken : parseToken rest = (type, value, rest')) :
    parseStep st (type, value) ≠ .undefined := by
  rcases h.step_cases htoken with ⟨result, hfinish⟩ | ⟨z', st', hnext, -⟩
  · simp [hfinish]
  · simp [hnext]

theorem normal_of_startBlock {st st' : ParseState} {value : Text}
    (hstep : parseStep st (.startBlock, value) = .next st') : st.lastTokenType = .normal := by
  by_contra hn
  rw [parseStep, if_pos hn] at hstep
  contradiction

theorem rest_lt_of_next {st st' : ParseState} {rest rest' : Text} {type : TokenType} {value : Text}
    (htoken : parseToken rest = (type, value, rest')) (hstep : parseStep st (type, value) = .next st') :
    rest'.length < rest.length := by
  have hmore : ¬ (type = .eof ∨ type = .error) := by
    intro hlast
    obtain ⟨result, hfinish⟩ := parseStep_last st value hlast
    rw [hfinish] at hstep
    contradiction
  exact parseToken_rest_lt htoken hmore

theorem Visits.parseInto_eq {config : NginxConfig} {input : Text} {st : ParseState} {rest : Text}
    (h : Visits config input st rest) : parseInto config input = parseLoop (rest.length + 1) st rest := by
  induction h with
  | start => rfl
  | @round st st' rest rest' type value hvisits htoken hstep ih =>
    have hround : parseLoop (rest.length + 1) st rest = parseLoop rest.length st' rest' := by
      simp only [parseLoop, htoken, hstep]
    have hlt := rest_lt_of_next htoken hstep
    rw [ih, hround, parseLoop_eq_runTokens _ _ _ hlt, parseLoop_eq_runTokens _ _ _ (Nat.lt_succ_self _)]

theorem parseInto_total (config : NginxConfig) (input : Text) :
    ∃ result config', parseInto config input = some (result, config') := by
  rw [parseInto, parseLoop_eq_runTokens _ _ _ (Nat.lt_succ_self _)]
  exact (runTokens_iff (tokens_complete input) (represents_into config)).1

theorem eq_some_of_ofOption {o : Option ParseState} {st : ParseState} (h : Outcome.ofOption o = .next st) :
    o = some st := by
  cases o with
  | none => contradiction
  | some st' => exact congrArg some (Outcome.next.inj h)

theorem pushToken_counters {st st' : ParseState} {token : Text} (h : pushToken st token = some st') :
    st'.numStartBlock = st.numStartBlock ∧ st'.numEndBlock = st.numEndBlock := by
  simp only [pushToken, Option.bind_eq_bind, Option.bind_eq_some_iff, Option.some.injEq] at h
  obtain ⟨top, -, config, -, config', -, rfl⟩ := h
  exact ⟨rfl, rfl⟩

theorem pushBlock_counters {st st' : ParseState} (h : pushBlock st = some st') :
    st'.numStartBlock = st.numStartBlock + 1 ∧ st'.numEndBlock = st.numEndBlock := by
  simp only [pushBlock, Option.bind_eq_bind, Option.bind_eq_some_iff, Option.some.injEq] at h
  obtain ⟨top, -, block, -, config, -, rfl⟩ := h
  exact ⟨rfl, rfl⟩

theorem popBlock_counters {st st' : ParseState} (h : popBlock st = some st') :
    st'.numStartBlock = st.numStartBlock ∧ st'.numEndBlock = st.numEndBlock + 1 := by
  rw [popBlock] at h
  split at h
  · contradiction
  · obtain rfl := Option.some.inj h
    exact ⟨rfl, rfl⟩

theorem parseStep_counters {st st' : ParseState} {t : Token} (hstep : parseStep st t = .next st') :
    st'.numStartBlock ≤ st.numStartBlock + 1 ∧ st.numEndBlock ≤ st'.numEndBlock := by
  obtain ⟨type, value⟩ := t
  cases type <;> simp only [parseStep] at hstep
  case start | error => contradiction
  case eof => split_ifs at hstep
  case comment =>
    obtain rfl := Outcome.next.inj hstep
    omega
  case statementEnd =>
    split_ifs at hstep
    obtain rfl := Outcome.next.inj hstep
    dsimp only
    omega
  case normal =>
    split_ifs at hstep
    have := pushToken_counters (eq_some_of_ofOption hstep)
    omega
  case startBlock =>
    split_ifs at hstep
    have := pushBlock_counters (eq_some_of_ofOption hstep)
    omega
  case endBlock =>
    split_ifs at hstep
    have := popBlock_counters (eq_some_of_ofOption hstep)
    omega

theorem Visits.counters {config : NginxConfig} {input : Text} {st : ParseState} {rest : Text}
    (h : Visits config input st rest) :
    0 ≤ st.numEndBlock ∧ st.numEndBlock ≤ st.numStartBlock ∧ st.numStartBlock + rest.length ≤ input.length := by
  have horder {st : ParseState} {rest : Text} (h : Visits config input st rest) :
      st.numEndBlock ≤ st.numStartBlock := by
    obtain ⟨z, hz⟩ := h.represents
    have hblocks := hz.blocks
    omega
  induction h with
  | start => simp [ParseState.into, ParseState.initial]
  | @round st st' rest rest' type value hvisits htoken hstep ih =>
    have hcounters := parseStep_counters hstep
    have hlt := rest_lt_of_next htoken hstep
    exact ⟨by omega, horder (.round hvisits htoken hstep), by omega⟩

theorem parse_safe (config : NginxConfig) (input : Text) :
    (∀ st rest, Visits config input st rest → Safe st ∧
      ∀ type value rest', parseToken rest = (type, value, rest') →
        parseStep st (type, value) ≠ .undefined ∧
        (type = .startBlock → ∀ st', parseStep st (type, value) = .next st' → StatementOpen st)) ∧
    (∀ text type value rest, parseToken text = (type, value, rest) → type ≠ .eof → type ≠ .error →
      ∃ used, used ≠ [] ∧ text = used ++ rest) ∧
    ∃ result config', parseInto config input = some (result, config') := by
  refine ⟨?_, ?_, parseInto_total config input⟩
  · intro st rest hvisits
    obtain ⟨z, hz⟩ := hvisits.represents
    refine ⟨hz.safe, ?_⟩
    intro type value rest' htoken
    refine ⟨hz.not_undefined htoken, ?_⟩
    rintro rfl st' hstep
    exact hz.statementOpen (normal_of_startBlock hstep)
  · intro text type value rest htoken heof herror
    exact parseToken_consumes htoken (by tauto)

end Bingit.ConfigParser
