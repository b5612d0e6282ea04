import Bingit.ConfigLexer

namespace Bingit.ConfigParser

abbrev BlockPtr := List ℕ

def blockAt : BlockPtr → NginxConfig → Option NginxConfig
  | [], config => some config
  | i :: ptr, config => do blockAt ptr (← (← config[i]?).childBlock)

def modifyBlock (f : NginxConfig → Option NginxConfig) : BlockPtr → NginxConfig → Option NginxConfig
  | [], config => f config
  | i :: ptr, config => do
    let statement ← config[i]?
    let child ← modifyBlock f ptr (← statement.childBlock)
    some (config.set i (.mk statement.tokens (some child)))

def modifyBack (f : NginxConfigStatement → NginxConfigStatement) (config : NginxConfig) : Option NginxConfig :=
  config.getLast?.map (fun s => config.dropLast ++ [f s])

structure ParseState where
  config : NginxConfig
  configStack : List BlockPtr
  lastTokenType : TokenType
  numStartBlock : ℤ
  numEndBlock : ℤ

inductive Outcome where
  | next (state : ParseState)
  | finish (result : Bool) (config : NginxConfig)
  -- `top`, `pop` or `back` on an empty container
  | undefined

def Outcome.ofOption : Option ParseState → Outcome
  | some state => .next state
  | none => .undefined

def beginStatement (st : ParseState) (top : BlockPtr) : Option NginxConfig :=
  if st.lastTokenType ≠ .normal
  then modifyBlock (fun block => some (block ++ [.mk [] none])) top st.config
  else some st.config

def pushToken (st : ParseState) (token : Text) : Option ParseState := do
  let top ← st.configStack.head?
  let config ← beginStatement st top
  let config ← modifyBlock (modifyBack (fun s => .mk (s.tokens ++ [token]) s.childBlock)) top config
  some { st with config := config, lastTokenType := .normal }

def pushBlock (st : ParseState) : Option ParseState := do
  let top ← st.configStack.head?
  let block ← blockAt top st.config
  let config ← modifyBlock (modifyBack (fun s => .mk s.tokens (some []))) top st.config
  some { st with
    config := config
    configStack := (top ++ [block.length - 1]) :: st.configStack
    lastTokenType := .startBlock
    numStartBlock := st.numStartBlock + 1 }

def popBlock (st : ParseState) : Option ParseState :=
  match st.configStack with
  | [] => none
  | _ :: rest => some { st with
      configStack := rest
      lastTokenType := .endBlock
      numEndBlock := st.numEndBlock + 1 }

def parseStep (st : ParseState) : Token → Outcome
  | (.error, _) => .finish false st.config
  | (.comment, _) => .next st
  | (.start, _) => .finish false st.config
  | (.normal, token) =>
    if st.lastTokenType = .start ∨ st.lastTokenType = .statementEnd ∨ st.lastTokenType = .startBlock ∨
        st.lastTokenType = .endBlock ∨ st.lastTokenType = .normal
    then .ofOption (pushToken st token)
    else .finish false st.config
  | (.statementEnd, _) =>
    if st.lastTokenType ≠ .normal then .finish false st.config
    else .next { st with lastTokenType := .statementEnd }
  | (.startBlock, _) =>
    if st.lastTokenType ≠ .normal then .finish false st.config
    else .ofOption (pushBlock st)
  | (.endBlock, _) =>
    if st.lastTokenType ≠ .statementEnd ∧ st.lastTokenType ≠ .endBlock then .finish false st.config
    else if st.numStartBlock ≤ st.numEndBlock then .finish false st.config
    else .ofOption (popBlock st)
  | (.eof, _) =>
    if st.lastTokenType ≠ .statementEnd ∧ st.lastTokenType ≠ .endBlock ∧ st.lastTokenType ≠ .start
    then .finish false st.config
    else if st.numStartBlock ≠ st.numEndBlock then .finish false st.config
    else .finish true st.config

def ParseState.initial : ParseState := ⟨[], [[]], .start, 0, 0⟩

def parseLoop : ℕ → ParseState → Text → Option (Bool × NginxConfig)
  | 0, _, _ => none
  | fuel + 1, st, input =>
    let (type, token, rest) := parseToken input
    match parseStep st (type, token) with
    | .next st => parseLoop fuel st rest
    | .finish result config => some (result, config)
    | .undefined => none

/-- Every token but the last costs a byte of the fuel. -/
def parse (input : Text) : Option (Bool × NginxConfig) := parseLoop (input.length + 1) .initial input

example : parse "a b \x7b c; \x7d\n".toList =
    some (true, [.mk ["a".toList, "b".toList] (some [.mk ["c".toList] none])]) := rfl

def tokensFrom : ℕ → Text → List Token
  | 0, _ => []
  | fuel + 1, input =>
    let (type, value, rest) := parseToken input
    if type = .eof ∨ type = .error then [(type, value)] else (type, value) :: tokensFrom fuel rest

def tokens (input : Text) : List Token := tokensFrom (input.length + 1) input

theorem tokensFrom_fuel {fuel fuel' : ℕ} {input : Text} (h : input.length < fuel) (h' : input.length < fuel') :
    tokensFrom fuel input = tokensFrom fuel' input := by
  induction fuel generalizing fuel' input with
  | zero => omega
  | succ fuel ih =>
    obtain ⟨fuel', rfl⟩ : ∃ k, fuel' = k + 1 := ⟨fuel' - 1, by omega⟩
    rcases hp : parseToken input with ⟨type, value, rest⟩
    by_cases ht : type = .eof ∨ type = .error
    · simp only [tokensFrom, hp, if_pos ht]
    · have hlt := parseToken_rest_lt hp ht
      simp only [tokensFrom, hp, if_neg ht]
      rw [ih (by omega) (show rest.length < fuel' by omega)]

theorem tokens_last {input : Text} {type : TokenType} {value rest : Text}
    (h : parseToken input = (type, value, rest)) (ht : type = .eof ∨ type = .error) :
    tokens input = [(type, value)] := by
  simp only [tokens, tokensFrom, h, if_pos ht]

theorem tokens_more {input : Text} {type : TokenType} {value rest : Text}
    (h : parseToken input = (type, value, rest)) (ht : ¬ (type = .eof ∨ type = .error)) :
    tokens input = (type, value) :: tokens rest := by
  have hlt := parseToken_rest_lt h ht
  have hstep : tokens input = (type, value) :: tokensFrom input.length rest := by
    simp only [tokens, tokensFrom, h, if_neg ht]
  rw [hstep, tokensFrom_fuel hlt (Nat.lt_succ_self _)]
  rfl

theorem tokens_induction {P : Text → Prop}
    (last : ∀ input type value rest, parseToken input = (type, value, rest) → type = .eof ∨ type = .error → P input)
    (more : ∀ input type value rest, parseToken input = (type, value, rest) → ¬ (type = .eof ∨ type = .error) →
      P rest → P input) (input : Text) : P input := by
  induction hn : input.length using Nat.strong_induction_on generalizing input with
  | _ n ih =>
    rcases hp : parseToken input with ⟨type, value, rest⟩
    by_cases ht : type = .eof ∨ type = .error
    · exact last input type value rest hp ht
    · have hlt := parseToken_rest_lt hp ht
      exact more input type value rest hp ht (ih rest.length (by omega) rest rfl)

def runTokens : ParseState → List Token → Option (Bool × NginxConfig)
  | _, [] => none
  | st, t :: ts =>
    match parseStep st t with
    | .next st => runTokens st ts
    | .finish result config => some (result, config)
    | .undefined => none

theorem parseStep_last (st : ParseState) {type : TokenType} (value : Text)
    (ht : type = .eof ∨ type = .error) : ∃ result, parseStep st (type, value) = .finish result st.config := by
  rcases ht with rfl | rfl
  · simp only [parseStep]
    split_ifs <;> exact ⟨_, rfl⟩
  · exact ⟨false, rfl⟩

theorem parseLoop_eq_runTokens (fuel : ℕ) (st : ParseState) (input : Text) (h : input.length < fuel) :
    parseLoop fuel st input = runTokens st (tokens input) := by
  induction fuel generalizing st input with
  | zero => omega
  | succ fuel ih =>
    rcases hp : parseToken input with ⟨type, value, rest⟩
    by_cases ht : type = .eof ∨ type = .error
    · obtain ⟨result, hs⟩ := parseStep_last st value ht
      simp only [parseLoop, hp, tokens_last hp ht, runTokens, hs]
    · have hlt := parseToken_rest_lt hp ht
      simp only [parseLoop, hp, tokens_more hp ht, runTokens]
      cases parseStep st (type, value) with
      | next st' => exact ih st' rest (by omega)
      | finish result config => rfl
      | undefined => rfl

theorem parse_eq_runTokens (input : Text) : parse input = runTokens .initial (tokens input) :=
  parseLoop_eq_runTokens _ _ _ (Nat.lt_succ_self _)

end Bingit.ConfigParser
