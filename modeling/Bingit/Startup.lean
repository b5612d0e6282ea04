import Bingit.ConfigGrammar
import Bingit.ConnectionOrder
import Bingit.Dispatch
import Bingit.ListenPort
import Bingit.Registration

namespace Bingit

open Text Interleaving ConfigParser Registration

/-- What a process finds where it starts. -/
structure Machine where
  openFile : Text → Option Text
  listen : UInt16 → Bool
  openDatabase : Bool
  createTable : Bool

namespace Server

variable (m : Machine)

def parseFile (fileName : Text) : Option (Bool × NginxConfig) :=
  match m.openFile fileName with
  | none => some (false, [])
  | some text => parse text

def paramsOf : Bool × NginxConfig → ConfigParams
  | (false, _) => ⟨[], ∅⟩
  | (true, config) => .ofConfig config

/-- `none` where the acceptor throws. -/
def construct (fileName : Text) : Option (Option UInt16 × ConfigParams) := do
  let parsed ← parseFile m fileName
  match acceptorPort (setConfigParams parsed) with
  | none => some (none, paramsOf parsed)
  | some port => if m.listen port then some (some port, paramsOf parsed) else none

def initSqlite3 : Bool := m.openDatabase && m.createTable

def init (acceptor : Option UInt16) : Bool := acceptor.isSome && initSqlite3 m

inductive Outcome where
  | usage
  | exitFailure
  | serving (port : UInt16) (params : ConfigParams)

def main : List Text → Outcome
  | [fileName] =>
    match construct m fileName with
    | some (some port, params) => if init m (some port) then .serving port params else .exitFailure
    | _ => .exitFailure
  | _ => .usage

def threadPoolSize : ℕ := 20

def PortNumber (config : NginxConfig) (n : ℕ) : Prop :=
  ∃ before digits child after, config = before ++ .mk ["port".toList, digits] child :: after ∧
    (∀ statement ∈ before, ∀ portNum, statement.tokens ≠ ["port".toList, portNum]) ∧ decodeNumber digits = some n

theorem PortNumber.cons {config : NginxConfig} {n : ℕ} (h : PortNumber config n) {statement : NginxConfigStatement}
    (hother : ∀ portNum, statement.tokens ≠ ["port".toList, portNum]) : PortNumber (statement :: config) n := by
  obtain ⟨before, digits, child, after, rfl, hbefore, hdigits⟩ := h
  refine ⟨statement :: before, digits, child, after, rfl, ?_, hdigits⟩
  rw [List.forall_mem_cons]
  exact ⟨hother, hbefore⟩

theorem getPort_cases (config : NginxConfig) : config.getPort = -1 ∨ ∃ n, PortNumber config n := by
  induction config with
  | nil => exact .inl rfl
  | cons statement rest ih =>
    have hrest (hother : ∀ portNum, statement.tokens ≠ ["port".toList, portNum]) :
        NginxConfig.getPort rest = -1 ∨ ∃ n, PortNumber (statement :: rest) n :=
      ih.imp_right fun ⟨n, h⟩ => ⟨n, h.cons hother⟩
    rw [NginxConfig.getPort]
    split
    · next key portNum htokens =>
      split
      · next hkey =>
        split
        · exact .inl rfl
        · next hdigits =>
          obtain ⟨tokens, child⟩ := statement
          obtain rfl : tokens = [key, portNum] := htokens
          subst hkey
          have hnumber : portNum ≠ [] ∧ portNum.all Char.isDigit := by
            rw [not_or, not_not] at hdigits
            exact hdigits
          exact .inr ⟨_, [], portNum, child, rest, rfl, by simp, if_pos hnumber⟩
      · next hkey =>
        apply hrest
        rw [htokens]
        exact fun portNum h => hkey (List.cons.inj h).1
    · next hother => exact hrest fun portNum htokens => hother _ _ htokens

theorem acceptorPort_iff (config : NginxConfig) (port : UInt16) :
    acceptorPort (setConfigParams (true, config)) = some port ↔
      ∃ n, PortNumber config n ∧ port.toNat = min n (2 ^ 63 - 1) % 65536 ∧ port.toNat ≠ 65535 := by
  have haccepts (p : Int16) : acceptorPort p = some port ↔ p.toUInt16 = port ∧ p.toUInt16.toNat ≠ 65535 := by
    rw [acceptorPort, Ne, ← port_eq_neg_one_iff]
    split
    · next heq => simp [heq]
    · next hne => simp [hne]
  rw [haccepts]
  constructor
  · rintro ⟨rfl, hport⟩
    rcases getPort_cases config with hnone | ⟨n, hn⟩
    · rw [Ne, ← port_eq_neg_one_iff, setConfigParams, ConfigParams.port, hnone] at hport
      exact absurd rfl hport
    · refine ⟨n, hn, ?_, hport⟩
      obtain ⟨before, digits, child, after, rfl, hbefore, hdigits⟩ := hn
      exact setConfigParams_toNat hbefore hdigits
  · rintro ⟨n, ⟨before, digits, child, after, rfl, hbefore, hdigits⟩, hport, hne⟩
    have hnumber := @setConfigParams_toNat before after child digits n hbefore hdigits
    have heq := UInt16.toNat_inj.mp (hnumber.trans hport.symm)
    exact ⟨heq, heq ▸ hne⟩

def Configures (text : Text) (config : NginxConfig) : Prop :=
  endsInEof (tokens text) ∧ Derives config (terminals (tokens text))

theorem construct_eq_some_iff (fileName : Text) (port : UInt16) (params : ConfigParams) :
    construct m fileName = some (some port, params) ↔
      ∃ text config, m.openFile fileName = some text ∧ Configures text config ∧
        acceptorPort (setConfigParams (true, config)) = some port ∧ m.listen port = true ∧
        params = .ofConfig config := by
  constructor
  · intro h
    obtain ⟨⟨accepted, config⟩, hparse, hrest⟩ := Option.bind_eq_some_iff.mp h
    cases hport : acceptorPort (setConfigParams (accepted, config)) with
    | none => simp [hport] at hrest
    | some port' =>
      cases accepted with
      | false => contradiction
      | true =>
        simp only [hport, Option.ite_none_right_eq_some, Option.some.injEq, Prod.mk.injEq] at hrest
        obtain ⟨hlisten, rfl, hparams⟩ := hrest
        cases hopen : m.openFile fileName with
        | none => simp [parseFile, hopen] at hparse
        | some text =>
          simp only [parseFile, hopen] at hparse
          exact ⟨text, config, rfl, (parse_true_iff text config).mp hparse, hport, hlisten, hparams.symm⟩
  · rintro ⟨text, config, hopen, hconfig, hport, hlisten, rfl⟩
    have hparse : parseFile m fileName = some (true, config) := by
      simp only [parseFile, hopen]
      exact (parse_true_iff text config).mpr hconfig
    rw [construct, hparse]
    simp only [Option.bind_eq_bind, Option.bind_some, hport, hlisten, if_true]
    rfl

theorem main_eq_serving_iff (args : List Text) (port : UInt16) (params : ConfigParams) :
    main m args = .serving port params ↔
      ∃ fileName, args = [fileName] ∧ construct m fileName = some (some port, params) ∧ initSqlite3 m = true := by
  constructor
  · intro h
    unfold main at h
    split at h
    · next fileName =>
      split at h
      · next port' params' hconstruct =>
        split at h
        · next hinit =>
          obtain ⟨rfl, rfl⟩ := Outcome.serving.inj h
          exact ⟨fileName, rfl, hconstruct, hinit⟩
        · contradiction
      · contradiction
    · contradiction
  · rintro ⟨fileName, rfl, hconstruct, hinit⟩
    rw [main, hconstruct]
    exact if_pos hinit

theorem main_serves_iff (args : List Text) (port : UInt16) (params : ConfigParams) :
    main m args = .serving port params ↔
      ∃ fileName text config n, args = [fileName] ∧ m.openFile fileName = some text ∧ Configures text config ∧
        PortNumber config n ∧ port.toNat = min n (2 ^ 63 - 1) % 65536 ∧ port.toNat ≠ 65535 ∧
        m.listen port = true ∧ m.openDatabase = true ∧ m.createTable = true ∧ params = .ofConfig config := by
  simp only [main_eq_serving_iff, construct_eq_some_iff, acceptorPort_iff, initSqlite3, Bool.and_eq_true]
  constructor
  · rintro ⟨fileName, rfl, ⟨text, config, hopen, hconfig, ⟨n, hn, hport, hne⟩, hlisten, rfl⟩, hdatabase, htable⟩
    exact ⟨fileName, text, config, n, rfl, hopen, hconfig, hn, hport, hne, hlisten, hdatabase, htable, rfl⟩
  · rintro ⟨fileName, text, config, n, rfl, hopen, hconfig, hn, hport, hne, hlisten, hdatabase, htable, rfl⟩
    exact ⟨fileName, rfl, ⟨text, config, hopen, hconfig, ⟨n, hn, hport, hne⟩, hlisten, rfl⟩, hdatabase, htable⟩

end Server

namespace Registration

theorem mem_of_foldl_register {bs : List (Text × NginxConfig)} {map : HandlerPaths} {k : Text}
    {v : Text × NginxConfig} (h : (bs.foldl register map)[k]? = some v) :
    v ∈ bs ∧ location v = k ∨ map[k]? = some v := by
  induction bs generalizing map with
  | nil => exact .inr h
  | cons b rest ih =>
    rcases ih h with ⟨hmem, hlocation⟩ | hstep
    · exact .inl ⟨List.mem_cons_of_mem b hmem, hlocation⟩
    · by_cases hb : b.1 ∈ map
      · rw [register, if_pos hb] at hstep
        exact .inr hstep
      · rw [getElem?_register_of_live hb] at hstep
        by_cases hk : location b = k
        · subst hk
          rw [firstAt_cons_self] at hstep
          obtain rfl := Option.some.inj hstep
          exact .inl ⟨List.mem_cons_self, rfl⟩
        · rw [firstAt_cons_of_ne [] hk] at hstep
          exact .inr hstep

theorem mem_handlerBlocks {config : NginxConfig} {k : Text} {v : Text × NginxConfig}
    (h : (config.getHandlerPaths ∅)[k]? = some v) : v ∈ config.handlerBlocks ∧ location v = k := by
  rw [getHandlerPaths_eq_foldl] at h
  rcases mem_of_foldl_register h with hmem | hempty
  · exact hmem
  · simp at hempty

end Registration

namespace Session

variable {Db : Type}

inductive AnsweredFrom (env : Env Db) (config : NginxConfig) (request : Request) (r : Reply) : Prop
  | rejected (hvalid : request.valid = false) (hr : r = make400Request)
  | block {b : Text × NginxConfig} {es : List (Event Ret)} (hvalid : request.valid = true)
      (hb : b ∈ config.handlerBlocks) (hlocation : SegmentPrefix (location b) request.path)
      (hr : Path ((Handler.createByName b.1 b.2 (ConfigParams.ofConfig config).serverRoot).handleRequest env
        (config.getHandlerPaths ∅) request) es (.pure r))
  | unknown (hvalid : request.valid = true) (hno : ∀ k ∈ config.getHandlerPaths ∅, ¬ SegmentPrefix k request.path)
      (hr : r = badRequestReply request)

theorem answeredFrom_of_respond {env : Env Db} {config : NginxConfig} {request : Request} {es : List (Event Ret)}
    {r : Reply} (h : Path (respond env (.ofConfig config) request) es (.pure r)) :
    AnsweredFrom env config request r := by
  unfold respond at h
  split at h
  · next hvalid =>
    obtain ⟨_, fs, -, hhandler⟩ := Path.call_pure_inv h
    cases hdispatch : dispatch (config.getHandlerPaths ∅) request.path with
    | none =>
      have hno : ∀ k ∈ config.getHandlerPaths ∅, ¬ SegmentPrefix k request.path := by
        intro k hk hprefix
        have hsome := (dispatch_isSome_iff _ _).mpr ⟨k, hk, (matches_iff k _).mpr hprefix⟩
        rw [hdispatch] at hsome
        obtain ⟨_, hentry⟩ := hsome
        contradiction
      rw [selectHandler_of_none hdispatch] at hhandler
      exact .unknown hvalid hno (Prog.pure.inj (Path.pure_inv hhandler).2)
    | some entry =>
      obtain ⟨k, type, block⟩ := entry
      obtain ⟨hget, hmatch⟩ := mem_of_dispatch hdispatch
      obtain ⟨hblock, rfl⟩ := mem_handlerBlocks hget
      have hselect : selectHandler (.ofConfig config) request.path =
          .createByName type block (ConfigParams.ofConfig config).serverRoot := by
        have hparams : dispatch (ConfigParams.ofConfig config).handlerPaths request.path = _ := hdispatch
        rw [selectHandler, hparams]
      rw [hselect] at hhandler
      exact .block hvalid hblock ((matches_iff _ _).mp hmatch) hhandler
  · next hinvalid => exact .rejected (by simpa using hinvalid) (Prog.pure.inj (Path.pure_inv h).2)

end Session

theorem exists_of_forall₂ {α β : Type} {R : α → β → Prop} {as : List α} {bs : List β} (h : List.Forall₂ R as bs)
    {b : β} (hb : b ∈ bs) : ∃ a ∈ as, R a b := by
  induction h with
  | nil => contradiction
  | cons hab _ ih =>
    rcases List.mem_cons.mp hb with rfl | hb
    · exact ⟨_, List.mem_cons_self, hab⟩
    · obtain ⟨a, ha, hr⟩ := ih hb
      exact ⟨a, List.mem_cons_of_mem _ ha, hr⟩

namespace EventLoop

open Server Session

variable {Db : Type} {env : Env Db} {db : Db}

theorem served_from_file {m : Machine} {args : List Text} {port : UInt16} {params : ConfigParams}
    (hmain : main m args = .serving port params) {l : EventLoop Db}
    (h : Reachable env params (threadPoolSize + 1) db l) :
    ∃ fileName text config, args = [fileName] ∧ m.openFile fileName = some text ∧ Configures text config ∧
      ∀ c ∈ l.sessions, ∀ w ∈ c.sent, ∃ n ∈ c.received, ∃ data r, l.reads[n]? = some data ∧
        AnsweredFrom env config (parseRequestLine data) r ∧ w.response = constructHttpResponse env.order r := by
  obtain ⟨fileName, hargs, hconstruct, -⟩ := (main_eq_serving_iff m args port params).mp hmain
  obtain ⟨text, config, hopen, hconfig, -, -, rfl⟩ := (construct_eq_some_iff m fileName port params).mp hconstruct
  refine ⟨fileName, text, config, hargs, hopen, hconfig, fun c hc w hw => ?_⟩
  obtain ⟨i, hi⟩ := List.mem_iff_getElem?.mp hc
  obtain ⟨answered, hreceived, hsent⟩ := inOrder_of_reachable h hi
  obtain ⟨n, hn, data, r, es, hdata, hrespond, -, hreply⟩ := exists_of_forall₂ hsent (List.mem_map_of_mem hw)
  exact ⟨n, hreceived ▸ List.mem_append_left _ hn, data, r, hdata, answeredFrom_of_respond hrespond, hreply⟩

def statusFile : Text := "port 80; handler status \x7b location /status; \x7d".toList

def statusMachine : Machine := ⟨fun _ => some statusFile, fun _ => true, true, true⟩

def statusConfig : NginxConfig :=
  [.mk ["port".toList, "80".toList] none,
    .mk ["handler".toList, "status".toList] (some [.mk ["location".toList, "/status".toList] none])]

theorem main_statusMachine : main statusMachine ["conf".toList] = .serving 80 (.ofConfig statusConfig) := by
  have hconfig : Configures statusFile statusConfig := by
    refine (parse_true_iff _ _).mp ?_
    unfold statusFile statusConfig
    repeat rw [String.toList_ofList]
    rfl
  have hport : acceptorPort (setConfigParams (true, statusConfig)) = some 80 := by
    decide +kernel
  refine (main_eq_serving_iff _ _ _ _).mpr ⟨_, rfl, ?_, rfl⟩
  exact (construct_eq_some_iff _ _ _ _).mpr ⟨_, _, rfl, hconfig, hport, rfl, rfl⟩

theorem served_from_file_status :
    ∃ config c, Configures statusFile config ∧
      (loop plainEnv (.ofConfig statusConfig) (threadPoolSize + 1) () twoReads).sessions[0]? = some c ∧
      c.received = [0, 1] ∧ c.sent.length = 2 ∧
      ∀ w ∈ c.sent, ∃ data r, data ∈ ["GET /".toList, statusData] ∧
        AnsweredFrom plainEnv config (parseRequestLine data) r ∧ w.response = constructHttpResponse plainEnv.order r := by
  have hread : (loop plainEnv (.ofConfig statusConfig) (threadPoolSize + 1) () twoReads).sessions[0]?.map
      (fun c => (c.received, c.sent.length)) = some ([0, 1], 2) ∧
      (loop plainEnv (.ofConfig statusConfig) (threadPoolSize + 1) () twoReads).reads = ["GET /".toList, statusData] := by
    decide +kernel
  obtain ⟨c, hc, heq⟩ := Option.map_eq_some_iff.mp hread.1
  obtain ⟨hreceived, hlength⟩ := Prod.mk.inj heq
  obtain ⟨fileName, text, config, -, hopen, hconfig, hsent⟩ :=
    @served_from_file Unit plainEnv () _ _ _ _ main_statusMachine _ (reachable_loop twoReads)
  obtain rfl := Option.some.inj hopen
  refine ⟨config, c, hconfig, hc, hreceived, hlength, fun w hw => ?_⟩
  obtain ⟨n, -, data, r, hdata, hanswered, hresponse⟩ := hsent c (List.mem_of_getElem? hc) w hw
  rw [hread.2] at hdata
  exact ⟨data, r, List.mem_of_getElem? hdata, hanswered, hresponse⟩

end EventLoop

end Bingit
