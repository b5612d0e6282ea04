import Bingit.ConfigParser
import Bingit.Reply
import Mathlib.Algebra.Group.Nat.Defs

namespace Bingit

open Text

/-- `strtol` in 64 bits, cut to an `int`. -/
def atoi (digits : Text) : Int32 := Int32.ofNat (min (Nat.ofDigitChars 10 digits 0) (2 ^ 63 - 1))

def NginxConfig.getPort : NginxConfig → Int32
  | [] => -1
  | statement :: rest =>
    match statement.tokens with
    | [key, portNum] =>
      if key = "port".toList then
        if portNum = [] ∨ ¬ portNum.all Char.isDigit then -1 else atoi portNum
      else getPort rest
    | _ => getPort rest

def ConfigParams.port (config : NginxConfig) : Int16 := config.getPort.toInt16

namespace Server

-- `params_.port` is still -1 when the parser rejects the file
def setConfigParams : Bool × NginxConfig → Int16
  | (false, _) => -1
  | (true, config) => ConfigParams.port config

def acceptorPort (port : Int16) : Option UInt16 := if port = -1 then none else some port.toUInt16

theorem port_eq_neg_one_iff (port : Int16) : port = -1 ↔ port.toUInt16.toNat = 65535 := by
  constructor
  · rintro rfl
    rfl
  · intro h
    have hport : port.toUInt16 = (-1 : Int16).toUInt16 := UInt16.toNat_inj.mp h
    rw [← Int16.toInt16_toUInt16 port, hport]
    rfl

theorem acceptorPort_eq_none_iff (port : Int16) : acceptorPort port = none ↔ port = -1 := by
  simp [acceptorPort]

theorem getPort_first {before after : NginxConfig} {child : Option NginxConfig} {digits : Text} {n : ℕ}
    (hbefore : ∀ statement ∈ before, ∀ portNum, statement.tokens ≠ ["port".toList, portNum])
    (hdigits : decodeNumber digits = some n) :
    NginxConfig.getPort (before ++ .mk ["port".toList, digits] child :: after) =
      Int32.ofNat (min n (2 ^ 63 - 1)) := by
  induction before with
  | nil =>
    obtain ⟨hall, hn⟩ := Option.ite_none_right_eq_some.mp hdigits
    obtain rfl := Option.some.inj hn
    have hnumeral : ¬ (digits = [] ∨ ¬ digits.all Char.isDigit) := by
      rintro (hempty | hnot)
      · exact hall.1 hempty
      · exact hnot hall.2
    simp only [List.nil_append, NginxConfig.getPort, NginxConfigStatement.tokens, if_true]
    rw [if_neg hnumeral, atoi]
  | cons statement before ih =>
    rw [List.forall_mem_cons] at hbefore
    rw [List.cons_append, NginxConfig.getPort]
    split
    · next key portNum htokens =>
      have hkey : key ≠ "port".toList := by
        rintro rfl
        exact hbefore.1 portNum htokens
      rw [if_neg hkey, ih hbefore.2]
    · exact ih hbefore.2

theorem setConfigParams_toNat {before after : NginxConfig} {child : Option NginxConfig} {digits : Text} {n : ℕ}
    (hbefore : ∀ statement ∈ before, ∀ portNum, statement.tokens ≠ ["port".toList, portNum])
    (hdigits : decodeNumber digits = some n) :
    (setConfigParams (true, before ++ .mk ["port".toList, digits] child :: after)).toUInt16.toNat =
      min n (2 ^ 63 - 1) % 65536 := by
  rw [setConfigParams, ConfigParams.port, getPort_first hbefore hdigits, Int32.toInt16_ofNat', Int16.toUInt16_ofNat']
  exact UInt16.toNat_ofNat'

def ListensOrRejects (n : ℕ) (port : Int16) : Prop :=
  if n ≤ 65535 then port ≠ -1 ∧ port.toUInt16.toNat = n else port = -1 ∧ acceptorPort port = none

theorem listensOrRejects_iff {before after : NginxConfig} {child : Option NginxConfig} {digits : Text} {n : ℕ}
    (hbefore : ∀ statement ∈ before, ∀ portNum, statement.tokens ≠ ["port".toList, portNum])
    (hdigits : decodeNumber digits = some n) :
    ListensOrRejects n (setConfigParams (true, before ++ .mk ["port".toList, digits] child :: after)) ↔
      n ≤ 65534 ∨ 65535 < n ∧ (n % 65536 = 65535 ∨ 2 ^ 63 ≤ n) := by
  have hnumber := @setConfigParams_toNat before after child digits n hbefore hdigits
  rw [ListensOrRejects, acceptorPort_eq_none_iff, and_self, Ne, port_eq_neg_one_iff, hnumber]
  split <;> omega

theorem listensOrRejects_40000 :
    ListensOrRejects 40000
      (setConfigParams (true, [.mk ["root".toList, ".".toList] none, .mk ["port".toList, "40000".toList] none])) :=
  (@listensOrRejects_iff [.mk ["root".toList, ".".toList] none] [] none "40000".toList 40000
    (by simp [NginxConfigStatement.tokens]) (by decide +kernel)).mpr (by decide)

theorem port_65535_rejected :
    ¬ ListensOrRejects 65535 (setConfigParams (true, [.mk ["port".toList, "65535".toList] none])) ∧
      acceptorPort (setConfigParams (true, [.mk ["port".toList, "65616".toList] none])) = some 80 := by
  repeat rw [String.toList_ofList]
  unfold ListensOrRejects
  decide +kernel

end Server

end Bingit
