import Bingit.FieldBuffers

namespace Bingit

open Text

def hexDigit (n : ℕ) : Char := if n < 10 then Char.ofNat (48 + n) else Char.ofNat (55 + n)

def encodeChar (reserved : Char → Bool) (c : Char) : Text :=
  if c = ' ' then ['+']
  else if reserved c then ['%', hexDigit (c.toNat / 16), hexDigit (c.toNat % 16)]
  else [c]

/-- Which further bytes a browser reserves is left open. -/
def formEncode (reserved : Char → Bool) (s : Text) : Text := s.flatMap (encodeChar reserved)

structure Reserves (reserved : Char → Bool) : Prop where
  plus : reserved '+' = true
  amp : reserved '&' = true
  equals : reserved '=' = true
  percent : reserved '%' = true

structure IsByteText (s : Text) : Prop where
  byte : ∀ c ∈ s, c.toNat < 256
  noNul : nul ∉ s

theorem hexDigit_spec {n : ℕ} (hn : n < 16) :
    hexValue (hexDigit n) = some n ∧ hexDigit n ≠ '+' ∧ hexDigit n ≠ '&' ∧ hexDigit n ≠ nul := by
  revert n
  decide

theorem percentDecode_cons_ne {c : Char} (h : c ≠ '%') (s : Text) : percentDecode (c :: s) = c :: percentDecode s := by
  rw [percentDecode]
  rintro a b s' rfl
  contradiction

theorem percentDecode_hex {c : Char} (h : c.toNat < 256) (s : Text) :
    percentDecode ('%' :: hexDigit (c.toNat / 16) :: hexDigit (c.toNat % 16) :: s) = c :: percentDecode s := by
  have hhigh := (hexDigit_spec (n := c.toNat / 16) (by omega)).1
  have hlow := (hexDigit_spec (n := c.toNat % 16) (by omega)).1
  rw [percentDecode, hhigh, hlow]
  simp only [Nat.div_add_mod, Char.ofNat_toNat]

section

variable {reserved : Char → Bool} (hreserved : Reserves reserved)

include hreserved

theorem ne_of_not_reserved {c : Char} (h : ¬ reserved c = true) : c ≠ '+' ∧ c ≠ '&' ∧ c ≠ '%' := by
  refine ⟨?_, ?_, ?_⟩
  · rintro rfl
    exact h hreserved.plus
  · rintro rfl
    exact h hreserved.amp
  · rintro rfl
    exact h hreserved.percent

theorem percentDecode_encodeChar {c : Char} (h : c.toNat < 256) (s : Text) :
    percentDecode (plusToSpace (encodeChar reserved c) ++ s) = c :: percentDecode s := by
  obtain ⟨-, hhigh, -⟩ := hexDigit_spec (n := c.toNat / 16) (by omega)
  obtain ⟨-, hlow, -⟩ := hexDigit_spec (n := c.toNat % 16) (by omega)
  unfold encodeChar
  split
  · next hspace =>
    rw [hspace]
    exact percentDecode_cons_ne (by decide) s
  · split
    · simp only [plusToSpace, List.map_cons, List.map_nil, if_neg hhigh, if_neg hlow, List.cons_append, List.nil_append]
      exact percentDecode_hex h s
    · next hplain =>
      obtain ⟨hplus, -, hpercent⟩ := ne_of_not_reserved hreserved hplain
      simp only [plusToSpace, List.map_cons, List.map_nil, if_neg hplus, List.cons_append, List.nil_append]
      exact percentDecode_cons_ne hpercent s

theorem percentDecode_formEncode {s : Text} (h : ∀ c ∈ s, c.toNat < 256) :
    percentDecode (plusToSpace (formEncode reserved s)) = s := by
  induction s with
  | nil => rfl
  | cons c s ih =>
    rw [List.forall_mem_cons] at h
    have happend : plusToSpace (formEncode reserved (c :: s)) =
        plusToSpace (encodeChar reserved c) ++ plusToSpace (formEncode reserved s) := List.map_append
    rw [happend, percentDecode_encodeChar hreserved h.1, ih h.2]

theorem notMem_formEncode {s : Text} (h : IsByteText s) :
    '&' ∉ formEncode reserved s ∧ nul ∉ formEncode reserved s := by
  have hchar : ∀ c ∈ s, '&' ∉ encodeChar reserved c ∧ nul ∉ encodeChar reserved c := by
    intro c hc
    have hbyte := h.byte c hc
    obtain ⟨-, -, hhigh⟩ := hexDigit_spec (n := c.toNat / 16) (by omega)
    obtain ⟨-, -, hlow⟩ := hexDigit_spec (n := c.toNat % 16) (by omega)
    unfold encodeChar
    split
    · decide
    · split
      · simp only [List.mem_cons, List.not_mem_nil, or_false, not_or]
        exact ⟨⟨by decide, hhigh.1.symm, hlow.1.symm⟩, by decide, hhigh.2.symm, hlow.2.symm⟩
      · next hplain =>
        have hnul : c ≠ nul := ne_of_mem_of_not_mem hc h.noNul
        simp only [List.mem_singleton]
        exact ⟨(ne_of_not_reserved hreserved hplain).2.1.symm, hnul.symm⟩
  constructor
  · intro hmem
    obtain ⟨c, hc, hin⟩ := List.mem_flatMap.mp hmem
    exact (hchar c hc).1 hin
  · intro hmem
    obtain ⟨c, hc, hin⟩ := List.mem_flatMap.mp hmem
    exact (hchar c hc).2 hin

end

theorem formEncode_eq_nil_iff (reserved : Char → Bool) (s : Text) : formEncode reserved s = [] ↔ s = [] := by
  constructor
  · intro h
    cases s with
    | nil => rfl
    | cons c s =>
      have hchar := List.flatMap_eq_nil_iff.mp h c List.mem_cons_self
      unfold encodeChar at hchar
      split_ifs at hchar
  · rintro rfl
    rfl

def formText (fields : List (Text × Text)) : Text := fields.flatMap (fun field => field.1 ++ field.2)

theorem sscanf_formText {fields : List (Text × Text)} (hvalues : ∀ field ∈ fields, '&' ∉ field.2)
    (hnames : ∀ field ∈ fields.tail, ∃ name, field.1 = '&' :: name) :
    sscanf (formDirectives (fields.map Prod.fst)) (formText fields) =
      some ((fields.map Prod.snd).takeWhile (fun value => decide (value ≠ []))) := by
  induction fields with
  | nil => rfl
  | cons field fields ih =>
    rw [List.forall_mem_cons] at hvalues
    have hrest : ∀ c ∈ (formText fields).head?, c = '&' := by
      cases fields with
      | nil => simp [formText]
      | cons next fields =>
        obtain ⟨name, hname⟩ := hnames next List.mem_cons_self
        simp [formText, hname]
    have hscan := takeWhile_dropWhile_ne hvalues.1 hrest
    have htail := ih hvalues.2 (fun next hnext => hnames next (List.mem_of_mem_tail hnext))
    have htext : formText (field :: fields) = field.1 ++ (field.2 ++ formText fields) := by
      simp [formText]
    rw [List.map_cons, formDirectives_cons, htext, sscanf_literals, sscanf]
    simp only [hscan.1, hscan.2, htail, List.map_cons, List.takeWhile_cons, decide_eq_true_eq]
    split
    · next hempty => rw [if_neg (by simpa using hempty)]
    · rfl

end Bingit
