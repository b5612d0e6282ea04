import Mathlib.Data.List.Basic
import Mathlib.Data.List.DropRight
import Mathlib.Data.List.Infix
import Mathlib.Tactic.Common

namespace Bingit

/-- A `std::string`, one `Char` for each of its bytes. -/
abbrev Text := List Char

namespace Text

def nul : Char := Char.ofNat 0

/-- What a C function sees of a character array. -/
def cString (s : Text) : Text := s.takeWhile (· ≠ nul)

theorem cString_of_notMem {s : Text} (h : nul ∉ s) : cString s = s := by
  rw [cString, List.takeWhile_eq_self_iff]
  intro c hc
  simpa using ne_of_mem_of_not_mem hc h

theorem nul_notMem_cString (s : Text) : nul ∉ cString s := by
  intro h
  simpa using List.mem_takeWhile_imp h

theorem takeWhile_dropWhile_run {p : Char → Bool} {w rest : Text} (hw : ∀ c ∈ w, p c = true)
    (hrest : ∀ c ∈ rest.head?, p c = false) : (w ++ rest).takeWhile p = w ∧ (w ++ rest).dropWhile p = rest := by
  rw [List.takeWhile_append_of_pos hw, List.dropWhile_append_of_pos hw]
  cases rest with
  | nil => simp
  | cons c rest =>
    have hc : p c = false := hrest c rfl
    simp [hc]

theorem takeWhile_dropWhile_ne {d : Char} {w rest : Text} (hw : d ∉ w) (hrest : ∀ c ∈ rest.head?, c = d) :
    (w ++ rest).takeWhile (· ≠ d) = w ∧ (w ++ rest).dropWhile (· ≠ d) = rest := by
  apply takeWhile_dropWhile_run
  · intro c hc
    simpa using ne_of_mem_of_not_mem hc hw
  · intro c hc
    simpa using hrest c hc

theorem split_at_first (p : Char → Prop) (s : Text) :
    (∀ c ∈ s, ¬ p c) ∨ ∃ before c after, s = before ++ c :: after ∧ (∀ d ∈ before, ¬ p d) ∧ p c := by
  induction s with
  | nil => simp
  | cons c s ih =>
    by_cases hc : p c
    · exact .inr ⟨[], c, s, rfl, by simp, hc⟩
    · rcases ih with h | ⟨before, d, after, rfl, hb, hd⟩
      · exact .inl (by simpa [hc] using h)
      · exact .inr ⟨c :: before, d, after, rfl, by simpa [hc] using hb, hd⟩

def isSpace (c : Char) : Bool :=
  c = ' ' || c = '\t' || c = '\n' || c = Char.ofNat 11 || c = Char.ofNat 12 || c = '\r'

def trim (s : Text) : Text := (s.dropWhile isSpace).rdropWhile isSpace

def find (pattern : Text) : Text → Option ℕ
  | [] => if pattern = [] then some 0 else none
  | c :: s => if pattern <+: c :: s then some 0 else (find pattern s).map (· + 1)

theorem find_eq_zero_iff (pattern s : Text) : find pattern s = some 0 ↔ pattern <+: s := by
  cases s with
  | nil => by_cases h : pattern = [] <;> simp [find, h]
  | cons c s => by_cases h : pattern <+: c :: s <;> simp [find, h]

theorem find_cons_of_not {pattern s : Text} {c : Char} (h : ¬ pattern <+: c :: s) :
    find pattern (c :: s) = (find pattern s).map (· + 1) := if_neg h

theorem find_append_of_notMem {d : Char} {w : Text} (h : d ∉ w) (pattern s : Text) :
    find (d :: pattern) (w ++ s) = (find (d :: pattern) s).map (· + w.length) := by
  induction w with
  | nil => simp
  | cons c w ih =>
    rw [List.mem_cons, not_or] at h
    have hstart : ¬ d :: pattern <+: c :: (w ++ s) := fun hp => h.1 (List.cons_prefix_cons.mp hp).1
    rw [List.cons_append, find_cons_of_not hstart, ih h.2, Option.map_map, List.length_cons]
    rfl

theorem find_append_self (pattern s : Text) : find pattern (pattern ++ s) = some 0 :=
  (find_eq_zero_iff _ _).mpr (List.prefix_append pattern s)

def decimal (n : ℕ) : Text := Nat.toDigits 10 n

def ofInt : ℤ → Text
  | .ofNat n => decimal n
  | .negSucc n => '-' :: decimal (n + 1)

theorem decimal_injective : Function.Injective decimal := by
  intro m n h
  rw [← Nat.ofDigitChars_ten_toDigits (n := m), ← Nat.ofDigitChars_ten_toDigits (n := n)]
  exact congrArg (fun ds => Nat.ofDigitChars 10 ds 0) h

theorem isDigit_of_mem_decimal {n : ℕ} {c : Char} (h : c ∈ decimal n) : c.isDigit = true :=
  Nat.isDigit_of_mem_toDigits (by omega) (by omega) h

theorem notMem_decimal {c : Char} (hc : c.isDigit = false) (n : ℕ) : c ∉ decimal n := by
  intro hmem
  rw [isDigit_of_mem_decimal hmem] at hc
  contradiction

theorem decimal_ne_nil (n : ℕ) : decimal n ≠ [] := Nat.toDigits_ne_nil

end Text

end Bingit
