import Mathlib.Data.List.Induction

namespace Bingit

/-- So many directories up, then down along the names. -/
structure LexicalPath (N : Type*) where
  absolute : Bool
  ups : ℕ
  names : List N
  rooted : absolute = true → ups = 0

namespace LexicalPath

variable {N : Type*}

def start (absolute : Bool) : LexicalPath N := ⟨absolute, 0, [], fun _ => rfl⟩

def down (p : LexicalPath N) (name : N) : LexicalPath N := { p with names := p.names ++ [name] }

def up (p : LexicalPath N) : LexicalPath N where
  absolute := p.absolute
  ups := if p.names = [] ∧ p.absolute = false then p.ups + 1 else p.ups
  names := p.names.dropLast
  rooted := by
    intro habsolute
    simp [habsolute, p.rooted habsolute]

def step (p : LexicalPath N) : Option N → LexicalPath N
  | some name => p.down name
  | none => p.up

def walk (p : LexicalPath N) (components : List (Option N)) : LexicalPath N := components.foldl step p

def AtOrBelow (root p : LexicalPath N) : Prop :=
  p.absolute = root.absolute ∧ p.ups = root.ups ∧ root.names <+: p.names

@[simp] theorem down_absolute (p : LexicalPath N) (name : N) : (p.down name).absolute = p.absolute := rfl

@[simp] theorem down_ups (p : LexicalPath N) (name : N) : (p.down name).ups = p.ups := rfl

@[simp] theorem down_names (p : LexicalPath N) (name : N) : (p.down name).names = p.names ++ [name] := rfl

@[simp] theorem up_absolute (p : LexicalPath N) : p.up.absolute = p.absolute := rfl

@[simp] theorem up_names (p : LexicalPath N) : p.up.names = p.names.dropLast := rfl

theorem up_ups (p : LexicalPath N) :
    p.up.ups = if p.names = [] ∧ p.absolute = false then p.ups + 1 else p.ups := rfl

theorem walk_append (p : LexicalPath N) (cs ds : List (Option N)) : p.walk (cs ++ ds) = (p.walk cs).walk ds :=
  List.foldl_append

theorem walk_concat (p : LexicalPath N) (cs : List (Option N)) (c : Option N) :
    p.walk (cs ++ [c]) = (p.walk cs).step c := by
  rw [walk_append]
  rfl

def relative (components : List (Option N)) : LexicalPath N := (start false).walk components

theorem relative_concat (cs : List (Option N)) (c : Option N) : relative (cs ++ [c]) = (relative cs).step c :=
  walk_concat _ cs c

theorem walk_absolute (p : LexicalPath N) (cs : List (Option N)) : (p.walk cs).absolute = p.absolute := by
  induction cs using List.reverseRecOn with
  | nil => rfl
  | append_singleton cs c ih =>
    rw [walk_concat, ← ih]
    cases c <;> rfl

theorem relative_absolute (cs : List (Option N)) : (relative cs).absolute = false := walk_absolute _ cs

theorem walk_names (p : LexicalPath N) (cs : List (Option N)) :
    (p.walk cs).names = p.names.take (p.names.length - (relative cs).ups) ++ (relative cs).names := by
  induction cs using List.reverseRecOn with
  | nil => simp [walk, relative, start]
  | append_singleton cs c ih =>
    rw [walk_concat, relative_concat]
    cases c with
    | some name => simp [step, ih]
    | none =>
      by_cases hnil : (relative cs).names = []
      · have hups : (relative cs).up.ups = (relative cs).ups + 1 := by
          simp [up, hnil, relative_absolute]
        rw [hnil, List.append_nil] at ih
        simp only [step, up_names, ih, hnil, hups, List.dropLast_nil, List.append_nil]
        rw [List.dropLast_eq_take, List.take_take, List.length_take]
        congr 1
        omega
      · have hups : (relative cs).up.ups = (relative cs).ups := by simp [up, hnil]
        simp only [step, up_names, ih, hups]
        rw [List.dropLast_append_of_ne_nil hnil]

theorem walk_ups (p : LexicalPath N) (cs : List (Option N)) :
    (p.walk cs).ups = if p.absolute then p.ups else p.ups + ((relative cs).ups - p.names.length) := by
  induction cs using List.reverseRecOn with
  | nil => simp [walk, relative, start]
  | append_singleton cs c ih =>
    rw [walk_concat, relative_concat]
    cases c with
    | some name => exact ih
    | none =>
      have hnames := walk_names p cs
      have habsolute := walk_absolute p cs
      change (p.walk cs).up.ups = if p.absolute then p.ups else p.ups + ((relative cs).up.ups - p.names.length)
      rw [up_ups, up_ups, habsolute, relative_absolute, ih]
      by_cases hrooted : p.absolute = true
      · simp [hrooted]
      · by_cases hnil : (relative cs).names = []
        · have hempty : (p.walk cs).names = [] ↔ p.names.length ≤ (relative cs).ups := by
            rw [hnames, hnil, List.append_nil, ← List.length_eq_zero_iff, List.length_take]
            omega
          by_cases hle : p.names.length ≤ (relative cs).ups
          · simp only [hrooted, hempty, hle, hnil]
            simp
            omega
          · simp only [hrooted, hempty, hle, hnil]
            simp
            omega
        · have hne : (p.walk cs).names ≠ [] := by simp [hnames, hnil]
          simp [hrooted, hnil, hne]

theorem atOrBelow_walk_iff (root : LexicalPath N) (cs : List (Option N)) :
    AtOrBelow root (root.walk cs) ↔
      (root.absolute = true ∨ (relative cs).ups ≤ root.names.length) ∧
        root.names.drop (root.names.length - (relative cs).ups) <+: (relative cs).names := by
  have hinitial : root.names <+: root.names.take (root.names.length - (relative cs).ups) ++ (relative cs).names ↔
      root.names.drop (root.names.length - (relative cs).ups) <+: (relative cs).names := by
    nth_rewrite 1 [← List.take_append_drop (root.names.length - (relative cs).ups) root.names]
    exact List.prefix_append_right_inj _
  rw [AtOrBelow, walk_absolute, walk_ups, walk_names, hinitial]
  by_cases habsolute : root.absolute = true
  · simp [habsolute]
  · simp [habsolute, Nat.sub_eq_zero_iff_le]

end LexicalPath

end Bingit
