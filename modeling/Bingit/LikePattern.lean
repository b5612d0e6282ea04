import Bingit.Text

namespace Bingit.Sql

open Text

def foldCase (s : Text) : Text := s.map Char.toLower

def Contains (q t : Text) : Prop := foldCase q <:+: foldCase t

inductive Like (character : Text → Prop) : Text → Text → Prop
  | nil : Like character [] []
  | any (s : Text) {p t : Text} (h : Like character p t) : Like character ('%' :: p) (s ++ t)
  | one {s p t : Text} (hs : character s) (h : Like character p t) : Like character ('_' :: p) (s ++ t)
  | char {c d : Char} {p t : Text} (hplain : c ≠ '%' ∧ c ≠ '_') (hcase : c.toLower = d.toLower)
      (h : Like character p t) : Like character (c :: p) (d :: t)

/-- A character may be several bytes, an ASCII one is one. -/
structure Characters (character : Text → Prop) : Prop where
  ascii : ∀ c : Char, c.toNat < 128 → character [c]

instance (q t : Text) : Decidable (Contains q t) := inferInstanceAs (Decidable (_ <:+: _))

theorem foldCase_append (s t : Text) : foldCase (s ++ t) = foldCase s ++ foldCase t := List.map_append

theorem eq_underscore {d : Char} (h : d.toLower = '_') : d = '_' := by
  unfold Char.toLower at h
  split at h
  · next hupper =>
    have hsum : (d.val.toNat + 32) % 2 ^ 32 = 95 := by
      have hval := congrArg (fun e : Char => e.val.toNat) h
      rwa [UInt32.toNat_add] at hval
    have hrange : 65 ≤ d.val.toNat ∧ d.val.toNat ≤ 90 := hupper
    omega
  · exact h

variable {character : Text → Prop} {p q s t : Text}

namespace Like

theorem append {p' t' : Text} (h : Like character p t) (h' : Like character p' t') :
    Like character (p ++ p') (t ++ t') := by
  induction h with
  | nil => exact h'
  | any s _ ih =>
    rw [List.append_assoc]
    exact .any s ih
  | one hs _ ih =>
    rw [List.append_assoc]
    exact .one hs ih
  | char hplain hcase _ ih => exact .char hplain hcase ih

theorem any_iff : Like character ('%' :: p) t ↔ ∃ s t', t = s ++ t' ∧ Like character p t' := by
  constructor
  · intro h
    cases h with
    | any s h => exact ⟨s, _, rfl, h⟩
    | char hplain _ _ => exact absurd rfl hplain.1
  · rintro ⟨s, t', rfl, h⟩
    exact .any s h

theorem char_iff {c : Char} (hplain : c ≠ '%' ∧ c ≠ '_') :
    Like character (c :: p) t ↔ ∃ d t', t = d :: t' ∧ c.toLower = d.toLower ∧ Like character p t' := by
  constructor
  · intro h
    cases h with
    | any s h => exact absurd rfl hplain.1
    | one hs h => exact absurd rfl hplain.2
    | char _ hcase h => exact ⟨_, _, rfl, hcase, h⟩
  · rintro ⟨d, t', rfl, hcase, h⟩
    exact .char hplain hcase h

theorem of_foldCase_eq (hcharacter : Characters character) (h : foldCase q = foldCase t) : Like character q t := by
  induction q generalizing t with
  | nil =>
    obtain rfl := List.map_eq_nil_iff.mp h.symm
    exact .nil
  | cons c q ih =>
    obtain ⟨d, t, rfl, hcase, hrest⟩ := List.map_eq_cons_iff.mp h.symm
    by_cases hpercent : c = '%'
    · subst hpercent
      exact .any [d] (ih hrest.symm)
    · by_cases hunder : c = '_'
      · subst hunder
        obtain rfl := eq_underscore hcase
        exact .one (s := ['_']) (hcharacter.ascii '_' (by decide)) (ih hrest.symm)
      · exact .char ⟨hpercent, hunder⟩ hcase.symm (ih hrest.symm)

theorem of_contains (hcharacter : Characters character) (h : Contains q t) :
    Like character ('%' :: (q ++ ['%'])) t := by
  obtain ⟨a, b, htext⟩ := h
  obtain ⟨t₁, t₃, rfl, hleft, -⟩ := List.map_eq_append_iff.mp htext.symm
  obtain ⟨t₁, t₂, rfl, -, hword⟩ := List.map_eq_append_iff.mp hleft
  have hend : Like character ['%'] t₃ := by
    rw [← List.append_nil t₃]
    exact .any t₃ .nil
  rw [List.append_assoc]
  exact .any t₁ ((of_foldCase_eq hcharacter hword.symm).append hend)

theorem plain_append (hplain : ∀ c ∈ q, c ≠ '%' ∧ c ≠ '_') (h : Like character (q ++ p) t) :
    ∃ t₁ t₂, t = t₁ ++ t₂ ∧ foldCase q = foldCase t₁ ∧ Like character p t₂ := by
  induction q generalizing t with
  | nil => exact ⟨[], t, rfl, rfl, h⟩
  | cons c q ih =>
    rw [List.forall_mem_cons] at hplain
    obtain ⟨d, t', rfl, hcase, hrest⟩ := (char_iff hplain.1).mp h
    obtain ⟨t₁, t₂, rfl, hfold, hlike⟩ := ih hplain.2 hrest
    refine ⟨d :: t₁, t₂, rfl, ?_, hlike⟩
    rw [foldCase, foldCase, List.map_cons, List.map_cons, hcase]
    exact congrArg _ hfold

theorem contains (hplain : ∀ c ∈ q, c ≠ '%' ∧ c ≠ '_') (h : Like character ('%' :: (q ++ ['%'])) t) :
    Contains q t := by
  obtain ⟨s, t', rfl, hrest⟩ := any_iff.mp h
  obtain ⟨t₁, t₂, rfl, hfold, -⟩ := plain_append hplain hrest
  refine ⟨foldCase s, foldCase t₂, ?_⟩
  rw [foldCase_append, foldCase_append, hfold, List.append_assoc]

end Like

def replaceWildcard (c : Char) : Char := if c = '%' ∨ c = '_' then 'x' else c

def deceive (q : Text) : Text := q.map replaceWildcard

theorem like_deceive (hcharacter : Characters character) (q : Text) : Like character q (deceive q) := by
  induction q with
  | nil => exact .nil
  | cons c q ih =>
    rw [deceive, List.map_cons, replaceWildcard]
    by_cases hpercent : c = '%'
    · subst hpercent
      exact .any ['x'] ih
    · by_cases hunder : c = '_'
      · subst hunder
        exact .one (s := ['x']) (hcharacter.ascii 'x' (by decide)) ih
      · rw [if_neg (by simp [hpercent, hunder])]
        exact .char ⟨hpercent, hunder⟩ rfl ih

theorem not_contains_deceive {c : Char} (hc : c ∈ q) (hwild : c = '%' ∨ c = '_') : ¬ Contains q (deceive q) := by
  intro h
  have hlength : (foldCase q).length = (foldCase (deceive q)).length := by
    simp only [foldCase, deceive, List.length_map]
  have hall : ∀ d ∈ q, d.toLower = (replaceWildcard d).toLower := by
    have hfold := h.eq_of_length hlength
    rw [foldCase, foldCase, deceive, List.map_map] at hfold
    exact List.map_inj_left.mp hfold
  have hcase := hall c hc
  rw [replaceWildcard, if_pos hwild] at hcase
  rcases hwild with rfl | rfl
  · exact absurd hcase (by decide)
  · exact absurd hcase (by decide)

end Bingit.Sql
