import Mathlib.Data.List.Forall2
import Mathlib.Tactic.Common

namespace Bingit.Streams

variable {α δ : Type}

structure Decoder (α δ : Type) where
  next : List α → Option (δ × List α)
  next_append {s rest : List α} {d : δ} (t : List α) (h : next s = some (d, rest)) : next (s ++ t) = some (d, rest ++ t)
  length_lt {s rest : List α} {d : δ} (h : next s = some (d, rest)) : rest.length < s.length

namespace Decoder

variable (D : Decoder α δ)

def decode (s : List α) : List δ :=
  match h : D.next s with
  | none => []
  | some (d, rest) =>
    have := D.length_lt h
    d :: decode rest
termination_by s.length

theorem decode_of_none {s : List α} (h : D.next s = none) : D.decode s = [] := by
  rw [decode]
  split
  · rfl
  · next h' => rw [h] at h'; contradiction

theorem decode_of_some {s rest : List α} {d : δ} (h : D.next s = some (d, rest)) :
    D.decode s = d :: D.decode rest := by
  rw [decode]
  split
  · next h' => rw [h] at h'; contradiction
  · next h' =>
    obtain ⟨rfl, rfl⟩ := Prod.mk.inj (Option.some.inj (h.symm.trans h'))
    rfl

theorem decode_prefix {s t : List α} (h : s <+: t) : D.decode s <+: D.decode t := by
  obtain ⟨u, rfl⟩ := h
  induction s using decode.induct D with
  | case1 s hnone =>
    rw [D.decode_of_none hnone]
    exact List.nil_prefix
  | case2 s d rest hsome _ ih =>
    rw [D.decode_of_some hsome, D.decode_of_some (D.next_append u hsome)]
    exact (List.prefix_cons_inj d).mpr ih

def Encodes (m : List α) (d : δ) : Prop := D.next m = some (d, [])

variable {D}

theorem decode_flatten {ms : List (List α)} {ds : List δ} (h : List.Forall₂ D.Encodes ms ds) :
    D.decode ms.flatten = ds := by
  induction h with
  | nil =>
    apply D.decode_of_none
    rw [Option.eq_none_iff_forall_ne_some]
    rintro ⟨d, rest⟩ hsome
    exact Nat.not_lt_zero _ (D.length_lt hsome)
  | @cons m d ms ds hm _ ih =>
    rw [List.flatten_cons, D.decode_of_some (D.next_append ms.flatten hm), List.nil_append, ih]

theorem decode_prefix_flatten {ms : List (List α)} {ds : List δ} (h : List.Forall₂ D.Encodes ms ds) {s : List α}
    (hs : s <+: ms.flatten) : D.decode s <+: ds :=
  decode_flatten h ▸ D.decode_prefix hs

end Decoder

end Bingit.Streams
