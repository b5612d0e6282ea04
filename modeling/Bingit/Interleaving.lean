import Mathlib.Data.List.Basic
import Mathlib.Logic.Relation
import Mathlib.Tactic.Common

namespace Bingit.Interleaving

variable {Op : Type} {Ret : Op → Type} {α β : Type}

-- why a program does not return: it goes on for ever, an exception leaves it, or nothing is defined any more
inductive Failure where
  | endless
  | thrown
  | undefined
  deriving DecidableEq

/-- Asks for operations and goes on with their answers. -/
inductive Prog (Ret : Op → Type) (α : Type) where
  | pure (a : α)
  | fail (how : Failure)
  | call (op : Op) (next : Ret op → Prog Ret α)

namespace Prog

def bind : Prog Ret α → (α → Prog Ret β) → Prog Ret β
  | .pure a, f => f a
  | .fail how, _ => .fail how
  | .call op next, f => .call op (fun r => (next r).bind f)

instance : Monad (Prog Ret) where
  pure := .pure
  bind := .bind

def perform (op : Op) : Prog Ret (Ret op) := .call op .pure

def ofOption (how : Failure) : Option α → Prog Ret α
  | some a => .pure a
  | none => .fail how

def value : Prog Ret α → Option α
  | .pure a => some a
  | _ => none

theorem eq_pure_of_value {p : Prog Ret α} {a : α} (h : p.value = some a) : p = .pure a := by
  cases p with
  | pure b => exact congrArg Prog.pure (Option.some.inj h)
  | fail => contradiction
  | call op next => contradiction

@[simp] theorem bind_pure (a : α) (f : α → Prog Ret β) : ((Prog.pure a : Prog Ret α) >>= f) = f a := rfl

/-- Whatever the answers, `P` holds of the calls and `Q` of the result. -/
def Ensures (P : Op → Prop) (Q : α → Prop) : Prog Ret α → Prop
  | .pure a => Q a
  | .fail _ => True
  | .call op next => P op ∧ ∀ r, (next r).Ensures P Q

variable {P : Op → Prop} {Q : α → Prop} {R : β → Prop}

theorem ensures_ofOption {how : Failure} {o : Option α} {f : α → Prog Ret β} (h : ∀ a ∈ o, (f a).Ensures P R) :
    (ofOption how o >>= f).Ensures P R := by
  cases o with
  | none => trivial
  | some a => exact h a rfl

theorem ensures_bind {p : Prog Ret α} {f : α → Prog Ret β} (hp : p.Ensures P Q)
    (hf : ∀ a, Q a → (f a).Ensures P R) : (p >>= f).Ensures P R := by
  induction p with
  | pure a => exact hf a hp
  | fail => trivial
  | call op next ih => exact ⟨hp.1, fun r => ih r (hp.2 r)⟩

theorem Ensures.mono {P' : Op → Prop} (hP : ∀ op, P op → P' op) {p : Prog Ret α} (h : p.Ensures P Q) :
    p.Ensures P' Q := by
  induction p with
  | pure a => exact h
  | fail => trivial
  | call op next ih => exact ⟨hP op h.1, fun r => ih r (h.2 r)⟩

def Defined : Prog Ret α → Prop
  | .pure _ => True
  | .fail how => how ≠ .undefined
  | .call _ next => ∀ r, (next r).Defined

theorem defined_map (p : Prog Ret α) (g : α → β) : (p >>= fun a => pure (g a)).Defined ↔ p.Defined := by
  induction p with
  | pure a => exact Iff.rfl
  | fail how => exact Iff.rfl
  | call op next ih => exact forall_congr' ih

theorem ensures_map (p : Prog Ret α) (g : α → β) :
    (p >>= fun a => pure (g a)).Ensures P R ↔ p.Ensures P (fun a => R (g a)) := by
  induction p with
  | pure a => exact Iff.rfl
  | fail how => exact Iff.rfl
  | call op next ih => exact and_congr_right fun _ => forall_congr' ih

/-- The calls with a tag are those tagged `ts`, in order. -/
def Issues {τ : Type} (tag : Op → Option τ) : Prog Ret α → List τ → Prop
  | .pure _, ts => ts = []
  | .fail _, _ => True
  | .call op next, ts => ∃ rest, ts = (tag op).toList ++ rest ∧ ∀ r, (next r).Issues tag rest

variable {τ : Type} {tag : Op → Option τ} {ts us : List τ}

theorem issues_ofOption {how : Failure} {o : Option α} {f : α → Prog Ret β} (h : ∀ a ∈ o, (f a).Issues tag ts) :
    (ofOption how o >>= f).Issues tag ts := by
  cases o with
  | none => trivial
  | some a => exact h a rfl

theorem issues_bind {p : Prog Ret α} {f : α → Prog Ret β} (hp : p.Issues tag ts) (hf : ∀ a, (f a).Issues tag us) :
    (p >>= f).Issues tag (ts ++ us) := by
  induction p generalizing ts with
  | pure a =>
    obtain rfl : ts = [] := hp
    exact hf a
  | fail => trivial
  | call op next ih =>
    obtain ⟨rest, rfl, hnext⟩ := hp
    exact ⟨rest ++ us, List.append_assoc .., fun r => ih r (hnext r)⟩

end Prog

abbrev Event (Ret : Op → Type) := (op : Op) × Ret op

inductive Path : Prog Ret α → List (Event Ret) → Prog Ret α → Prop
  | nil (p : Prog Ret α) : Path p [] p
  | call {op : Op} {next : Ret op → Prog Ret α} {r : Ret op} {es : List (Event Ret)} {q : Prog Ret α}
      (h : Path (next r) es q) : Path (.call op next) (⟨op, r⟩ :: es) q

namespace Path

theorem concat {p q : Prog Ret α} {es : List (Event Ret)} {op : Op} {next : Ret op → Prog Ret α} (r : Ret op)
    (h : Path p es q) (hq : q = .call op next) : Path p (es ++ [⟨op, r⟩]) (next r) := by
  induction h with
  | nil p => subst hq; exact .call (.nil _)
  | call h ih => exact .call (ih hq)

theorem bind {p : Prog Ret α} {a : α} {f : α → Prog Ret β} {q : Prog Ret β} {es fs : List (Event Ret)}
    (h : Path p es (.pure a)) (h' : Path (f a) fs q) : Path (p >>= f) (es ++ fs) q := by
  generalize hpure : Prog.pure a = p' at h
  induction h with
  | nil p => subst hpure; exact h'
  | call _ ih => exact .call (ih hpure)

theorem det {p q q' : Prog Ret α} {es : List (Event Ret)} (h : Path p es q) (h' : Path p es q') : q = q' := by
  induction h with
  | nil p => cases h'; rfl
  | call _ ih => cases h' with | call h' => exact ih h'

theorem pure_inv {a : α} {es : List (Event Ret)} {q : Prog Ret α} (h : Path (.pure a) es q) :
    es = [] ∧ q = .pure a := by
  cases h; exact ⟨rfl, rfl⟩

theorem fail_inv {how : Failure} {es : List (Event Ret)} {q : Prog Ret α} (h : Path (.fail how) es q) :
    es = [] ∧ q = .fail how := by
  cases h; exact ⟨rfl, rfl⟩

theorem call_inv {op : Op} {next : Ret op → Prog Ret α} {es : List (Event Ret)} {q : Prog Ret α}
    (h : Path (.call op next) es q) :
    (es = [] ∧ q = .call op next) ∨ ∃ r es', es = ⟨op, r⟩ :: es' ∧ Path (next r) es' q := by
  cases h with
  | nil => exact .inl ⟨rfl, rfl⟩
  | call h => exact .inr ⟨_, _, rfl, h⟩

theorem bind_inv {p : Prog Ret α} {f : α → Prog Ret β} {es : List (Event Ret)} {q : Prog Ret β}
    (h : Path (p >>= f) es q) :
    (∃ p', Path p es p' ∧ q = p' >>= f) ∨
      ∃ a es₁ es₂, es = es₁ ++ es₂ ∧ Path p es₁ (.pure a) ∧ Path (f a) es₂ q := by
  induction p generalizing es with
  | pure a => exact .inr ⟨a, [], es, rfl, .nil _, h⟩
  | fail how =>
    obtain ⟨rfl, rfl⟩ := fail_inv h
    exact .inl ⟨.fail how, .nil _, rfl⟩
  | call op next ih =>
    rcases call_inv h with ⟨rfl, rfl⟩ | ⟨r, es', rfl, h'⟩
    · exact .inl ⟨.call op next, .nil _, rfl⟩
    · rcases ih r h' with ⟨p', hp, rfl⟩ | ⟨a, es₁, es₂, rfl, hp, hf⟩
      · exact .inl ⟨p', .call hp, rfl⟩
      · exact .inr ⟨a, _, es₂, rfl, .call hp, hf⟩

theorem bind_pure_inv {p : Prog Ret α} {f : α → Prog Ret β} {es : List (Event Ret)} {b : β}
    (h : Path (p >>= f) es (.pure b)) :
    ∃ a es₁ es₂, es = es₁ ++ es₂ ∧ Path p es₁ (.pure a) ∧ Path (f a) es₂ (.pure b) := by
  rcases bind_inv h with ⟨p', hp, hq⟩ | hdone
  · cases p' with
    | pure a => exact ⟨a, es, [], (List.append_nil es).symm, hp, hq ▸ .nil _⟩
    | fail => contradiction
    | call op next => contradiction
  · exact hdone

theorem ofOption_inv {how : Failure} {o : Option α} {f : α → Prog Ret β} {es : List (Event Ret)} {b : β}
    (h : Path (.ofOption how o >>= f) es (.pure b)) : ∃ a, o = some a ∧ Path (f a) es (.pure b) := by
  cases o with
  | none =>
    obtain ⟨-, hne⟩ := fail_inv h
    contradiction
  | some a => exact ⟨a, rfl, h⟩

theorem call_pure_inv {op : Op} {next : Ret op → Prog Ret α} {es : List (Event Ret)} {a : α}
    (h : Path (.call op next) es (.pure a)) : ∃ r es', es = ⟨op, r⟩ :: es' ∧ Path (next r) es' (.pure a) := by
  rcases call_inv h with ⟨-, hne⟩ | hrest
  · contradiction
  · exact hrest

theorem ensures {P : Op → Prop} {Q : α → Prop} {p q : Prog Ret α} {es : List (Event Ret)}
    (h : Path p es q) (hp : p.Ensures P Q) : (∀ e ∈ es, P e.1) ∧ q.Ensures P Q := by
  induction h with
  | nil p => exact ⟨by simp, hp⟩
  | call _ ih =>
    obtain ⟨hes, hq⟩ := ih (hp.2 _)
    exact ⟨List.forall_mem_cons.mpr ⟨hp.1, hes⟩, hq⟩

theorem issues {τ : Type} {tag : Op → Option τ} {ts : List τ} {p q : Prog Ret α} {es : List (Event Ret)}
    (h : Path p es q) (hp : p.Issues tag ts) :
    ∃ rest, ts = es.filterMap (fun e => tag e.1) ++ rest ∧ q.Issues tag rest := by
  induction h generalizing ts with
  | nil p => exact ⟨ts, rfl, hp⟩
  | @call op next r es q _ ih =>
    obtain ⟨rest, rfl, hnext⟩ := hp
    obtain ⟨left, rfl, hq⟩ := ih (hnext r)
    refine ⟨left, ?_, hq⟩
    cases htag : tag op <;> simp [htag]

end Path

theorem map_set_of_eq {τ υ : Type} {f : τ → υ} {xs : List τ} {i : ℕ} {y z : τ} (hi : xs[i]? = some z)
    (hf : f y = f z) : (xs.set i y).map f = xs.map f := by
  apply List.ext_getElem?
  intro j
  rw [List.map_set]
  by_cases hij : i = j
  · subst hij
    have hlt := (List.getElem?_eq_some_iff.mp hi).1
    rw [List.getElem?_set_self (by rwa [List.length_map]), List.getElem?_map, hi, Option.map_some, hf]
  · rw [List.getElem?_set_ne hij]

theorem getElem?_concat_cases {τ : Type} {xs : List τ} {x y : τ} {n : ℕ} (h : (xs ++ [x])[n]? = some y) :
    xs[n]? = some y ∨ n = xs.length ∧ x = y := by
  by_cases hn : n < xs.length
  · rw [List.getElem?_append_left hn] at h
    exact .inl h
  · have hlast : n = xs.length := by
      have hlength := (List.getElem?_eq_some_iff.mp h).1
      simp only [List.length_append, List.length_singleton] at hlength
      omega
    subst hlast
    rw [List.getElem?_concat_length] at h
    exact .inr ⟨rfl, Option.some.inj h⟩

theorem getElem?_set_cases {τ : Type} {xs : List τ} {i j : ℕ} {x y : τ} (h : (xs.set i x)[j]? = some y) :
    i = j ∧ x = y ∨ i ≠ j ∧ xs[j]? = some y := by
  by_cases hij : i = j
  · subst hij
    have hlt := (List.getElem?_eq_some_iff.mp h).1
    rw [List.length_set] at hlt
    rw [List.getElem?_set_self hlt] at h
    exact .inl ⟨rfl, Option.some.inj h⟩
  · rw [List.getElem?_set_ne hij] at h
    exact .inr ⟨hij, h⟩

section Pool

variable {σ ι : Type}

structure Pool (Ret : Op → Type) (σ ι α : Type) where
  shared : σ
  threads : List (ι × Prog Ret α)
  trace : List (ℕ × Event Ret)

def Pool.initial (s : σ) : Pool Ret σ ι α := ⟨s, [], []⟩

def eventsOf (i : ℕ) (trace : List (ℕ × Event Ret)) : List (Event Ret) :=
  (trace.filter (fun e => e.1 = i)).map Prod.snd

variable (exec : (op : Op) → σ → σ × Ret op) (start : ι → Prog Ret α)

inductive Step : Pool Ret σ ι α → Pool Ret σ ι α → Prop
  | spawn (c : Pool Ret σ ι α) (x : ι) : Step c { c with threads := c.threads ++ [(x, start x)] }
  | run (c : Pool Ret σ ι α) {i : ℕ} {x : ι} {op : Op} {next : Ret op → Prog Ret α}
      (h : c.threads[i]? = some (x, .call op next)) :
      Step c
        { shared := (exec op c.shared).1
          threads := c.threads.set i (x, next (exec op c.shared).2)
          trace := c.trace ++ [(i, ⟨op, (exec op c.shared).2⟩)] }

def Reachable (s : σ) (c : Pool Ret σ ι α) : Prop := Relation.ReflTransGen (Step exec start) (.initial s) c

def replay (s : σ) (es : List (Event Ret)) : σ := es.foldl (fun s e => (exec e.1 s).1) s

@[simp] theorem replay_nil (s : σ) : replay exec s ([] : List (Event Ret)) = s := rfl

theorem replay_append (s : σ) (es fs : List (Event Ret)) :
    replay exec s (es ++ fs) = replay exec (replay exec s es) fs := List.foldl_append

variable {exec start}

theorem Reachable.shared_eq {s : σ} {c : Pool Ret σ ι α} (h : Reachable exec start s c) :
    c.shared = replay exec s (c.trace.map Prod.snd) := by
  induction h with
  | refl => rfl
  | tail _ hstep ih =>
    cases hstep with
    | spawn x => exact ih
    | run hi =>
      rw [List.map_append, replay_append, ← ih]
      rfl

theorem Reachable.answer {s : σ} {c : Pool Ret σ ι α} (h : Reachable exec start s c)
    {before after : List (ℕ × Event Ret)} {i : ℕ} {e : Event Ret} (ht : c.trace = before ++ (i, e) :: after) :
    e.2 = (exec e.1 (replay exec s (before.map Prod.snd))).2 := by
  induction h generalizing after with
  | refl => simp [Pool.initial] at ht
  | @tail b c hb hstep ih =>
    cases hstep with
    | spawn x => exact ih ht
    | @run j x op next hi =>
      rcases List.eq_nil_or_concat after with rfl | ⟨after', last, rfl⟩
      · obtain ⟨rfl, hlast⟩ := List.append_inj' ht rfl
        obtain ⟨-, rfl⟩ := Prod.mk.inj (List.cons.inj hlast).1
        rw [← Reachable.shared_eq hb]
      · rw [List.concat_eq_append, ← List.cons_append, ← List.append_assoc] at ht
        exact ih (List.append_inj' ht rfl).1

variable (exec) in
def Answered : σ → List (Event Ret) → Prop
  | _, [] => True
  | s, e :: es => e.2 = (exec e.1 s).2 ∧ Answered (exec e.1 s).1 es

theorem answered_concat {s : σ} {es : List (Event Ret)} (h : Answered exec s es) (op : Op) :
    Answered exec s (es ++ [⟨op, (exec op (replay exec s es)).2⟩]) := by
  induction es generalizing s with
  | nil => exact ⟨rfl, trivial⟩
  | cons e es ih => exact ⟨h.1, ih h.2⟩

variable (exec) in
/-- It returns `a` when nothing comes between its operations. -/
def Returns (s : σ) (p : Prog Ret α) (a : α) : Prop := ∃ es, Path p es (.pure a) ∧ Answered exec s es

variable (exec) in
def ReturnsIn (s : σ) (p : Prog Ret α) (a : α) (s' : σ) : Prop :=
  ∃ es, Path p es (.pure a) ∧ Answered exec s es ∧ replay exec s es = s'

theorem returnsIn_pure (s : σ) (a : α) : ReturnsIn exec s (Prog.pure a : Prog Ret α) a s := ⟨[], .nil _, trivial, rfl⟩

theorem ReturnsIn.call {s s' : σ} {op : Op} {next : Ret op → Prog Ret α} {a : α}
    (h : ReturnsIn exec (exec op s).1 (next (exec op s).2) a s') : ReturnsIn exec s (.call op next) a s' := by
  obtain ⟨es, hpath, hes, hs'⟩ := h
  exact ⟨_, .call hpath, ⟨rfl, hes⟩, hs'⟩

theorem returns_pure_iff {s : σ} {a b : α} : Returns exec s (Prog.pure a : Prog Ret α) b ↔ b = a := by
  constructor
  · rintro ⟨es, hpath, -⟩
    exact Prog.pure.inj (Path.pure_inv hpath).2
  · rintro rfl
    exact ⟨[], .nil _, trivial⟩

theorem returns_call_iff {s : σ} {op : Op} {next : Ret op → Prog Ret α} {a : α} :
    Returns exec s (.call op next) a ↔ Returns exec (exec op s).1 (next (exec op s).2) a := by
  constructor
  · rintro ⟨es, hpath, hes⟩
    obtain ⟨r, es', rfl, hrest⟩ := Path.call_pure_inv hpath
    obtain ⟨hanswer, hes'⟩ := hes
    have hr : r = (exec op s).2 := hanswer
    rw [hr] at hrest
    exact ⟨es', hrest, hes'⟩
  · rintro ⟨es, hpath, hes⟩
    exact ⟨_, .call hpath, rfl, hes⟩

theorem Reachable.answered {s : σ} {c : Pool Ret σ ι α} (h : Reachable exec start s c) :
    Answered exec s (c.trace.map Prod.snd) := by
  induction h with
  | refl => trivial
  | @tail b c hb hstep ih =>
    cases hstep with
    | spawn x => exact ih
    | @run i x op next hi =>
      have hconcat := answered_concat ih op
      rw [← Reachable.shared_eq hb] at hconcat
      simpa using hconcat

theorem eventsOf_concat (i j : ℕ) (e : Event Ret) (trace : List (ℕ × Event Ret)) :
    eventsOf i (trace ++ [(j, e)]) = if j = i then eventsOf i trace ++ [e] else eventsOf i trace := by
  by_cases h : j = i <;> simp [eventsOf, h]

theorem eventsOf_append (i : ℕ) (s t : List (ℕ × Event Ret)) :
    eventsOf i (s ++ t) = eventsOf i s ++ eventsOf i t := by
  simp [eventsOf]

theorem exists_of_eventsOf_cons {i : ℕ} {trace : List (ℕ × Event Ret)} {e : Event Ret} {es : List (Event Ret)}
    (h : eventsOf i trace = e :: es) :
    ∃ before after, trace = before ++ (i, e) :: after ∧ eventsOf i before = [] ∧ eventsOf i after = es := by
  induction trace with
  | nil => simp [eventsOf] at h
  | cons f trace ih =>
    obtain ⟨j, f⟩ := f
    by_cases hj : j = i
    · subst hj
      rw [eventsOf, List.filter_cons_of_pos (by simp), List.map_cons] at h
      obtain ⟨rfl, hes⟩ := List.cons.inj h
      exact ⟨[], trace, rfl, rfl, hes⟩
    · rw [eventsOf, List.filter_cons_of_neg (by simpa using hj)] at h
      obtain ⟨before, after, rfl, hbefore, hafter⟩ := ih h
      refine ⟨(j, f) :: before, after, rfl, ?_, hafter⟩
      rw [eventsOf, List.filter_cons_of_neg (by simpa using hj)]
      exact hbefore

theorem exists_before {i : ℕ} {trace : List (ℕ × Event Ret)} {f : Event Ret} {es fs : List (Event Ret)}
    (h : eventsOf i trace = f :: (es ++ fs)) (hes : es.length ≤ 1) :
    ∃ before, before <+: trace ∧ eventsOf i before = [f] ∧
      ∀ e ∈ es, ∃ after, trace = before ++ (i, e) :: after := by
  obtain ⟨s, t, rfl, hs, ht⟩ := exists_of_eventsOf_cons h
  have hfirst (u : List (ℕ × Event Ret)) (hu : eventsOf i u = []) : eventsOf i (s ++ (i, f) :: u) = [f] := by
    rw [eventsOf_append, hs]
    simpa [eventsOf] using hu
  match es with
  | [] => exact ⟨s ++ [(i, f)], ⟨t, by simp⟩, hfirst [] rfl, by simp⟩
  | [e] =>
    obtain ⟨u, v, rfl, hu, -⟩ := exists_of_eventsOf_cons ht
    have htrace : s ++ (i, f) :: (u ++ (i, e) :: v) = (s ++ (i, f) :: u) ++ (i, e) :: v := by simp
    refine ⟨s ++ (i, f) :: u, ⟨(i, e) :: v, htrace.symm⟩, hfirst u hu, ?_⟩
    intro e' he'
    obtain rfl := List.mem_singleton.mp he'
    exact ⟨v, htrace⟩

variable (start) in
def Follows (c : Pool Ret σ ι α) : Prop :=
  (∀ i x p, c.threads[i]? = some (x, p) → Path (start x) (eventsOf i c.trace) p) ∧
    ∀ i, c.threads.length ≤ i → eventsOf i c.trace = []

theorem Follows.spawn {c : Pool Ret σ ι α} (h : Follows start c) (x : ι) :
    Follows start { c with threads := c.threads ++ [(x, start x)] } := by
  obtain ⟨hpath, hnone⟩ := h
  constructor
  · intro i y p hi
    by_cases hlt : i < c.threads.length
    · rw [List.getElem?_append_left hlt] at hi
      exact hpath i y p hi
    · have hlast : i = c.threads.length := by
        have := (List.getElem?_eq_some_iff.mp hi).1
        simp only [List.length_append, List.length_singleton] at this
        omega
      subst hlast
      simp only [List.getElem?_concat_length, Option.some.injEq, Prod.mk.injEq] at hi
      obtain ⟨rfl, rfl⟩ := hi
      rw [hnone _ (Nat.le_refl _)]
      exact .nil _
  · intro i hi
    apply hnone
    simp only [List.length_append, List.length_singleton] at hi
    omega

theorem Follows.run {c : Pool Ret σ ι α} (h : Follows start c) {j : ℕ} {x : ι} {op : Op} {next : Ret op → Prog Ret α}
    (hj : c.threads[j]? = some (x, .call op next)) (s : σ) (r : Ret op) :
    Follows start ⟨s, c.threads.set j (x, next r), c.trace ++ [(j, ⟨op, r⟩)]⟩ := by
  obtain ⟨hpath, hnone⟩ := h
  have hjlt := (List.getElem?_eq_some_iff.mp hj).1
  constructor
  · intro i y p hi
    rw [eventsOf_concat]
    by_cases hij : j = i
    · subst hij
      rw [List.getElem?_set_self hjlt, Option.some.injEq, Prod.mk.injEq] at hi
      obtain ⟨rfl, rfl⟩ := hi
      rw [if_pos rfl]
      exact (hpath j _ _ hj).concat r rfl
    · rw [List.getElem?_set_ne hij] at hi
      rw [if_neg hij]
      exact hpath i y p hi
  · intro i hi
    rw [List.length_set] at hi
    rw [eventsOf_concat, if_neg (by omega)]
    exact hnone i hi

theorem Reachable.path {s : σ} {c : Pool Ret σ ι α} (h : Reachable exec start s c) : Follows start c := by
  induction h with
  | refl => exact ⟨by simp [Pool.initial], fun _ _ => rfl⟩
  | tail _ hstep ih =>
    cases hstep with
    | spawn x => exact ih.spawn x
    | run hi => exact ih.run hi _ _

theorem Reachable.thread {s : σ} {c : Pool Ret σ ι α} (h : Reachable exec start s c) {i : ℕ} {e : Event Ret}
    (he : (i, e) ∈ c.trace) :
    ∃ x p, c.threads[i]? = some (x, p) ∧ Path (start x) (eventsOf i c.trace) p ∧ e ∈ eventsOf i c.trace := by
  obtain ⟨hpath, hnone⟩ := Reachable.path h
  have hevent : e ∈ eventsOf i c.trace := by
    apply List.mem_map.mpr
    exact ⟨(i, e), List.mem_filter.mpr ⟨he, by simp⟩, rfl⟩
  cases hthread : c.threads[i]? with
  | none =>
    rw [hnone i (List.getElem?_eq_none_iff.mp hthread)] at hevent
    contradiction
  | some t => exact ⟨t.1, t.2, rfl, hpath i t.1 t.2 hthread, hevent⟩

variable (exec start) in
def Later (c c' : Pool Ret σ ι α) : Prop := Relation.ReflTransGen (Step exec start) c c'

theorem Later.trace_prefix {c c' : Pool Ret σ ι α} (h : Later exec start c c') : c.trace <+: c'.trace := by
  induction h with
  | refl => exact List.prefix_rfl
  | tail _ hstep ih =>
    cases hstep with
    | spawn x => exact ih
    | run hi => exact ih.trans (List.prefix_append _ _)

theorem Later.thread {c c' : Pool Ret σ ι α} (h : Later exec start c c') {i : ℕ} {x : ι} {p : Prog Ret α}
    (hi : c.threads[i]? = some (x, p)) : ∃ q, c'.threads[i]? = some (x, q) := by
  induction h with
  | refl => exact ⟨p, hi⟩
  | tail _ hstep ih =>
    obtain ⟨q, hq⟩ := ih
    cases hstep with
    | spawn y => exact ⟨q, by rw [List.getElem?_append_left (List.getElem?_eq_some_iff.mp hq).1, hq]⟩
    | @run j y op next hj =>
      by_cases hij : j = i
      · subst hij
        obtain ⟨rfl, -⟩ := Prod.mk.inj (Option.some.inj (hj.symm.trans hq))
        exact ⟨_, List.getElem?_set_self (List.getElem?_eq_some_iff.mp hj).1⟩
      · exact ⟨q, by rw [List.getElem?_set_ne hij, hq]⟩

theorem prefix_of_eventsOf_eq_nil {t before after : List (ℕ × Event Ret)} {i : ℕ} {e : Event Ret}
    (h : t <+: before ++ (i, e) :: after) (ht : eventsOf i t = []) : t <+: before := by
  rcases List.prefix_or_prefix_of_prefix h (List.prefix_append before _) with hle | ⟨rest, rfl⟩
  · exact hle
  · cases rest with
    | nil => exact (List.append_nil before).symm ▸ List.prefix_rfl
    | cons f rest =>
      obtain ⟨rfl, -⟩ := List.cons_prefix_cons.mp ((List.prefix_append_right_inj before).mp h)
      have hnone := (List.append_eq_nil_iff.mp ((eventsOf_append _ _ _).symm.trans ht)).2
      simp [eventsOf] at hnone

theorem Reachable.trace_prefix_before {s : σ} {c c' : Pool Ret σ ι α} (h : Reachable exec start s c)
    (hlater : Later exec start c c') {i : ℕ} (hi : c.threads.length ≤ i) {before after : List (ℕ × Event Ret)}
    {e : Event Ret} (ht : c'.trace = before ++ (i, e) :: after) : c.trace <+: before :=
  prefix_of_eventsOf_eq_nil (ht ▸ hlater.trace_prefix) ((Reachable.path h).2 i hi)

inductive Turn (ι : Type) where
  | spawn (x : ι)
  | run (i : ℕ)

variable (exec start)

def Pool.turn (c : Pool Ret σ ι α) : Turn ι → Pool Ret σ ι α
  | .spawn x => { c with threads := c.threads ++ [(x, start x)] }
  | .run i =>
    match c.threads[i]? with
    | some (x, .call op next) =>
      { shared := (exec op c.shared).1
        threads := c.threads.set i (x, next (exec op c.shared).2)
        trace := c.trace ++ [(i, ⟨op, (exec op c.shared).2⟩)] }
    | _ => c

def Pool.schedule (s : σ) (turns : List (Turn ι)) : Pool Ret σ ι α :=
  turns.foldl (Pool.turn exec start) (.initial s)

variable {exec start}

theorem later_turns (c : Pool Ret σ ι α) (turns : List (Turn ι)) :
    Later exec start c (turns.foldl (Pool.turn exec start) c) := by
  induction turns generalizing c with
  | nil => exact .refl
  | cons t turns ih =>
    refine .trans ?_ (ih (c.turn exec start t))
    cases t with
    | spawn x => exact .single (.spawn c x)
    | run i =>
      rw [Pool.turn]
      split
      · next hi => exact .single (.run c hi)
      · exact .refl

theorem reachable_schedule (s : σ) (turns : List (Turn ι)) :
    Reachable exec start s (Pool.schedule exec start s turns) := later_turns (.initial s) turns

end Pool

end Bingit.Interleaving
