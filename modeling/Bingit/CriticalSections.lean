import Bingit.Interleaving
import Mathlib.Logic.Function.Basic

namespace Bingit.Locking

open Interleaving

variable {Op : Type} {Ret : Op → Type} {Lock σ ι α ρ : Type}

/-- What comes after a step depends on the state before it. -/
inductive Block (σ ρ : Type) where
  | done (r : ρ)
  | step (f : σ → σ) (next : σ → Block σ ρ)

namespace Block

def run : Block σ ρ → σ → σ × ρ
  | .done r, s => (s, r)
  | .step f next, s => (next s).run (f s)

def Reads : Block σ ρ → Prop
  | .done _ => True
  | .step f next => ∀ s, f s = s ∧ (next s).Reads

variable {κ : Lock → Type} (view : (m : Lock) → σ → κ m)

/-- The block sees and changes only what `m` guards. -/
def Local (m : Lock) : Block σ ρ → Prop
  | .done _ => True
  | .step f next =>
    (∀ s m', m' ≠ m → view m' (f s) = view m' s) ∧
    (∀ s t, view m s = view m t → view m (f s) = view m (f t) ∧ next s = next t) ∧ ∀ s, (next s).Local m

variable {view}

theorem run_of_reads {b : Block σ ρ} (h : b.Reads) (s : σ) : (b.run s).1 = s := by
  induction b generalizing s with
  | done r => rfl
  | step f next ih =>
    obtain ⟨hf, hnext⟩ := h s
    exact (ih s hnext (f s)).trans hf

theorem run_other {m : Lock} {b : Block σ ρ} (h : b.Local view m) (s : σ) {m' : Lock} (hm : m' ≠ m) :
    view m' (b.run s).1 = view m' s := by
  induction b generalizing s with
  | done r => rfl
  | step f next ih => exact (ih s (h.2.2 s) (f s)).trans (h.1 s m' hm)

theorem run_congr {m : Lock} {b : Block σ ρ} (h : b.Local view m) {s t : σ} (hst : view m s = view m t) :
    view m (b.run s).1 = view m (b.run t).1 ∧ (b.run s).2 = (b.run t).2 := by
  induction b generalizing s t with
  | done r => exact ⟨hst, rfl⟩
  | step f next ih =>
    obtain ⟨hview, hnext⟩ := h.2.1 s t hst
    simp only [run, ← hnext]
    exact ih s (h.2.2 s) hview

end Block

inductive Thread (Ret : Op → Type) (σ α : Type) where
  | outside (p : Prog Ret α)
  | inside (op : Op) (rest : Block σ (Ret op)) (next : Ret op → Prog Ret α)

def Thread.prog : Thread Ret σ α → Prog Ret α
  | .outside p => p
  | .inside op _ next => .call op next

def Thread.holds (guard : Op → Option Lock) : Thread Ret σ α → Option Lock
  | .outside _ => none
  | .inside op _ _ => guard op

def holdsAt (guard : Op → Option Lock) (threads : List (ι × Thread Ret σ α)) (i : ℕ) : Option Lock :=
  threads[i]?.bind fun t => t.2.holds guard

section

variable {guard : Op → Option Lock} {threads : List (ι × Thread Ret σ α)} {i j : ℕ} {x : ι} {t : Thread Ret σ α}

theorem holdsAt_of_getElem? (hi : threads[i]? = some (x, t)) : holdsAt guard threads i = t.holds guard := by
  rw [holdsAt, hi]
  rfl

theorem holdsAt_set (hi : threads[i]? = some (x, t)) (y : ι) (t' : Thread Ret σ α) :
    holdsAt guard (threads.set i (y, t')) j = if i = j then t'.holds guard else holdsAt guard threads j := by
  rw [holdsAt]
  split_ifs with hij
  · subst hij
    rw [List.getElem?_set_self (List.getElem?_eq_some_iff.mp hi).1]
    rfl
  · rw [List.getElem?_set_ne hij]
    rfl

theorem holdsAt_set_same (hi : threads[i]? = some (x, t)) (y : ι) (t' : Thread Ret σ α)
    (ht : t'.holds guard = t.holds guard) : holdsAt guard (threads.set i (y, t')) j = holdsAt guard threads j := by
  rw [holdsAt_set hi]
  split_ifs with hij
  · rw [ht, ← hij, holdsAt_of_getElem? hi]
  · rfl

theorem holdsAt_spawn (threads : List (ι × Thread Ret σ α)) (y : ι) (p : Prog Ret α) :
    holdsAt guard (threads ++ [(y, .outside p)]) j = holdsAt guard threads j := by
  rw [holdsAt, holdsAt, List.getElem?_append]
  split_ifs with hj
  · rfl
  · rw [List.getElem?_eq_none_iff.mpr (Nat.le_of_not_lt hj), List.getElem?_singleton]
    split_ifs <;> rfl

end

structure Locked (Ret : Op → Type) (Lock σ ι α : Type) where
  shared : σ
  owner : Lock → Option ℕ
  threads : List (ι × Thread Ret σ α)
  trace : List (ℕ × Event Ret)

def Locked.initial (s : σ) : Locked Ret Lock σ ι α := ⟨s, fun _ => none, [], []⟩

def Locked.pool (c : Locked Ret Lock σ ι α) : Pool Ret σ ι α :=
  ⟨c.shared, c.threads.map fun t => (t.1, t.2.prog), c.trace⟩

theorem getElem?_pool {c : Locked Ret Lock σ ι α} {i : ℕ} {x : ι} {t : Thread Ret σ α}
    (hi : c.threads[i]? = some (x, t)) : c.pool.threads[i]? = some (x, t.prog) := by
  rw [Locked.pool, List.getElem?_map, hi, Option.map_some]

theorem pool_set (c : Locked Ret Lock σ ι α) (i : ℕ) (x : ι) (t : Thread Ret σ α) :
    (c.threads.set i (x, t)).map (fun t => (t.1, t.2.prog)) = c.pool.threads.set i (x, t.prog) := List.map_set

theorem pool_set_same {c : Locked Ret Lock σ ι α} {i : ℕ} {x : ι} {t : Thread Ret σ α}
    (hi : c.threads[i]? = some (x, t)) (t' : Thread Ret σ α) (ht : t'.prog = t.prog) :
    (c.threads.set i (x, t')).map (fun t => (t.1, t.2.prog)) = c.pool.threads :=
  map_set_of_eq (f := fun t : ι × Thread Ret σ α => (t.1, t.2.prog)) (y := (x, t')) hi (congrArg (Prod.mk x) ht)

variable [DecidableEq Lock] (guard : Op → Option Lock) (body : (op : Op) → Block σ (Ret op)) (start : ι → Prog Ret α)

inductive Move : Locked Ret Lock σ ι α → Locked Ret Lock σ ι α → Prop
  | enter {c : Locked Ret Lock σ ι α} {i : ℕ} {x : ι} {op : Op} {next : Ret op → Prog Ret α}
      (h : c.threads[i]? = some (x, .outside (.call op next))) (hguard : guard op = none) :
      Move c { c with threads := c.threads.set i (x, .inside op (body op) next) }
  | lock {c : Locked Ret Lock σ ι α} {i : ℕ} {x : ι} {op : Op} {next : Ret op → Prog Ret α} {m : Lock}
      (h : c.threads[i]? = some (x, .outside (.call op next))) (hguard : guard op = some m)
      (hfree : c.owner m = none) :
      Move c
        { c with
          owner := Function.update c.owner m (some i)
          threads := c.threads.set i (x, .inside op (body op) next) }
  | advance {c : Locked Ret Lock σ ι α} {i : ℕ} {x : ι} {op : Op} {f : σ → σ} {rest : σ → Block σ (Ret op)}
      {next : Ret op → Prog Ret α} (h : c.threads[i]? = some (x, .inside op (.step f rest) next)) :
      Move c
        { c with
          shared := f c.shared
          threads := c.threads.set i (x, .inside op (rest c.shared) next) }
  | leave {c : Locked Ret Lock σ ι α} {i : ℕ} {x : ι} {op : Op} {r : Ret op} {next : Ret op → Prog Ret α}
      (h : c.threads[i]? = some (x, .inside op (.done r) next)) (hguard : guard op = none) :
      Move c
        { c with
          threads := c.threads.set i (x, .outside (next r))
          trace := c.trace ++ [(i, ⟨op, r⟩)] }
  | unlock {c : Locked Ret Lock σ ι α} {i : ℕ} {x : ι} {op : Op} {r : Ret op} {next : Ret op → Prog Ret α} {m : Lock}
      (h : c.threads[i]? = some (x, .inside op (.done r) next)) (hguard : guard op = some m) :
      Move c
        { c with
          owner := Function.update c.owner m none
          threads := c.threads.set i (x, .outside (next r))
          trace := c.trace ++ [(i, ⟨op, r⟩)] }

inductive Step : Locked Ret Lock σ ι α → Locked Ret Lock σ ι α → Prop
  | spawn (c : Locked Ret Lock σ ι α) (x : ι) :
      Step c { c with threads := c.threads ++ [(x, .outside (start x))] }
  | move {c c' : Locked Ret Lock σ ι α} (h : Move guard body c c') : Step c c'

def Reachable (s : σ) (c : Locked Ret Lock σ ι α) : Prop :=
  Relation.ReflTransGen (Step guard body start) (.initial s) c

def Locked.turn (c : Locked Ret Lock σ ι α) : Turn ι → Locked Ret Lock σ ι α
  | .spawn x => { c with threads := c.threads ++ [(x, .outside (start x))] }
  | .run i =>
    match c.threads[i]? with
    | some (x, .outside (.call op next)) =>
      match guard op with
      | none => { c with threads := c.threads.set i (x, .inside op (body op) next) }
      | some m =>
        if c.owner m = none then
          { c with
            owner := Function.update c.owner m (some i)
            threads := c.threads.set i (x, .inside op (body op) next) }
        else c
    | some (x, .inside op (.step f rest) next) =>
      { c with
        shared := f c.shared
        threads := c.threads.set i (x, .inside op (rest c.shared) next) }
    | some (x, .inside op (.done r) next) =>
      { c with
        owner := (guard op).elim c.owner fun m => Function.update c.owner m none
        threads := c.threads.set i (x, .outside (next r))
        trace := c.trace ++ [(i, ⟨op, r⟩)] }
    | _ => c

def Locked.schedule (s : σ) (turns : List (Turn ι)) : Locked Ret Lock σ ι α :=
  turns.foldl (Locked.turn guard body start) (.initial s)

variable {guard body start}

def Exclusive (guard : Op → Option Lock) (c : Locked Ret Lock σ ι α) : Prop :=
  ∀ m i, c.owner m = some i ↔ holdsAt guard c.threads i = some m

theorem Exclusive.step {c c' : Locked Ret Lock σ ι α} (hstep : Step guard body start c c') (h : Exclusive guard c) :
    Exclusive guard c' := by
  intro m j
  cases hstep with
  | spawn x => rw [holdsAt_spawn, h m j]
  | move hmove =>
    cases hmove with
    | enter hi hguard => rw [holdsAt_set_same hi _ (.inside _ _ _) hguard, h m j]
    | @lock i x op next m' hi hguard hfree =>
      have houtside : holdsAt guard c.threads i = none := holdsAt_of_getElem? hi
      rw [holdsAt_set hi, Thread.holds, hguard]
      change Function.update c.owner m' (some i) m = some j ↔ _
      rw [Function.update_apply]
      split_ifs with hm hij hij
      · simp [hm, hij]
      · rw [hm, ← h m' j, hfree]
        simp [hij]
      · rw [h m j, ← hij, houtside]
        simp [Ne.symm hm]
      · exact h m j
    | @advance i x op f rest next hi => rw [holdsAt_set_same hi x (.inside op (rest c.shared) next) rfl, h m j]
    | leave hi hguard => rw [holdsAt_set_same hi _ (.outside _) hguard.symm, h m j]
    | @unlock i x op r next m' hi hguard =>
      have hinside : holdsAt guard c.threads i = some m' := (holdsAt_of_getElem? hi).trans hguard
      rw [holdsAt_set hi, Thread.holds]
      change Function.update c.owner m' none m = some j ↔ _
      rw [Function.update_apply]
      split_ifs with hm hij hij
      · simp
      · rw [hm, ← h m' j, (h m' i).mpr hinside]
        simp [hij]
      · rw [h m j, ← hij, hinside]
        simp [Ne.symm hm]
      · exact h m j

theorem Reachable.exclusive {s : σ} {c : Locked Ret Lock σ ι α} (h : Reachable guard body start s c) :
    Exclusive guard c := by
  induction h with
  | refl => exact fun m i => by simp [Locked.initial, holdsAt]
  | tail _ hstep ih => exact ih.step hstep

theorem follows_step {c c' : Locked Ret Lock σ ι α} (hstep : Step guard body start c c') (h : Follows start c.pool) :
    Follows start c'.pool := by
  have hsame {s : σ} {owner : Lock → Option ℕ} {i : ℕ} {x : ι} {t : Thread Ret σ α}
      (hi : c.threads[i]? = some (x, t)) (t' : Thread Ret σ α) (ht : t'.prog = t.prog) :
      Follows start (Locked.pool ⟨s, owner, c.threads.set i (x, t'), c.trace⟩) := by
    rw [Locked.pool, pool_set_same hi t' ht]
    exact h
  cases hstep with
  | spawn x =>
    have hspawn := h.spawn x
    rw [Locked.pool, List.map_append]
    exact hspawn
  | move hmove =>
    cases hmove with
    | enter hi hguard => exact hsame hi (.inside _ _ _) rfl
    | lock hi hguard hfree => exact hsame hi (.inside _ _ _) rfl
    | advance hi => exact hsame hi (.inside _ _ _) rfl
    | leave hi hguard =>
      have hrun := h.run (getElem?_pool hi) c.shared
      rw [Locked.pool, pool_set]
      exact hrun _
    | unlock hi hguard =>
      have hrun := h.run (getElem?_pool hi) c.shared
      rw [Locked.pool, pool_set]
      exact hrun _

theorem Reachable.path {s : σ} {c : Locked Ret Lock σ ι α} (h : Reachable guard body start s c) :
    Follows start c.pool := by
  induction h with
  | refl => exact ⟨by simp [Locked.initial, Locked.pool], fun _ _ => rfl⟩
  | tail _ hstep ih => exact follows_step hstep ih

section

variable {κ : Lock → Type} (view : (m : Lock) → σ → κ m)

structure Regional (guard : Op → Option Lock) (body : (op : Op) → Block σ (Ret op)) : Prop where
  guarded : ∀ op m, guard op = some m → (body op).Local view m
  unguarded : ∀ op, guard op = none → (body op).Reads

def settled (body : (op : Op) → Block σ (Ret op)) (s : σ) (trace : List (ℕ × Event Ret)) : σ :=
  replay (fun op => (body op).run) s (trace.map Prod.snd)

omit [DecidableEq Lock] in
theorem settled_concat (s : σ) (trace : List (ℕ × Event Ret)) (e : ℕ × Event Ret) :
    settled body s (trace ++ [e]) = ((body e.2.1).run (settled body s trace)).1 := by
  rw [settled, List.map_append, replay_append]
  rfl

structure Ends (body : (op : Op) → Block σ (Ret op)) (before shared : σ) (op : Op) (rest : Block σ (Ret op))
    (m : Lock) : Prop where
  keeps : rest.Local view m
  view_eq : view m (rest.run shared).1 = view m ((body op).run before).1
  answer_eq : (rest.run shared).2 = ((body op).run before).2

structure Linear (guard : Op → Option Lock) (body : (op : Op) → Block σ (Ret op)) (s : σ)
    (c : Locked Ret Lock σ ι α) : Prop where
  free : ∀ m, c.owner m = none → view m c.shared = view m (settled body s c.trace)
  inside : ∀ (i : ℕ) (x : ι) (op : Op) (rest : Block σ (Ret op)) (next : Ret op → Prog Ret α) (m : Lock),
    c.threads[i]? = some (x, .inside op rest next) → guard op = some m →
      Ends view body (settled body s c.trace) c.shared op rest m
  reading : ∀ (i : ℕ) (x : ι) (op : Op) (rest : Block σ (Ret op)) (next : Ret op → Prog Ret α),
    c.threads[i]? = some (x, .inside op rest next) → guard op = none → rest.Reads
  answered : ∀ before i e after, c.trace = before ++ (i, e) :: after → guard e.1 ≠ none →
    e.2 = ((body e.1).run (settled body s before)).2

variable {view} {s : σ} {c c' : Locked Ret Lock σ ι α}

omit [DecidableEq Lock] in
theorem Linear.spawn (h : Linear view guard body s c) (x : ι) :
    Linear view guard body s { c with threads := c.threads ++ [(x, .outside (start x))] } where
  free := h.free
  inside i y op rest next m hi hguard := by
    rcases getElem?_concat_cases hi with hold | ⟨-, hnew⟩
    · exact h.inside i y op rest next m hold hguard
    · cases hnew
  reading i y op rest next hi hguard := by
    rcases getElem?_concat_cases hi with hold | ⟨-, hnew⟩
    · exact h.reading i y op rest next hold hguard
    · cases hnew
  answered := h.answered

omit [DecidableEq Lock] in
theorem Linear.set (h : Linear view guard body s c) (hexclusive : Exclusive guard c) {i : ℕ} {x : ι}
    {t t' : Thread Ret σ α} (hi : c.threads[i]? = some (x, t)) {shared : σ} {owner : Lock → Option ℕ}
    {trace : List (ℕ × Event Ret)} (hfree : ∀ m, owner m = none → view m shared = view m (settled body s trace))
    (hinside : ∀ op rest next m, t' = .inside op rest next → guard op = some m →
      Ends view body (settled body s trace) shared op rest m)
    (hreading : ∀ op rest next, t' = .inside op rest next → guard op = none → rest.Reads)
    (hother : ∀ op rest m, guard op = some m → t.holds guard ≠ some m →
      Ends view body (settled body s c.trace) c.shared op rest m →
        Ends view body (settled body s trace) shared op rest m)
    (hanswered : ∀ before i e after, trace = before ++ (i, e) :: after → guard e.1 ≠ none →
      e.2 = ((body e.1).run (settled body s before)).2) :
    Linear view guard body s ⟨shared, owner, c.threads.set i (x, t'), trace⟩ := by
  refine ⟨hfree, fun j y op rest next m hj hguard => ?_, fun j y op rest next hj hguard => ?_, hanswered⟩
  · rcases getElem?_set_cases hj with ⟨-, hself⟩ | ⟨hij, hold⟩
    · exact hinside op rest next m (Prod.mk.inj hself).2 hguard
    · refine hother op rest m hguard (fun hholds => hij ?_) (h.inside j y op rest next m hold hguard)
      have howner := (hexclusive m i).mpr ((holdsAt_of_getElem? hi).trans hholds)
      rw [(hexclusive m j).mpr ((holdsAt_of_getElem? hold).trans hguard)] at howner
      exact (Option.some.inj howner).symm
  · rcases getElem?_set_cases hj with ⟨-, hself⟩ | ⟨-, hold⟩
    · exact hreading op rest next (Prod.mk.inj hself).2 hguard
    · exact h.reading j y op rest next hold hguard

omit [DecidableEq Lock] in
theorem answered_concat {trace : List (ℕ × Event Ret)} {i : ℕ} {op : Op} {r : Ret op}
    (h : ∀ before i e after, trace = before ++ (i, e) :: after → guard e.1 ≠ none →
      e.2 = ((body e.1).run (settled body s before)).2)
    (hr : guard op ≠ none → r = ((body op).run (settled body s trace)).2) :
    ∀ before j e after, trace ++ [(i, ⟨op, r⟩)] = before ++ (j, e) :: after → guard e.1 ≠ none →
      e.2 = ((body e.1).run (settled body s before)).2 := by
  intro before j e after htrace hguard
  rcases List.eq_nil_or_concat after with rfl | ⟨after', last, rfl⟩
  · obtain ⟨rfl, hlast⟩ := List.append_inj' htrace rfl
    obtain ⟨-, rfl⟩ := Prod.mk.inj (List.cons.inj hlast).1
    exact hr hguard
  · rw [List.concat_eq_append, ← List.cons_append, ← List.append_assoc] at htrace
    exact h before j e after' (List.append_inj' htrace rfl).1 hguard

theorem Linear.move (hregional : Regional view guard body) (hexclusive : Exclusive guard c)
    (hmove : Move guard body c c') (h : Linear view guard body s c) : Linear view guard body s c' := by
  cases hmove with
  | @enter i x op next hi hguard =>
    refine h.set hexclusive hi h.free (fun op' rest next' m ht hm => ?_) (fun op' rest next' ht _ => ?_)
      (fun _ _ _ _ _ hends => hends) h.answered
    · cases ht
      rw [hguard] at hm
      contradiction
    · cases ht
      exact hregional.unguarded op hguard
  | @lock i x op next m hi hguard hfree =>
    refine h.set hexclusive hi (fun m' hm' => ?_) (fun op' rest next' m' ht hm' => ?_)
      (fun op' rest next' ht hm' => ?_) (fun _ _ _ _ _ hends => hends) h.answered
    · rw [Function.update_apply] at hm'
      split_ifs at hm'
      exact h.free m' hm'
    · cases ht
      obtain rfl := Option.some.inj (hguard.symm.trans hm')
      have hlocal := hregional.guarded op m hguard
      obtain ⟨hview, hanswer⟩ := Block.run_congr hlocal (h.free m hfree)
      exact ⟨hlocal, hview, hanswer⟩
    · cases ht
      rw [hguard] at hm'
      contradiction
  | @advance i x op f rest next hi =>
    cases hguard : guard op with
    | none =>
      obtain ⟨hsame, hrest⟩ := h.reading i x op _ next hi hguard c.shared
      rw [hsame]
      refine h.set hexclusive hi h.free (fun op' rest' next' m ht hm => ?_) (fun op' rest' next' ht _ => ?_)
        (fun _ _ _ _ _ hends => hends) h.answered
      · cases ht
        rw [hguard] at hm
        contradiction
      · cases ht
        exact hrest
    | some m =>
      obtain ⟨hlocal, hview, hanswer⟩ := h.inside i x op _ next m hi hguard
      have howner : c.owner m = some i := (hexclusive m i).mpr ((holdsAt_of_getElem? hi).trans hguard)
      refine h.set hexclusive hi (fun m' hm' => ?_) (fun op' rest' next' m' ht hm' => ?_)
        (fun op' rest' next' ht hm' => ?_) (fun op' rest' m' _ hm' hends => ?_) h.answered
      · have hne : m' ≠ m := by
          rintro rfl
          exact absurd (hm'.symm.trans howner) nofun
        exact (hlocal.1 c.shared m' hne).trans (h.free m' hm')
      · cases ht
        obtain rfl := Option.some.inj (hguard.symm.trans hm')
        exact ⟨hlocal.2.2 c.shared, hview, hanswer⟩
      · cases ht
        rw [hguard] at hm'
        contradiction
      · have hne : m' ≠ m := fun heq => hm' (heq ▸ hguard)
        obtain ⟨hrun, hvalue⟩ := Block.run_congr hends.keeps (hlocal.1 c.shared m' hne)
        exact ⟨hends.keeps, hrun.trans hends.view_eq, hvalue.trans hends.answer_eq⟩
  | @leave i x op r next hi hguard =>
    have hsettled : settled body s (c.trace ++ [(i, ⟨op, r⟩)]) = settled body s c.trace := by
      rw [settled_concat]
      exact Block.run_of_reads (hregional.unguarded op hguard) _
    refine h.set hexclusive hi (fun m hm => ?_) (fun _ _ _ _ ht => nomatch ht) (fun _ _ _ ht => nomatch ht)
      (fun op' rest' m _ _ hends => ?_) (answered_concat h.answered fun hne => absurd hguard hne)
    · rw [hsettled]
      exact h.free m hm
    · rw [hsettled]
      exact hends
  | @unlock i x op r next m hi hguard =>
    obtain ⟨-, hview, hanswer⟩ := h.inside i x op _ next m hi hguard
    have hlocal := hregional.guarded op m hguard
    refine h.set hexclusive hi (fun m' hm' => ?_) (fun _ _ _ _ ht => nomatch ht) (fun _ _ _ ht => nomatch ht)
      (fun op' rest' m' hguard' hm' hends => ?_) (answered_concat h.answered fun _ => hanswer)
    · rw [settled_concat]
      by_cases hne : m' = m
      · rw [hne]
        exact hview
      · rw [Function.update_apply, if_neg hne] at hm'
        exact (h.free m' hm').trans (Block.run_other hlocal _ hne).symm
    · have hne : m' ≠ m := fun heq => hm' (heq ▸ hguard)
      obtain ⟨hrun, hvalue⟩ :=
        Block.run_congr (hregional.guarded op' m' hguard') (Block.run_other hlocal (settled body s c.trace) hne)
      rw [settled_concat]
      exact ⟨hends.keeps, hends.view_eq.trans hrun.symm, hends.answer_eq.trans hvalue.symm⟩

theorem Reachable.linear (hregional : Regional view guard body) (h : Reachable guard body start s c) :
    Linear view guard body s c := by
  induction h with
  | refl => exact ⟨fun _ _ => rfl, by simp [Locked.initial], by simp [Locked.initial], by simp [Locked.initial]⟩
  | tail hreach hstep ih =>
    cases hstep with
    | spawn x => exact ih.spawn x
    | move hmove => exact Linear.move hregional (Reachable.exclusive hreach) hmove ih

end

def Thread.Active : Thread Ret σ α → Prop
  | .outside (.call _ _) => True
  | .outside _ => False
  | .inside _ _ _ => True

omit [DecidableEq Lock] in
theorem Thread.active_of_holds {t : Thread Ret σ α} {m : Lock} (h : t.holds guard = some m) : t.Active := by
  cases t with
  | outside p => contradiction
  | inside op rest next => trivial

/-- No thread holds one lock and waits for another. -/
theorem exists_move_iff {s : σ} {c : Locked Ret Lock σ ι α} (h : Reachable guard body start s c) :
    (∃ c', Move guard body c c') ↔ ∃ (i : ℕ) (x : ι) (t : Thread Ret σ α), c.threads[i]? = some (x, t) ∧ t.Active := by
  have hinside {i : ℕ} {x : ι} {op : Op} {rest : Block σ (Ret op)} {next : Ret op → Prog Ret α}
      (hi : c.threads[i]? = some (x, .inside op rest next)) : ∃ c', Move guard body c c' := by
    cases rest with
    | step f rest => exact ⟨_, .advance hi⟩
    | done r =>
      cases hguard : guard op with
      | none => exact ⟨_, .leave hi hguard⟩
      | some m => exact ⟨_, .unlock hi hguard⟩
  constructor
  · rintro ⟨c', hmove⟩
    cases hmove with
    | enter hi _ => exact ⟨_, _, _, hi, trivial⟩
    | lock hi _ _ => exact ⟨_, _, _, hi, trivial⟩
    | advance hi => exact ⟨_, _, _, hi, trivial⟩
    | leave hi _ => exact ⟨_, _, _, hi, trivial⟩
    | unlock hi _ => exact ⟨_, _, _, hi, trivial⟩
  · rintro ⟨i, x, t, hi, hactive⟩
    cases t with
    | inside op rest next => exact hinside hi
    | outside p =>
      cases p with
      | pure a => exact absurd hactive id
      | fail => exact absurd hactive id
      | call op next =>
        cases hguard : guard op with
        | none => exact ⟨_, .enter hi hguard⟩
        | some m =>
          cases howner : c.owner m with
          | none => exact ⟨_, .lock hi hguard howner⟩
          | some j =>
            obtain ⟨⟨y, t⟩, hj, hholds⟩ := Option.bind_eq_some_iff.mp ((Reachable.exclusive h m j).mp howner)
            cases t with
            | outside q => contradiction
            | inside op' rest next' => exact hinside hj

section

variable {s : σ} {c : Locked Ret Lock σ ι α}

theorem Reachable.toPool {κ : Lock → Type} {view : (m : Lock) → σ → κ m} (hregional : Regional view guard body)
    (h : Reachable guard body start s c)
    (hreads : ∀ before i e after, c.trace = before ++ (i, e) :: after → guard e.1 = none →
      e.2 = ((body e.1).run (settled body s before)).2) :
    Interleaving.Reachable (fun op => (body op).run) start s ⟨settled body s c.trace, c.pool.threads, c.trace⟩ := by
  induction h with
  | refl => exact .refl
  | @tail c c' hreach hstep ih =>
    have hlinear := Reachable.linear hregional (hreach.tail hstep)
    have hended {i : ℕ} {x : ι} {op : Op} {r : Ret op} {rest : Block σ (Ret op)} {next : Ret op → Prog Ret α}
        (hi : c.threads[i]? = some (x, .inside op rest next)) (htrace : c'.trace = c.trace ++ [(i, ⟨op, r⟩)])
        (hthreads : c'.pool.threads = c.pool.threads.set i (x, next r)) :
        Interleaving.Reachable (fun op => (body op).run) start s
          ⟨settled body s c'.trace, c'.pool.threads, c'.trace⟩ := by
      have hr : r = ((body op).run (settled body s c.trace)).2 := by
        by_cases hguard : guard op = none
        · exact hreads c.trace i ⟨op, r⟩ [] htrace hguard
        · exact hlinear.answered c.trace i ⟨op, r⟩ [] htrace hguard
      have hpool := ih fun before j e after ht hguard =>
        hreads before j e (after ++ [(i, ⟨op, r⟩)]) (by rw [htrace, ht, List.append_assoc, List.cons_append]) hguard
      rw [htrace, hthreads, settled_concat, hr]
      exact hpool.tail (.run _ (getElem?_pool hi))
    have hkept (hthreads : c'.pool.threads = c.pool.threads) (htrace : c'.trace = c.trace) :
        Interleaving.Reachable (fun op => (body op).run) start s
          ⟨settled body s c'.trace, c'.pool.threads, c'.trace⟩ := by
      rw [htrace] at hreads
      rw [hthreads, htrace]
      exact ih hreads
    cases hstep with
    | spawn x =>
      rw [Locked.pool, List.map_append]
      exact (ih hreads).tail (.spawn _ x)
    | move hmove =>
      cases hmove with
      | enter hi _ => exact hkept (pool_set_same hi (.inside _ _ _) rfl) rfl
      | lock hi _ _ => exact hkept (pool_set_same hi (.inside _ _ _) rfl) rfl
      | advance hi => exact hkept (pool_set_same hi (.inside _ _ _) rfl) rfl
      | leave hi _ => exact hended hi rfl (pool_set ..)
      | unlock hi _ => exact hended hi rfl (pool_set ..)

omit [DecidableEq Lock] in
theorem set_eq_self {τ : Type} {xs : List τ} {i : ℕ} {x : τ} (hi : xs[i]? = some x) : xs.set i x = xs := by
  have hmap := map_set_of_eq (f := id) hi rfl
  rwa [List.map_id, List.map_id] at hmap

theorem exists_run_block {i : ℕ} {x : ι} {op : Op} {next : Ret op → Prog Ret α} (b : Block σ (Ret op))
    {c : Locked Ret Lock σ ι α} (hi : c.threads[i]? = some (x, .inside op b next)) :
    Relation.ReflTransGen (Move guard body) c
      { c with
        shared := (b.run c.shared).1
        threads := c.threads.set i (x, .inside op (.done (b.run c.shared).2) next) } := by
  induction b generalizing c with
  | done r =>
    simp only [Block.run]
    rw [set_eq_self hi]
  | step f rest ih =>
    have hself : (c.threads.set i (x, .inside op (rest c.shared) next))[i]? =
        some (x, .inside op (rest c.shared) next) :=
      List.getElem?_set_self (List.getElem?_eq_some_iff.mp hi).1
    have hrest := ih c.shared
      (c := ⟨f c.shared, c.owner, c.threads.set i (x, .inside op (rest c.shared) next), c.trace⟩) hself
    rw [List.set_set] at hrest
    exact .head (.advance hi) hrest

theorem Reachable.ofPool {c : Pool Ret σ ι α} (h : Interleaving.Reachable (fun op => (body op).run) start s c) :
    Reachable guard body start s
      ⟨c.shared, fun _ => none, c.threads.map fun t => (t.1, .outside t.2), c.trace⟩ := by
  induction h with
  | refl => exact .refl
  | @tail c c' hreach hstep ih =>
    cases hstep with
    | spawn x =>
      rw [List.map_append]
      exact ih.tail (.spawn _ x)
    | @run i x op next hi =>
      have houtside : (c.threads.map fun t => (t.1, Thread.outside t.2))[i]? =
          some (x, (.outside (.call op next) : Thread Ret σ α)) := by
        rw [List.getElem?_map, hi, Option.map_some]
      have hinside := List.getElem?_set_self (a := (x, Thread.inside op (body op) next))
        (List.getElem?_eq_some_iff.mp houtside).1
      have hdone := List.getElem?_set_self (a := (x, Thread.inside op (.done ((body op).run c.shared).2) next))
        (List.getElem?_eq_some_iff.mp houtside).1
      have hmove {m m' : Locked Ret Lock σ ι α} (hrun : Relation.ReflTransGen (Move guard body) m m') :
          Relation.ReflTransGen (Step guard body start) m m' := hrun.lift id fun _ _ hmove => .move hmove
      rw [List.map_set]
      cases hguard : guard op with
      | none =>
        have hrun := (ih.tail (.move (.enter houtside hguard))).trans (hmove (exists_run_block (body op) hinside))
        rw [List.set_set] at hrun
        have hleft := hrun.tail (.move (.leave hdone hguard))
        rwa [List.set_set] at hleft
      | some m =>
        have hrun := (ih.tail (.move (.lock houtside hguard rfl))).trans (hmove (exists_run_block (body op) hinside))
        rw [List.set_set] at hrun
        have hunlocked := hrun.tail (.move (.unlock hdone hguard))
        rwa [List.set_set, Function.update_idem, Function.update_eq_self_iff.mpr rfl] at hunlocked

end

theorem reachable_turn {s : σ} {c : Locked Ret Lock σ ι α} (h : Reachable guard body start s c) (t : Turn ι) :
    Reachable guard body start s (c.turn guard body start t) := by
  cases t with
  | spawn x => exact h.tail (.spawn c x)
  | run i =>
    rw [Locked.turn]
    split
    · next hi =>
      split
      · next hguard => exact h.tail (.move (.enter hi hguard))
      · next hguard =>
        split
        · next hfree => exact h.tail (.move (.lock hi hguard hfree))
        · exact h
    · next hi => exact h.tail (.move (.advance hi))
    · next op r next' hi =>
      cases hguard : guard op with
      | none => exact h.tail (.move (.leave hi hguard))
      | some m => exact h.tail (.move (.unlock hi hguard))
    · exact h

theorem reachable_turns {s : σ} {c : Locked Ret Lock σ ι α} (h : Reachable guard body start s c)
    (turns : List (Turn ι)) : Reachable guard body start s (turns.foldl (Locked.turn guard body start) c) := by
  induction turns generalizing c with
  | nil => exact h
  | cons t turns ih => exact ih (reachable_turn h t)

theorem reachable_schedule (s : σ) (turns : List (Turn ι)) :
    Reachable guard body start s (Locked.schedule guard body start s turns) := reachable_turns .refl turns

end Bingit.Locking
