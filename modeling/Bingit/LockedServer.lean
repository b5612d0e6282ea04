import Bingit.CriticalSections
import Bingit.MemeRefinement

namespace Bingit.Session

open Text Interleaving Histogram Locking

inductive Mutex where
  | mtx
  | idLock
  deriving DecidableEq

def guardOf : Op → Option Mutex
  | .createHandler => some .mtx
  | .updateCounters _ _ => some .mtx
  | .asyncWrite _ => some .mtx
  | .insertMeme _ _ _ => some .idLock
  | .query _ => some .idLock
  | .sumUrls => none
  | .listUrls => none
  | .listCodes => none

variable {Db : Type} (env : Env Db)

def body : (op : Op) → Block (Shared Db) (Ret op)
  | .createHandler => .done ()
  | .sumUrls => .step id fun s => .done (s.urlCounter.toList.map Prod.snd).sum
  | .listUrls => .step id fun s => .done s.urlCounter.toList
  | .listCodes => .step id fun s => .done s.codeCounter.toList
  | .updateCounters path code =>
    .step (fun s => { s with urlCounter := findOrInsert s.urlCounter path }) fun _ =>
    .step (fun s => { s with urlCounter := increment s.urlCounter path }) fun _ =>
    .step (fun s => { s with codeCounter := findOrInsert s.codeCounter code }) fun _ =>
    .step (fun s => { s with codeCounter := increment s.codeCounter code }) fun _ => .done ()
  | .asyncWrite _ => .done ()
  | .insertMeme picFile topText botText =>
    .step (fun s => { s with memeCount := s.memeCount + 1 }) fun _ =>
    .step id fun s =>
      let uniqueId := s.memeCount
      .step (fun s => (runQuery env s (.insert uniqueId picFile topText botText)).1) fun s =>
        .done (uniqueId, (runQuery env s (.insert uniqueId picFile topText botText)).2)
  | .query q => .step (fun s => (runQuery env s q).1) fun s => .done (runQuery env s q).2

theorem run_body (op : Op) (s : Shared Db) : (body env op).run s = execute env op s := by
  cases op <;> rfl

def Part (Db : Type) : Mutex → Type
  | .mtx => Std.TreeMap Text ℤ × Std.TreeMap ℤ ℤ
  | .idLock => ℕ × Db

def part : (m : Mutex) → Shared Db → Part Db m
  | .mtx, s => (s.urlCounter, s.codeCounter)
  | .idLock, s => (s.memeCount, s.db)

theorem local_mtx {ρ : Type} {f : Shared Db → Shared Db} {rest : Block (Shared Db) ρ}
    (hkeeps : ∀ s, part .idLock (f s) = part .idLock s)
    (hf : ∀ s t, part .mtx s = part .mtx t → part .mtx (f s) = part .mtx (f t)) (hrest : rest.Local part .mtx) :
    (Block.step f fun _ => rest).Local part .mtx := by
  refine ⟨fun s m hm => ?_, fun s t hst => ⟨hf s t hst, rfl⟩, fun _ => hrest⟩
  cases m with
  | mtx => exact absurd rfl hm
  | idLock => exact hkeeps s

theorem local_idLock {ρ : Type} {f : Shared Db → Shared Db} {next : Shared Db → Block (Shared Db) ρ}
    (hkeeps : ∀ s, part .mtx (f s) = part .mtx s)
    (hf : ∀ s t, part .idLock s = part .idLock t → part .idLock (f s) = part .idLock (f t) ∧ next s = next t)
    (hnext : ∀ s, (next s).Local part .idLock) : (Block.step f next).Local part .idLock := by
  refine ⟨fun s m hm => ?_, hf, hnext⟩
  cases m with
  | mtx => exact hkeeps s
  | idLock => exact absurd rfl hm

theorem runQuery_part {s t : Shared Db} (hst : part .idLock s = part .idLock t) (q : Meme.Query) :
    part .idLock (runQuery env s q).1 = part .idLock (runQuery env t q).1 ∧
      (runQuery env s q).2 = (runQuery env t q).2 := by
  obtain ⟨hcount, hdb⟩ := Prod.mk.inj hst
  simp only [runQuery, part, hcount, hdb]
  exact ⟨rfl, trivial⟩

theorem regional_body : Regional part guardOf (body env) := by
  constructor
  · intro op m hguard
    cases op with
    | createHandler => trivial
    | asyncWrite bytes => trivial
    | updateCounters path code =>
      obtain rfl := Option.some.inj hguard
      have hurls {s t : Shared Db} (hst : part .mtx s = part .mtx t) : s.urlCounter = t.urlCounter :=
        (Prod.mk.inj hst).1
      have hcodes {s t : Shared Db} (hst : part .mtx s = part .mtx t) : s.codeCounter = t.codeCounter :=
        (Prod.mk.inj hst).2
      refine local_mtx (fun _ => rfl) (fun s t hst => ?_) <| local_mtx (fun _ => rfl) (fun s t hst => ?_) <|
        local_mtx (fun _ => rfl) (fun s t hst => ?_) <| local_mtx (fun _ => rfl) (fun s t hst => ?_) trivial
      all_goals
        simp only [part, hurls hst, hcodes hst]
        rfl
    | insertMeme picFile topText botText =>
      obtain rfl := Option.some.inj hguard
      refine local_idLock (fun _ => rfl) (fun s t hst => ⟨?_, rfl⟩) fun _ =>
        local_idLock (fun _ => rfl) (fun s t hst => ⟨hst, ?_⟩) fun s =>
        local_idLock (fun _ => rfl) (fun s t hst => ?_) fun _ => trivial
      · obtain ⟨hcount, hdb⟩ := Prod.mk.inj hst
        simp only [part, hcount, hdb]
        rfl
      · rw [(Prod.mk.inj hst).1]
      · obtain ⟨hpart, hresult⟩ := runQuery_part env hst (.insert _ picFile topText botText)
        exact ⟨hpart, by rw [hresult]⟩
    | query q =>
      obtain rfl := Option.some.inj hguard
      refine local_idLock (fun _ => rfl) (fun s t hst => ?_) fun _ => trivial
      obtain ⟨hpart, hresult⟩ := runQuery_part env hst q
      exact ⟨hpart, by rw [hresult]⟩
    | _ => contradiction
  · intro op hguard
    cases op with
    | sumUrls => exact fun s => ⟨rfl, trivial⟩
    | listUrls => exact fun s => ⟨rfl, trivial⟩
    | listCodes => exact fun s => ⟨rfl, trivial⟩
    | _ => contradiction

abbrev LockedServer (Db : Type) := Locked Ret Mutex (Shared Db) Text Reply

def LockedRun (env : Env Db) (params : ConfigParams) (db : Db) (c : LockedServer Db) : Prop :=
  Locking.Reachable guardOf (body env) (handleRead env params) (.initial db) c

variable {env} {params : ConfigParams} {db : Db}

theorem execute_body (env : Env Db) : (fun op => (body env op).run) = execute env :=
  funext fun op => funext fun s => run_body env op s

theorem settled_body (env : Env Db) (db : Db) (trace : List (ℕ × Event Ret)) :
    settled (body env) (.initial db) trace = after env db trace := by
  rw [settled, execute_body, after]

def unlocked (c : Server Db) : LockedServer Db :=
  ⟨c.shared, fun _ => none, c.threads.map fun t => (t.1, .outside t.2), c.trace⟩

theorem lockedRun_unlocked {c : Server Db} (h : Run env params db c) : LockedRun env params db (unlocked c) :=
  Locking.Reachable.ofPool ((execute_body env).symm ▸ h)

theorem locked_run_linearizes {c : LockedServer Db} (h : LockedRun env params db c) :
    (∀ m i j, holdsAt guardOf c.threads i = some m → holdsAt guardOf c.threads j = some m → i = j) ∧
    (c.owner .mtx = none → Exact c.shared (updates c.trace)) ∧
    (c.owner .idLock = none →
      c.shared.memeCount = (after env db c.trace).memeCount ∧ c.shared.db = (after env db c.trace).db) ∧
    (∀ t₁ i e t₂, c.trace = t₁ ++ (i, e) :: t₂ → guardOf e.1 ≠ none → e.2 = (execute env e.1 (after env db t₁)).2) ∧
    Follows (handleRead env params) c.pool := by
  have hexclusive := Locking.Reachable.exclusive h
  have hlinear := Locking.Reachable.linear (regional_body env) h
  refine ⟨fun m i j hi hj => ?_, fun hfree => ?_, fun hfree => ?_, fun t₁ i e t₂ ht hguard => ?_,
    Locking.Reachable.path h⟩
  · exact Option.some.inj (((hexclusive m i).mpr hi).symm.trans ((hexclusive m j).mpr hj))
  · have hpart := hlinear.free .mtx hfree
    rw [settled_body] at hpart
    obtain ⟨hurls, hcodes⟩ := Prod.mk.inj hpart
    have hexact := exact_after env db c.trace
    exact ⟨hurls ▸ hexact.urls, hcodes ▸ hexact.codes⟩
  · have hpart := hlinear.free .idLock hfree
    rw [settled_body] at hpart
    exact Prod.mk.inj hpart
  · rw [hlinear.answered t₁ i e t₂ ht hguard, settled_body, run_body]

def contended : LockedServer Meme.Reference.Table :=
  Locked.schedule guardOf (body (.standalone Meme.Reference.exec))
    (handleRead (.standalone Meme.Reference.exec) Meme.memeParams) (.initial ∅)
    ([.spawn [], .spawn Meme.createData, .spawn Meme.createData] ++ .replicate 6 (.run 0) ++ .replicate 4 (.run 1) ++
      .replicate 3 (.run 2))

theorem lockedRun_contended : LockedRun (.standalone Meme.Reference.exec) Meme.memeParams ∅ contended :=
  Locking.reachable_schedule _ _

theorem contended_eq :
    contended.threads.map (fun t => t.2.holds guardOf) = [none, some .idLock, none] ∧
      contended.owner .mtx = none ∧ contended.owner .idLock = some 1 ∧ contended.shared.memeCount = 1 ∧
      updates contended.trace = [([], 400)] := by
  unfold contended Meme.memeParams Meme.createData
  repeat rw [String.toList_ofList]
  decide +kernel

theorem holdsAt_contended : holdsAt guardOf contended.threads 1 = some .idLock := by
  have hone : (contended.threads.map fun t => t.2.holds guardOf)[1]? = some (some .idLock) := by
    rw [contended_eq.1]
    rfl
  rw [List.getElem?_map] at hone
  obtain ⟨t, ht, hguard⟩ := Option.map_eq_some_iff.mp hone
  exact (holdsAt_of_getElem? ht).trans hguard

theorem locked_run_linearizes_contended :
    Exact contended.shared [([], 400)] ∧ (∀ i, holdsAt guardOf contended.threads i = some .idLock → i = 1) ∧
      contended.shared.memeCount = 1 := by
  obtain ⟨-, hfree, -, hcount, hupdates⟩ := contended_eq
  obtain ⟨halone, hexact, -⟩ := locked_run_linearizes lockedRun_contended
  refine ⟨?_, fun i hi => halone .idLock i 1 hi holdsAt_contended, hcount⟩
  rw [← hupdates]
  exact hexact hfree

/-- But for the status pages, regions might as well be atomic. -/
theorem run_iff_lockedRun (threads : List (Text × Action Reply)) (trace : List (ℕ × Event Ret)) :
    (∃ c, Run env params db c ∧ c.threads = threads ∧ c.trace = trace) ↔
      (∃ c, LockedRun env params db c ∧ c.pool.threads = threads ∧ c.trace = trace) ∧
      ∀ t₁ i e t₂, trace = t₁ ++ (i, e) :: t₂ → guardOf e.1 = none → e.2 = (execute env e.1 (after env db t₁)).2 := by
  constructor
  · rintro ⟨c, hrun, rfl, rfl⟩
    refine ⟨⟨_, lockedRun_unlocked hrun, ?_, rfl⟩, ?_⟩
    · change (c.threads.map _).map _ = c.threads
      rw [List.map_map]
      exact List.map_id _
    · exact fun t₁ i e t₂ ht _ => Interleaving.Reachable.answer hrun ht
  · rintro ⟨⟨c, hrun, rfl, rfl⟩, hreads⟩
    have hpool := Locking.Reachable.toPool (regional_body env) hrun fun t₁ i e t₂ ht hguard => by
      rw [settled_body, run_body]
      exact hreads t₁ i e t₂ ht hguard
    rw [execute_body] at hpool
    exact ⟨_, hpool, rfl, rfl⟩

theorem locked_run_progresses {c : LockedServer Db} (h : LockedRun env params db c) :
    ((∃ c', Move guardOf (body env) c c') ↔
      ∃ (i : ℕ) (x : Text) (t : Thread Ret (Shared Db) Reply), c.threads[i]? = some (x, t) ∧ t.Active) ∧
    ∀ m, c.owner m ≠ none → ∃ i, holdsAt guardOf c.threads i = some m := by
  refine ⟨exists_move_iff h, fun m hm => ?_⟩
  obtain ⟨i, hi⟩ := Option.ne_none_iff_exists'.mp hm
  exact ⟨i, (Locking.Reachable.exclusive h m i).mp hi⟩

theorem locked_run_progresses_contended :
    (∃ c', Move guardOf (body (.standalone Meme.Reference.exec)) contended c') ∧
      ∃ i, holdsAt guardOf contended.threads i = some .idLock := by
  obtain ⟨hmove, hheld⟩ := locked_run_progresses lockedRun_contended
  refine ⟨hmove.mpr ?_, hheld .idLock (by rw [contended_eq.2.2.1]; nofun)⟩
  obtain ⟨⟨x, t⟩, ht, hguard⟩ := Option.bind_eq_some_iff.mp holdsAt_contended
  exact ⟨1, x, t, ht, Thread.active_of_holds hguard⟩

end Bingit.Session
