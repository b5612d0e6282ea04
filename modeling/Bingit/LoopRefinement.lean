import Bingit.EventLoop

namespace Bingit.EventLoop

open Text Interleaving Session

variable {Db : Type} {env : Env Db} {params : ConfigParams} {workers : ℕ} {db : Db}

def complete (order : HeaderOrder) (path : Text) (r : Reply) : Action Reply := do
  Action.updateCounters path r.code
  Action.asyncWrite (constructHttpResponse order r)
  pure r

theorem handleRead_stage {data : Text} {es : List (Event Ret)} {q : Action Reply}
    (h : Path (handleRead env params data) es q) :
    (∃ p, Path (respond env params (parseRequestLine data)) es p ∧
      q = p >>= complete env.order (parseRequestLine data).path) ∨
    ∃ r es₁, Path (respond env params (parseRequestLine data)) es₁ (.pure r) ∧
      ((es = es₁ ++ [⟨.updateCounters (parseRequestLine data).path r.code, ()⟩] ∧
        q = .call (.asyncWrite (constructHttpResponse env.order r)) fun _ => .pure r) ∨
      (es = es₁ ++ finish env.order (parseRequestLine data).path r ∧ q = .pure r)) := by
  rcases Path.bind_inv h with ⟨p, hp, rfl⟩ | ⟨r, es₁, es₂, rfl, hr, hrest⟩
  · exact .inl ⟨p, hp, rfl⟩
  · rcases Path.call_inv hrest with ⟨rfl, rfl⟩ | ⟨_, es₃, rfl, hwrite⟩
    · exact .inl ⟨.pure r, by rwa [List.append_nil], rfl⟩
    · refine .inr ⟨r, es₁, hr, ?_⟩
      rcases Path.call_inv hwrite with ⟨rfl, rfl⟩ | ⟨_, es₄, rfl, hdone⟩
      · exact .inl ⟨rfl, rfl⟩
      · obtain ⟨rfl, rfl⟩ := Path.pure_inv hdone
        exact .inr ⟨rfl, rfl⟩

def awaitsWrite : Action Reply → Bool
  | .call (.asyncWrite _) _ => true
  | _ => false

theorem value_bind_complete (order : HeaderOrder) (path : Text) (p : Action Reply) :
    (p >>= complete order path).value = none := by
  cases p <;> rfl

theorem awaitsWrite_bind_complete {order : HeaderOrder} {path : Text} {p : Action Reply} {data : Text}
    {es : List (Event Ret)} (h : Path (respond env params (parseRequestLine data)) es p) :
    awaitsWrite (p >>= complete order path) = false := by
  cases p with
  | pure r => rfl
  | fail => rfl
  | call op next =>
    have hop : IsHandlerOp op := (h.ensures (framed_respond env params data)).2.1
    cases op with
    | asyncWrite bytes => exact absurd hop id
    | _ => rfl

theorem value_handleRead (env : Env Db) (params : ConfigParams) (data : Text) :
    (handleRead env params data).value = none :=
  value_bind_complete env.order (parseRequestLine data).path _

theorem awaitsWrite_handleRead (env : Env Db) (params : ConfigParams) (data : Text) :
    awaitsWrite (handleRead env params data) = false :=
  awaitsWrite_bind_complete (.nil _)

theorem next_of_path {data : Text} {es : List (Event Ret)} {op : Op} {next : Ret op → Action Reply}
    (h : Path (handleRead env params data) es (.call op next)) (hop : ∀ bytes, op ≠ .asyncWrite bytes)
    (answer : Ret op) :
    (next answer).value = none ∧ awaitsWrite (next answer) = (updateOf ⟨op, answer⟩).isSome := by
  rcases handleRead_stage h with ⟨p, hp, hq⟩ | ⟨r, es₁, -, ⟨-, hq⟩ | ⟨-, hq⟩⟩
  · cases p with
    | pure r => cases hq; exact ⟨rfl, rfl⟩
    | fail => contradiction
    | call op' next' =>
      cases hq
      have hnone : updateOf ⟨op, answer⟩ = none := by
        have hhandler : IsHandlerOp op := (hp.ensures (framed_respond env params data)).2.1
        cases op with
        | updateCounters path code => exact absurd hhandler id
        | _ => rfl
      refine ⟨value_bind_complete env.order (parseRequestLine data).path _, ?_⟩
      rw [hnone]
      exact awaitsWrite_bind_complete (hp.concat answer rfl)
  · cases hq
    exact absurd rfl (hop _)
  · contradiction

theorem next_of_asyncWrite {data : Text} {es : List (Event Ret)} {bytes : Text}
    {next : Ret (.asyncWrite bytes) → Action Reply}
    (h : Path (handleRead env params data) es (.call (.asyncWrite bytes) next)) :
    ∃ r es₁, Path (respond env params (parseRequestLine data)) es₁ (.pure r) ∧
      es ++ [⟨.asyncWrite bytes, ()⟩] = es₁ ++ finish env.order (parseRequestLine data).path r ∧
      next () = .pure r ∧ bytes = constructHttpResponse env.order r := by
  rcases handleRead_stage h with ⟨p, hp, hq⟩ | ⟨r, es₁, hr, ⟨rfl, hq⟩ | ⟨-, hq⟩⟩
  · have hawaits : awaitsWrite (p >>= complete env.order (parseRequestLine data).path) = false :=
      awaitsWrite_bind_complete hp
    rw [← hq] at hawaits
    contradiction
  · cases hq
    exact ⟨r, es₁, hr, by simp [finish], rfl, rfl⟩
  · contradiction

def Task.read : Task → Option ℕ
  | .start _ => none
  | .handleRead _ n _ => some n

structure Simulates (l : EventLoop Db) (c : Server Db) : Prop where
  shared : c.shared = l.shared
  trace : c.trace = l.trace
  data : c.threads.map Prod.fst = l.reads
  running : ∀ i n p, .handleRead i n p ∈ l.tasks → ∃ data, c.threads[n]? = some (data, p)
  returned : ∀ n data p, c.threads[n]? = some (data, p) → (∃ i, .handleRead i n p ∈ l.tasks) ∨ ∃ r, p = .pure r
  distinct : (l.tasks.filterMap Task.read).Nodup

theorem map_fst_set {ι α : Type} {threads : List (ι × α)} {n : ℕ} {x : ι} {a : α} (h : threads[n]? = some (x, a))
    (b : α) : (threads.set n (x, b)).map Prod.fst = threads.map Prod.fst := map_set_of_eq h rfl

namespace Simulates

variable {l : EventLoop Db} {c : Server Db}

theorem congr (h : Simulates l c) {l' : EventLoop Db} (hshared : l'.shared = l.shared) (htrace : l'.trace = l.trace)
    (hreads : l'.reads = l.reads) (htasks : (l'.tasks.filterMap Task.read).Perm (l.tasks.filterMap Task.read))
    (hmem : ∀ i n p, .handleRead i n p ∈ l'.tasks ↔ .handleRead i n p ∈ l.tasks) : Simulates l' c where
  shared := h.shared.trans hshared.symm
  trace := h.trace.trans htrace.symm
  data := h.data.trans hreads.symm
  running i n p hp := h.running i n p ((hmem i n p).mp hp)
  returned n data p hp := (h.returned n data p hp).imp_left fun ⟨i, hi⟩ => ⟨i, (hmem i n p).mpr hi⟩
  distinct := htasks.nodup_iff.mpr h.distinct

theorem reads_length (h : Simulates l c) : c.threads.length = l.reads.length := by
  rw [← h.data, List.length_map]

theorem lt_of_read (h : Simulates l c) {n : ℕ} (hn : n ∈ l.tasks.filterMap Task.read) : n < l.reads.length := by
  obtain ⟨task, htask, hread⟩ := List.mem_filterMap.mp hn
  cases task with
  | start i => contradiction
  | handleRead i m p =>
    obtain rfl := Option.some.inj hread
    obtain ⟨data, hdata⟩ := h.running i m p htask
    rw [← h.reads_length]
    exact (List.getElem?_eq_some_iff.mp hdata).1

variable (env params) in
theorem spawn (h : Simulates l c) (i : ℕ) (rest : List Operation) (data : Text) :
    Simulates (receive
      { l with
        pending := rest
        tasks := .handleRead i l.reads.length (Session.handleRead env params data) :: l.tasks } i data)
      { c with threads := c.threads ++ [(data, Session.handleRead env params data)] } where
  shared := h.shared
  trace := h.trace
  data := by
    rw [List.map_append, h.data]
    rfl
  running j n p hp := by
    rcases List.mem_cons.mp hp with hnew | hold
    · obtain ⟨rfl, rfl, rfl⟩ := Task.handleRead.inj hnew
      exact ⟨data, by rw [← h.reads_length, List.getElem?_concat_length]⟩
    · obtain ⟨data', hdata'⟩ := h.running j n p hold
      exact ⟨data', by rw [List.getElem?_append_left (List.getElem?_eq_some_iff.mp hdata').1, hdata']⟩
  returned n data' p hp := by
    rcases getElem?_concat_cases hp with hold | ⟨rfl, hnew⟩
    · exact (h.returned n data' p hold).imp_left fun ⟨j, hj⟩ => ⟨j, List.mem_cons_of_mem _ hj⟩
    · obtain ⟨rfl, rfl⟩ := Prod.mk.inj hnew
      exact .inl ⟨i, by rw [h.reads_length]; exact List.mem_cons_self⟩
  distinct := by
    refine List.nodup_cons.mpr ⟨fun hmem => ?_, h.distinct⟩
    exact absurd (h.lt_of_read hmem) (Nat.lt_irrefl _)

variable (env) in
theorem run (h : Simulates l c) {i n : ℕ} {op : Op} {next : Ret op → Action Reply} {rest : List Task}
    (htask : l.tasks.Perm (.handleRead i n (.call op next) :: rest)) (pending : List Operation) {data : Text}
    (hthread : c.threads[n]? = some (data, .call op next)) :
    Simulates (perform env
      { l with
        pending := pending
        tasks := .handleRead i n (next (execute env op l.shared).2) :: rest } n op)
      { shared := (execute env op c.shared).1
        threads := c.threads.set n (data, next (execute env op c.shared).2)
        trace := c.trace ++ [(n, ⟨op, (execute env op c.shared).2⟩)] } := by
  have hn : n < c.threads.length := (List.getElem?_eq_some_iff.mp hthread).1
  have hreads : (n :: rest.filterMap Task.read).Nodup := (htask.filterMap Task.read).nodup_iff.mp h.distinct
  have hother (j m : ℕ) (p : Action Reply) (hp : .handleRead j m p ∈ rest) : m ≠ n := by
    rintro rfl
    exact (List.nodup_cons.mp hreads).1 (List.mem_filterMap.mpr ⟨_, hp, rfl⟩)
  rw [h.shared]
  constructor
  · rfl
  · exact congrArg (· ++ _) h.trace
  · exact (map_fst_set hthread _).trans h.data
  · intro j m p hp
    rcases List.mem_cons.mp hp with hself | hrest
    · obtain ⟨rfl, rfl, rfl⟩ := Task.handleRead.inj hself
      exact ⟨data, List.getElem?_set_self hn⟩
    · obtain ⟨data', hdata'⟩ := h.running j m p (htask.mem_iff.mpr (List.mem_cons_of_mem _ hrest))
      exact ⟨data', by rw [List.getElem?_set_ne (hother j m p hrest).symm, hdata']⟩
  · intro m data' p hp
    by_cases hm : n = m
    · subst hm
      rw [List.getElem?_set_self hn] at hp
      obtain ⟨rfl, rfl⟩ := Prod.mk.inj (Option.some.inj hp)
      exact .inl ⟨i, List.mem_cons_self⟩
    · rw [List.getElem?_set_ne hm] at hp
      refine (h.returned m data' p hp).imp_left fun ⟨j, hj⟩ => ⟨j, ?_⟩
      rcases List.mem_cons.mp (htask.mem_iff.mp hj) with hself | hrest
      · exact absurd (Task.handleRead.inj hself).2.1.symm hm
      · exact List.mem_cons_of_mem _ hrest
  · exact hreads

theorem finish (h : Simulates l c) {i n : ℕ} {r : Reply} {rest : List Task}
    (htask : l.tasks.Perm (.handleRead i n (.pure r) :: rest)) : Simulates { l with tasks := rest } c where
  shared := h.shared
  trace := h.trace
  data := h.data
  running j m p hp := h.running j m p (htask.mem_iff.mpr (List.mem_cons_of_mem _ hp))
  returned m data p hp := by
    rcases h.returned m data p hp with ⟨j, hj⟩ | hpure
    · rcases List.mem_cons.mp (htask.mem_iff.mp hj) with hself | hrest
      · exact .inr ⟨r, (Task.handleRead.inj hself).2.2⟩
      · exact .inl ⟨j, hrest⟩
    · exact .inr hpure
  distinct := (List.nodup_cons.mp ((htask.filterMap Task.read).nodup_iff.mp h.distinct)).2

theorem step (h : Simulates l c) (hrun : Run env params db c) {l' : EventLoop Db}
    (hstep : Step env params workers l l') : ∃ c', Run env params db c' ∧ Simulates l' c' := by
  cases hstep with
  | accepted hfree hop =>
    exact ⟨c, hrun, h.congr rfl rfl rfl (.refl _) fun j n p => by simp⟩
  | started htask =>
    refine ⟨c, hrun, h.congr rfl rfl rfl (htask.filterMap Task.read).symm fun j n p => ?_⟩
    simp [startAccept, htask.mem_iff]
  | notAccepted hfree hop => exact ⟨c, hrun, h.congr rfl rfl rfl (.refl _) fun _ _ _ => Iff.rfl⟩
  | @read i rest hfree hop data hdata => exact ⟨_, hrun.tail (.spawn c data), h.spawn env params i rest data⟩
  | notRead hfree hop => exact ⟨c, hrun, h.congr rfl rfl rfl (.refl _) fun _ _ _ => Iff.rfl⟩
  | @performed i n op next rest htask hop =>
    obtain ⟨data, hthread⟩ := h.running i n _ (htask.mem_iff.mpr List.mem_cons_self)
    exact ⟨_, hrun.tail (.run c hthread), h.run env htask l.pending hthread⟩
  | @sent i n w next rest htask =>
    obtain ⟨data, hthread⟩ := h.running i n _ (htask.mem_iff.mpr List.mem_cons_self)
    have hsent := h.run env htask (.asyncWrite i :: l.pending) hthread
    exact ⟨_, hrun.tail (.run c hthread), hsent.congr rfl rfl rfl (.refl _) fun _ _ _ => Iff.rfl⟩
  | returned htask => exact ⟨c, hrun, h.finish htask⟩
  | written hfree hop => exact ⟨c, hrun, h.congr rfl rfl rfl (.refl _) fun _ _ _ => Iff.rfl⟩
  | notWritten hfree hop => exact ⟨c, hrun, h.congr rfl rfl rfl (.refl _) fun _ _ _ => Iff.rfl⟩

end Simulates

theorem simulates_initial (db : Db) : Simulates (.initial db) (.initial (.initial db)) where
  shared := rfl
  trace := rfl
  data := rfl
  running i n p hp := by simp [EventLoop.initial, startAccept] at hp
  returned n data p hp := by simp [Pool.initial] at hp
  distinct := .nil

theorem exists_simulates {l : EventLoop Db} (h : Reachable env params workers db l) :
    ∃ c, Run env params db c ∧ Simulates l c := by
  induction h with
  | refl => exact ⟨_, .refl, simulates_initial db⟩
  | tail _ hstep ih =>
    obtain ⟨c, hrun, hsim⟩ := ih
    exact hsim.step hrun hstep

theorem path_of_task {l : EventLoop Db} (h : Reachable env params workers db l) {i n : ℕ} {p : Action Reply}
    (htask : .handleRead i n p ∈ l.tasks) :
    ∃ data, l.reads[n]? = some data ∧ Path (handleRead env params data) (eventsOf n l.trace) p := by
  obtain ⟨c, hrun, hsim⟩ := exists_simulates h
  obtain ⟨data, hthread⟩ := hsim.running i n p htask
  refine ⟨data, ?_, ?_⟩
  · rw [← hsim.data, List.getElem?_map, hthread, Option.map_some]
  · rw [← hsim.trace]
    exact (Interleaving.Reachable.path hrun).1 n data p hthread

theorem isRead_of_mem {l : EventLoop Db} (h : Reachable env params workers db l) {data : Text}
    (hdata : data ∈ l.reads) : IsRead data := by
  induction h with
  | refl => contradiction
  | tail _ hstep ih =>
    cases hstep with
    | read _ _ hread =>
      rcases List.mem_append.mp hdata with hold | hnew
      · exact ih hold
      · rwa [List.mem_singleton.mp hnew]
    | _ => exact ih hdata

structure Mirrors (l : EventLoop Db) (c : Server Db) : Prop extends Simulates l c where
  accepting : ∃ i rest, l.pending.Perm (.asyncAccept i :: rest)
  tasks_length : l.tasks.length = c.threads.length
  held : ∀ n data p, c.threads[n]? = some (data, p) → ∃ i, .handleRead i n p ∈ l.tasks

theorem Mirrors.spawn {l : EventLoop Db} {c : Server Db} (h : Mirrors l c) {data : Text} (hdata : IsRead data)
    (hfree : c.threads.length < workers) (hl : Reachable env params workers db l) :
    ∃ l', Reachable env params workers db l' ∧
      Mirrors l' { c with threads := c.threads ++ [(data, handleRead env params data)] } := by
  obtain ⟨i, rest, hop⟩ := h.accepting
  have hlt : l.tasks.length < workers := h.tasks_length ▸ hfree
  have hstarted : Reachable env params workers db (startAccept { l with pending := .asyncReadSome i :: rest }) :=
    (hl.tail (.accepted hlt hop)).tail (.started (.refl _))
  have hpending : (startAccept { l with pending := .asyncReadSome i :: rest }).pending.Perm
      (.asyncReadSome i :: .asyncAccept l.sessions.length :: rest) := List.Perm.swap _ _ rest
  have hread : Step env params workers (startAccept { l with pending := .asyncReadSome i :: rest }) _ :=
    .read (l := startAccept { l with pending := .asyncReadSome i :: rest }) hlt hpending hdata
  have hsim := h.toSimulates.spawn env params i rest data
  refine ⟨_, hstarted.tail hread, hsim.congr rfl rfl rfl (.refl _) fun _ _ _ => Iff.rfl,
    ⟨_, _, .refl _⟩, ?_, ?_⟩
  · simp [receive, startAccept, h.tasks_length]
  · intro n data' p hp
    rcases getElem?_concat_cases hp with hold | ⟨rfl, hnew⟩
    · obtain ⟨j, hj⟩ := h.held n data' p hold
      exact ⟨j, List.mem_cons_of_mem _ hj⟩
    · obtain ⟨rfl, rfl⟩ := Prod.mk.inj hnew
      exact ⟨i, by rw [h.reads_length]; exact List.mem_cons_self⟩

theorem exists_perm_of_mem {α : Type} {x : α} {xs : List α} (h : x ∈ xs) : ∃ rest, xs.Perm (x :: rest) := by
  obtain ⟨before, after, rfl⟩ := List.append_of_mem h
  exact ⟨before ++ after, List.perm_middle⟩

theorem Mirrors.run {l : EventLoop Db} {c : Server Db} (h : Mirrors l c) (hl : Reachable env params workers db l)
    {n : ℕ} {data : Text} {op : Op} {next : Ret op → Action Reply}
    (hthread : c.threads[n]? = some (data, .call op next)) :
    ∃ l', Reachable env params workers db l' ∧
      Mirrors l'
        { shared := (execute env op c.shared).1
          threads := c.threads.set n (data, next (execute env op c.shared).2)
          trace := c.trace ++ [(n, ⟨op, (execute env op c.shared).2⟩)] } := by
  obtain ⟨i, hmem⟩ := h.held n data _ hthread
  obtain ⟨left, htask⟩ := exists_perm_of_mem hmem
  have hkept (m : ℕ) (data' : Text) (p : Action Reply)
      (hp : (c.threads.set n (data, next (execute env op c.shared).2))[m]? = some (data', p)) :
      ∃ j, .handleRead j m p ∈ Task.handleRead i n (next (execute env op c.shared).2) :: left := by
    by_cases hm : n = m
    · subst hm
      rw [List.getElem?_set_self (List.getElem?_eq_some_iff.mp hthread).1] at hp
      obtain ⟨rfl, rfl⟩ := Prod.mk.inj (Option.some.inj hp)
      exact ⟨i, List.mem_cons_self⟩
    · rw [List.getElem?_set_ne hm] at hp
      obtain ⟨j, hj⟩ := h.held m data' p hp
      rcases List.mem_cons.mp (htask.mem_iff.mp hj) with hself | hrest
      · exact absurd (Task.handleRead.inj hself).2.1.symm hm
      · exact ⟨j, List.mem_cons_of_mem _ hrest⟩
  have hlength : l.tasks.length = (c.threads.set n (data, next (execute env op c.shared).2)).length := by
    rw [List.length_set, h.tasks_length]
  have hmirrors (pending : List Operation) (haccept : ∃ j rest, pending.Perm (.asyncAccept j :: rest)) :
      Mirrors (perform env
        { l with
          pending := pending
          tasks := .handleRead i n (next (execute env op l.shared).2) :: left } n op) _ :=
    ⟨h.toSimulates.run env htask pending hthread, haccept, htask.length_eq.symm.trans hlength, h.shared ▸ hkept⟩
  obtain ⟨j, rest, haccept⟩ := h.accepting
  by_cases hwrite : ∃ bytes, op = .asyncWrite bytes
  · obtain ⟨bytes, rfl⟩ := hwrite
    obtain ⟨hsim, haccepting, htasks_length, hheld⟩ :=
      hmirrors (.asyncWrite i :: l.pending) ⟨j, _, (haccept.cons _).trans (.swap _ _ rest)⟩
    exact ⟨_, hl.tail (.sent (.unharmed bytes) htask), hsim.congr rfl rfl rfl (.refl _) fun _ _ _ => Iff.rfl, haccepting, htasks_length,
      hheld⟩
  · exact ⟨_, hl.tail (.performed htask fun bytes hop => hwrite ⟨bytes, hop⟩), hmirrors l.pending ⟨j, rest, haccept⟩⟩

theorem exists_mirrors {c : Server Db} (h : Run env params db c)
    (hreads : ∀ data ∈ c.threads.map Prod.fst, IsRead data) (hworkers : c.threads.length < workers) :
    ∃ l, Reachable env params workers db l ∧ Mirrors l c := by
  induction h with
  | refl =>
    refine ⟨_, .refl, simulates_initial db, ⟨0, [], .refl _⟩, rfl, fun n data p hp => ?_⟩
    simp [Pool.initial] at hp
  | tail _ hstep ih =>
    cases hstep with
    | spawn data =>
      simp only [List.map_append, List.mem_append, List.length_append, List.length_singleton] at hreads hworkers
      obtain ⟨l, hl, hmirrors⟩ := ih (fun data' hdata' => hreads data' (.inl hdata')) (by omega)
      exact hmirrors.spawn (hreads data (.inr List.mem_cons_self)) (by omega) hl
    | run hthread =>
      simp only [map_fst_set hthread, List.length_set] at hreads hworkers
      obtain ⟨l, hl, hmirrors⟩ := ih hreads hworkers
      exact hmirrors.run hl hthread

/-- With threads enough, every read has one of its own. -/
theorem loop_iff_run (s : Shared Db) (reads : List Text) (trace : List (ℕ × Event Ret)) :
    (∃ workers l, Reachable env params workers db l ∧ l.shared = s ∧ l.reads = reads ∧ l.trace = trace) ↔
      ∃ c, Run env params db c ∧ c.shared = s ∧ c.threads.map Prod.fst = reads ∧ c.trace = trace ∧
        ∀ data ∈ reads, IsRead data := by
  constructor
  · rintro ⟨workers, l, hl, rfl, rfl, rfl⟩
    obtain ⟨c, hrun, hsim⟩ := exists_simulates hl
    exact ⟨c, hrun, hsim.shared, hsim.data, hsim.trace, fun data hdata => isRead_of_mem hl hdata⟩
  · rintro ⟨c, hrun, rfl, rfl, rfl, hreads⟩
    obtain ⟨l, hl, hmirrors⟩ := exists_mirrors hrun hreads (Nat.lt_succ_self c.threads.length)
    exact ⟨_, l, hl, hmirrors.shared.symm, hmirrors.data.symm, hmirrors.trace.symm⟩

end Bingit.EventLoop
