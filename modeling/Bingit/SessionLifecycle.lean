import Bingit.LoopRefinement

namespace Bingit

open Text Interleaving Session

def Operation.session : Operation → ℕ
  | .asyncAccept i => i
  | .asyncReadSome i => i
  | .asyncWrite i => i

def Operation.isAccept : Operation → Bool
  | .asyncAccept _ => true
  | _ => false

def Task.isStart : Task → Bool
  | .start _ => true
  | .handleRead _ _ _ => false

def Task.owns (i : ℕ) : Task → Bool
  | .start _ => false
  | .handleRead j _ p => decide (j = i) && p.value.isNone

namespace EventLoop

variable {Db : Type} {env : Env Db} {params : ConfigParams} {workers : ℕ} {db : Db}

def accepting (pending : List Operation) (tasks : List Task) : ℕ :=
  pending.countP Operation.isAccept + tasks.countP Task.isStart

def held (pending : List Operation) (tasks : List Task) (i : ℕ) : ℕ :=
  pending.countP (fun op => op.session = i) + tasks.countP (Task.owns i)

def live (sessions : List Connection) (i : ℕ) : ℕ :=
  match sessions[i]? with
  | some c => if c.deleted then 0 else 1
  | none => 0

structure Lifecycle (workers : ℕ) (l : EventLoop Db) : Prop where
  tasks_le : l.tasks.length ≤ workers
  accepting_eq : accepting l.pending l.tasks = 1
  held_eq : ∀ i, held l.pending l.tasks i = live l.sessions i

section

variable {pending rest : List Operation} {tasks left : List Task} {op : Operation} {task : Task}

theorem accepting_op (tasks : List Task) (h : pending.Perm (op :: rest)) :
    accepting pending tasks = accepting rest tasks + if op.isAccept then 1 else 0 := by
  rw [accepting, h.countP_eq, List.countP_cons, accepting]
  omega

theorem accepting_task (pending : List Operation) (h : tasks.Perm (task :: left)) :
    accepting pending tasks = accepting pending left + if task.isStart then 1 else 0 := by
  rw [accepting, h.countP_eq, List.countP_cons, accepting]
  omega

theorem held_op (tasks : List Task) (h : pending.Perm (op :: rest)) (i : ℕ) :
    held pending tasks i = held rest tasks i + if op.session = i then 1 else 0 := by
  rw [held, h.countP_eq, List.countP_cons, held]
  simp only [decide_eq_true_eq]
  omega

theorem held_task (pending : List Operation) (h : tasks.Perm (task :: left)) (i : ℕ) :
    held pending tasks i = held pending left i + if task.owns i then 1 else 0 := by
  rw [held, h.countP_eq, List.countP_cons, held]
  omega

end

section

variable (sessions : List Connection)

theorem live_le (i : ℕ) : live sessions i ≤ 1 := by
  rw [live]
  split
  · split <;> omega
  · omega

theorem live_concat (i : ℕ) :
    live (sessions ++ [⟨false, [], []⟩]) i = if i = sessions.length then 1 else live sessions i := by
  rw [live, List.getElem?_append]
  split_ifs with hlt heq heq
  · omega
  · rfl
  · subst heq
    simp
  · have hnone : live sessions i = 0 := by
      rw [live, List.getElem?_eq_none_iff.mpr (by omega)]
    rw [hnone, List.getElem?_eq_none_iff.mpr (by rw [List.length_singleton]; omega)]

theorem live_modify (f : Connection → Connection) (hf : ∀ c, (f c).deleted = c.deleted) (j i : ℕ) :
    live (sessions.modify j f) i = live sessions i := by
  rw [live, live, List.getElem?_modify]
  by_cases hij : j = i
  · subst hij
    cases hsession : sessions[j]? <;> simp [hf]
  · simp [hij]

theorem live_delete (j i : ℕ) :
    live (sessions.modify j fun c => { c with deleted := true }) i = if i = j then 0 else live sessions i := by
  rw [live, live, List.getElem?_modify]
  by_cases hij : j = i
  · subst hij
    cases hsession : sessions[j]? <;> simp
  · rw [if_neg (Ne.symm hij)]
    simp [hij]

end

theorem Lifecycle.startAccept {l : EventLoop Db} (hle : l.tasks.length ≤ workers)
    (haccepting : accepting l.pending l.tasks = 0) (hheld : ∀ i, held l.pending l.tasks i = live l.sessions i) :
    Lifecycle workers l.startAccept := by
  refine ⟨hle, ?_, fun i => ?_⟩
  · change accepting (.asyncAccept _ :: l.pending) l.tasks = 1
    rw [accepting_op _ (.refl _), haccepting]
    rfl
  · change held (.asyncAccept l.sessions.length :: l.pending) l.tasks i = live (l.sessions ++ _) i
    have hlast : live l.sessions l.sessions.length = 0 := by
      rw [live, List.getElem?_eq_none_iff.mpr (Nat.le_refl _)]
    rw [held_op _ (.refl _), live_concat, hheld, Operation.session]
    split_ifs with h₁ h₂ h₂
    · rw [h₂, hlast]
    · exact absurd h₁.symm h₂
    · exact absurd h₂.symm h₁
    · rfl

theorem Lifecycle.held_rest {l : EventLoop Db} (hl : Lifecycle workers l) {op : Operation} {rest : List Operation}
    (hop : l.pending.Perm (op :: rest)) (i : ℕ) :
    held rest l.tasks i = if i = op.session then 0 else live l.sessions i := by
  have hi := hl.held_eq i
  have hle := live_le l.sessions i
  rw [held_op _ hop] at hi
  split_ifs at hi ⊢ <;> omega

theorem Lifecycle.delete {l : EventLoop Db} (hl : Lifecycle workers l) {op : Operation} {rest : List Operation}
    (hop : l.pending.Perm (op :: rest)) (haccept : op.isAccept = false) :
    Lifecycle workers (EventLoop.delete { l with pending := rest } op.session) := by
  refine ⟨hl.tasks_le, ?_, fun j => ?_⟩
  · have haccepting := hl.accepting_eq
    rw [accepting_op _ hop, haccept] at haccepting
    exact haccepting
  · exact (hl.held_rest hop j).trans (live_delete l.sessions op.session j).symm

theorem Lifecycle.replace {l : EventLoop Db} (hl : Lifecycle workers l) {op op' : Operation} {rest : List Operation}
    (hop : l.pending.Perm (op :: rest)) (haccept : op'.isAccept = op.isAccept) (hsession : op'.session = op.session) :
    Lifecycle workers { l with pending := op' :: rest } := by
  refine ⟨hl.tasks_le, ?_, fun j => ?_⟩
  · rw [← hl.accepting_eq, accepting_op _ (.refl _), accepting_op _ hop, haccept]
  · rw [← hl.held_eq, held_op _ (.refl _), held_op _ hop, hsession]

theorem lifecycle_step {l l' : EventLoop Db} (h : Reachable env params workers db l) (hl : Lifecycle workers l)
    (hstep : Step env params workers l l') : Lifecycle workers l' := by
  have haccepting := hl.accepting_eq
  have hheld := hl.held_eq
  cases hstep with
  | @accepted i rest hfree hop =>
    rw [accepting_op _ hop] at haccepting
    refine ⟨hfree, ?_, fun j => ?_⟩
    · rw [accepting_op _ (.refl _), accepting_task _ (.refl _)]
      exact haccepting
    · have hj := hheld j
      rw [held_op _ hop] at hj
      rw [held_op _ (.refl _), held_task _ (.refl _)]
      exact hj
  | @started i rest htask =>
    have hle := htask.length_eq ▸ hl.tasks_le
    rw [accepting_task _ htask] at haccepting
    refine .startAccept (Nat.le_of_succ_le hle) ?_ fun j => ?_
    · exact Nat.succ.inj haccepting
    · have hj := hheld j
      rw [held_task _ htask] at hj
      exact hj
  | @notAccepted i rest hfree hop =>
    rw [accepting_op _ hop] at haccepting
    refine .startAccept hl.tasks_le (Nat.succ.inj haccepting) fun j => ?_
    exact (hl.held_rest hop j).trans (live_delete l.sessions i j).symm
  | @read i rest hfree hop data hdata =>
    rw [accepting_op _ hop] at haccepting
    refine ⟨hfree, ?_, fun j => ?_⟩
    · rw [receive, accepting_task _ (.refl _)]
      exact haccepting
    · have hj := hheld j
      rw [held_op _ hop] at hj
      simp only [receive]
      rw [live_modify, ← hj, held_task _ (.refl _), Task.owns, value_handleRead]
      · by_cases hij : i = j <;> simp [Operation.session, hij]
      · exact fun _ => rfl
  | @notRead i rest hfree hop => exact hl.delete hop rfl
  | @performed i n op next rest htask hop =>
    obtain ⟨data, -, hpath⟩ := path_of_task h (htask.mem_iff.mpr List.mem_cons_self)
    have hnext := (next_of_path hpath hop (execute env op l.shared).2).1
    rw [accepting_task _ htask] at haccepting
    refine ⟨?_, ?_, fun j => ?_⟩
    · exact htask.length_eq ▸ hl.tasks_le
    · rw [perform, accepting_task _ (.refl _)]
      exact haccepting
    · have hj := hheld j
      rw [held_task _ htask] at hj
      rw [perform, held_task _ (.refl _), Task.owns, hnext]
      exact hj
  | @sent i n w next rest htask =>
    obtain ⟨data, -, hpath⟩ := path_of_task h (htask.mem_iff.mpr List.mem_cons_self)
    obtain ⟨r, es₁, -, -, hnext, -⟩ := next_of_asyncWrite hpath
    rw [accepting_task _ htask] at haccepting
    refine ⟨?_, ?_, fun j => ?_⟩
    · exact htask.length_eq ▸ hl.tasks_le
    · simp only [send, perform]
      rw [accepting_op _ (.refl _), accepting_task _ (.refl _)]
      exact haccepting
    · have hj := hheld j
      rw [held_task _ htask] at hj
      simp only [send, perform]
      rw [live_modify, ← hj, held_op _ (.refl _), held_task _ (.refl _), Task.owns, hnext]
      · by_cases hij : i = j <;> simp [Task.owns, Operation.session, Prog.value, hij]
      · exact fun _ => rfl
  | @returned i n r rest htask =>
    refine ⟨?_, ?_, fun j => ?_⟩
    · have hle := htask.length_eq ▸ hl.tasks_le
      exact Nat.le_of_succ_le hle
    · rw [accepting_task _ htask] at haccepting
      exact haccepting
    · have hj := hheld j
      rw [held_task _ htask, Task.owns] at hj
      simpa [Prog.value] using hj
  | written hfree hop => exact hl.replace hop rfl rfl
  | @notWritten i rest hfree hop => exact hl.delete hop rfl

theorem lifecycle_of_reachable {l : EventLoop Db} (h : Reachable env params workers db l) : Lifecycle workers l := by
  induction h with
  | refl =>
    refine .startAccept (Nat.zero_le _) rfl fun i => ?_
    simp [held, live]
  | tail hreach hstep ih => exact lifecycle_step hreach ih hstep

theorem getElem?_modify_of_ne {sessions : List Connection} {i j : ℕ} (hij : i ≠ j) (f : Connection → Connection) :
    (sessions.modify j f)[i]? = sessions[i]? := by
  rw [List.getElem?_modify]
  simp [hij.symm]

theorem getElem?_startAccept {l : EventLoop Db} {i : ℕ} {c : Connection} (hc : l.sessions[i]? = some c) :
    l.startAccept.sessions[i]? = some c := by
  rw [startAccept, List.getElem?_append_left (List.getElem?_eq_some_iff.mp hc).1, hc]

theorem held_eq_zero {l : EventLoop Db} (hl : Lifecycle workers l) {i : ℕ} {c : Connection}
    (hc : l.sessions[i]? = some c) (hdeleted : c.deleted = true) : held l.pending l.tasks i = 0 := by
  rw [hl.held_eq, live, hc]
  simp [hdeleted]

theorem deleted_step {l l' : EventLoop Db} (h : Reachable env params workers db l)
    (hstep : Step env params workers l l') {i : ℕ} {c : Connection} (hc : l.sessions[i]? = some c)
    (hdeleted : c.deleted = true) : l'.sessions[i]? = some c := by
  have hheld := held_eq_zero (lifecycle_of_reachable h) hc hdeleted
  have hop (op : Operation) (rest : List Operation) (hop : l.pending.Perm (op :: rest)) : i ≠ op.session := by
    rintro rfl
    rw [held_op _ hop, if_pos rfl] at hheld
    omega
  cases hstep with
  | accepted => exact hc
  | started => exact getElem?_startAccept hc
  | notAccepted _ hpending => exact getElem?_startAccept ((getElem?_modify_of_ne (hop _ _ hpending) _).trans hc)
  | read _ hpending => exact (getElem?_modify_of_ne (hop _ _ hpending) _).trans hc
  | notRead _ hpending => exact (getElem?_modify_of_ne (hop _ _ hpending) _).trans hc
  | performed => exact hc
  | @sent j n w next rest htask =>
    refine (getElem?_modify_of_ne ?_ _).trans hc
    rintro rfl
    rw [held_task _ htask, if_pos (by simp [Task.owns, Prog.value])] at hheld
    omega
  | returned => exact hc
  | written => exact hc
  | notWritten _ hpending => exact (getElem?_modify_of_ne (hop _ _ hpending) _).trans hc

theorem session_lifecycle {l : EventLoop Db} (h : Reachable env params workers db l) :
    Lifecycle workers l ∧
    ∀ l', Relation.ReflTransGen (Step env params workers) l l' → ∀ i c, l.sessions[i]? = some c → c.deleted = true →
      l'.sessions[i]? = some c ∧ held l'.pending l'.tasks i = 0 := by
  refine ⟨lifecycle_of_reachable h, fun l' hrun i c hc hdeleted => ?_⟩
  have hsame : l'.sessions[i]? = some c := by
    induction hrun with
    | refl => exact hc
    | tail hreach hstep ih => exact deleted_step (h.trans hreach) hstep ih hdeleted
  exact ⟨hsame, held_eq_zero (lifecycle_of_reachable (h.trans hrun)) hsame hdeleted⟩

theorem session_lifecycle_deleted :
    Lifecycle 1 (loop plainEnv statusParams 1 () (twoReads ++ [.resume 0, .complete 0 none])) ∧
      ∃ c, c.deleted = true ∧
        ∀ l', Relation.ReflTransGen (Step plainEnv statusParams 1)
            (loop plainEnv statusParams 1 () (twoReads ++ [.resume 0, .complete 0 none])) l' →
          l'.sessions[0]? = some c ∧ held l'.pending l'.tasks 0 = 0 := by
  have hdeleted : (loop plainEnv statusParams 1 () (twoReads ++ [.resume 0, .complete 0 none])).sessions[0]?.map
      Connection.deleted = some true := by
    decide +kernel
  obtain ⟨c, hc, hcdeleted⟩ := Option.map_eq_some_iff.mp hdeleted
  obtain ⟨hlife, hlater⟩ := @session_lifecycle Unit plainEnv statusParams 1 () _
    (reachable_loop (twoReads ++ [.resume 0, .complete 0 none]))
  exact ⟨hlife, c, hcdeleted, fun l' hrun => hlater l' hrun 0 c hc hcdeleted⟩

theorem pending_read_of_start (hworkers : workers ≤ 1) {l : EventLoop Db} (h : Reachable env params workers db l)
    {i : ℕ} (hstart : .start i ∈ l.tasks) : .asyncReadSome i ∈ l.pending := by
  have hle (m : EventLoop Db) (hm : Reachable env params workers db m) : m.tasks.length ≤ 1 :=
    (lifecycle_of_reachable hm).tasks_le.trans hworkers
  have hidle (m : EventLoop Db) (hfree : m.tasks.length < workers) : m.tasks = [] :=
    List.length_eq_zero_iff.mp (by omega)
  have hrest (m : EventLoop Db) (hm : Reachable env params workers db m) (task : Task) (rest : List Task)
      (htask : m.tasks.Perm (task :: rest)) : rest = [] := by
    have hlength := htask.length_eq ▸ hle m hm
    exact List.length_eq_zero_iff.mp (Nat.le_zero.mp (Nat.le_of_succ_le_succ hlength))
  induction h with
  | refl => contradiction
  | @tail l l' hl hstep ih =>
    cases hstep with
    | accepted hfree _ =>
      rw [hidle l hfree] at hstart
      obtain rfl := Task.start.inj (List.mem_singleton.mp hstart)
      exact List.mem_cons_self
    | started htask =>
      obtain rfl := hrest l hl _ _ htask
      contradiction
    | notAccepted hfree _ => simp [startAccept, delete, hidle l hfree] at hstart
    | read hfree _ _ => simp [receive, hidle l hfree] at hstart
    | notRead hfree _ => simp [delete, hidle l hfree] at hstart
    | performed htask _ =>
      obtain rfl := hrest l hl _ _ htask
      simp [perform] at hstart
    | sent w htask =>
      obtain rfl := hrest l hl _ _ htask
      simp [send, perform] at hstart
    | returned htask =>
      obtain rfl := hrest l hl _ _ htask
      contradiction
    | written hfree _ => simp [hidle l hfree] at hstart
    | notWritten hfree _ => simp [delete, hidle l hfree] at hstart

/-- `session::start` asks for the peer after `async_read_some`. -/
theorem start_after_delete (env : Env Db) (params : ConfigParams) (workers : ℕ) (db : Db) :
    (∃ l i c, Reachable env params workers db l ∧ .start i ∈ l.tasks ∧ l.sessions[i]? = some c ∧ c.deleted = true) ↔
      2 ≤ workers := by
  constructor
  · rintro ⟨l, i, c, h, hstart, hc, hdeleted⟩
    by_contra hworkers
    have hpending := pending_read_of_start (by omega) h hstart
    have hheld := held_eq_zero (lifecycle_of_reachable h) hc hdeleted
    have hpos : 0 < l.pending.countP (fun op => op.session = i) :=
      List.countP_pos_iff.mpr ⟨_, hpending, by simp [Operation.session]⟩
    rw [held] at hheld
    omega
  · intro hworkers
    have haccepted : Step env params workers (.initial db)
        { EventLoop.initial db with pending := [.asyncReadSome 0], tasks := [.start 0] } :=
      .accepted (Nat.lt_of_lt_of_le Nat.zero_lt_two hworkers) (.refl _)
    have hdeleted : Step env params workers
        { EventLoop.initial db with pending := [.asyncReadSome 0], tasks := [.start 0] }
        (delete { EventLoop.initial db with pending := [], tasks := [.start 0] } 0) := .notRead hworkers (.refl _)
    refine ⟨_, 0, ⟨true, [], []⟩, (Relation.ReflTransGen.single haccepted).tail hdeleted, ?_, rfl, rfl⟩
    exact List.mem_cons_self

end EventLoop

end Bingit
