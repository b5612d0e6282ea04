import Bingit.SessionLifecycle

namespace Bingit

open Text Interleaving Session

def Task.reading (i : ℕ) : Task → Option ℕ
  | .start _ => none
  | .handleRead j n p => if j = i ∧ p.value = none then some n else none

namespace EventLoop

variable {Db : Type} {env : Env Db} {params : ConfigParams} {workers : ℕ} {db : Db}

def unanswered (tasks : List Task) (i : ℕ) : List ℕ := tasks.filterMap (Task.reading i)

def Replied (env : Env Db) (params : ConfigParams) (l : EventLoop Db) (n : ℕ) (bytes : Text) : Prop :=
  ∃ data r es, l.reads[n]? = some data ∧ Path (respond env params (parseRequestLine data)) es (.pure r) ∧
    eventsOf n l.trace = es ++ finish env.order (parseRequestLine data).path r ∧
    bytes = constructHttpResponse env.order r

def InOrder (env : Env Db) (params : ConfigParams) (l : EventLoop Db) (i : ℕ) (c : Connection) : Prop :=
  ∃ answered, c.received = answered ++ unanswered l.tasks i ∧
    List.Forall₂ (Replied env params l) answered (c.sent.map Write.response)

theorem length_unanswered (tasks : List Task) (i : ℕ) : (unanswered tasks i).length = tasks.countP (Task.owns i) := by
  induction tasks with
  | nil => rfl
  | cons task tasks ih =>
    rw [unanswered, List.filterMap_cons, List.countP_cons, ← ih, unanswered]
    cases task with
    | start j => rfl
    | handleRead j n p =>
      by_cases hj : j = i <;> cases hp : p.value <;> simp [Task.reading, Task.owns, hj, hp]

theorem unanswered_le {l : EventLoop Db} (hl : Lifecycle workers l) (i : ℕ) : (unanswered l.tasks i).length ≤ 1 := by
  have hheld := hl.held_eq i
  have hle := live_le l.sessions i
  rw [held] at hheld
  rw [length_unanswered]
  omega

theorem perm_eq_of_length_le {α : Type} {xs ys : List α} (h : xs.Perm ys) (hle : xs.length ≤ 1) : xs = ys := by
  cases xs with
  | nil => exact (List.nil_perm.mp h).symm
  | cons x xs =>
    obtain rfl : xs = [] := List.length_eq_zero_iff.mp (by simpa using hle)
    exact List.singleton_perm.mp h

theorem unanswered_perm {l : EventLoop Db} (hl : Lifecycle workers l) {tasks : List Task} (h : l.tasks.Perm tasks)
    (i : ℕ) : unanswered l.tasks i = unanswered tasks i :=
  perm_eq_of_length_le (h.filterMap (Task.reading i)) (unanswered_le hl i)

theorem path_of_respond {data : Text} {es : List (Event Ret)} {r : Reply}
    (h : Path (respond env params (parseRequestLine data)) es (.pure r)) :
    Path (handleRead env params data) (es ++ finish env.order (parseRequestLine data).path r) (.pure r) :=
  h.bind (.call (.call (.nil _)))

theorem replied_event {l : EventLoop Db} (h : Reachable env params workers db l) {n m j : ℕ} {bytes : Text}
    (hreplied : Replied env params l n bytes) {op : Op} {next : Ret op → Action Reply}
    (htask : .handleRead j m (.call op next) ∈ l.tasks) (e : Event Ret) :
    eventsOf n (l.trace ++ [(m, e)]) = eventsOf n l.trace := by
  rw [eventsOf_concat, if_neg]
  rintro rfl
  obtain ⟨data, r, es, hdata, hrespond, hevents, -⟩ := hreplied
  obtain ⟨data', hdata', hpath⟩ := path_of_task h htask
  obtain rfl := Option.some.inj (hdata.symm.trans hdata')
  rw [hevents] at hpath
  have hdone := (path_of_respond hrespond).det hpath
  contradiction

theorem replied_step {l l' : EventLoop Db} (h : Reachable env params workers db l)
    (hstep : Step env params workers l l') {n : ℕ} {bytes : Text} (hreplied : Replied env params l n bytes) :
    Replied env params l' n bytes := by
  have hsame := hreplied
  obtain ⟨data, r, es, hdata, hrespond, hevents, hbytes⟩ := hreplied
  cases hstep with
  | read =>
    refine ⟨data, r, es, ?_, hrespond, hevents, hbytes⟩
    exact (List.getElem?_append_left (List.getElem?_eq_some_iff.mp hdata).1).trans hdata
  | performed htask _ =>
    refine ⟨data, r, es, hdata, hrespond, ?_, hbytes⟩
    exact (replied_event h hsame (htask.mem_iff.mpr List.mem_cons_self) _).trans hevents
  | sent w htask =>
    refine ⟨data, r, es, hdata, hrespond, ?_, hbytes⟩
    exact (replied_event h hsame (htask.mem_iff.mpr List.mem_cons_self) _).trans hevents
  | _ => exact ⟨data, r, es, hdata, hrespond, hevents, hbytes⟩

theorem InOrder.mono {l l' : EventLoop Db} {i : ℕ} {c : Connection} (h : InOrder env params l i c)
    (hreplied : ∀ n bytes, Replied env params l n bytes → Replied env params l' n bytes)
    (htasks : unanswered l'.tasks i = unanswered l.tasks i) : InOrder env params l' i c := by
  obtain ⟨answered, hreceived, hsent⟩ := h
  exact ⟨answered, by rw [htasks, hreceived], hsent.imp hreplied⟩

theorem inOrder_concat {l : EventLoop Db} {sessions : List Connection}
    (hsessions : l.sessions = sessions ++ [⟨false, [], []⟩]) (hnew : unanswered l.tasks sessions.length = [])
    (h : ∀ i c, sessions[i]? = some c → InOrder env params l i c) {i : ℕ} {c : Connection}
    (hc : l.sessions[i]? = some c) : InOrder env params l i c := by
  rw [hsessions] at hc
  rcases getElem?_concat_cases hc with hold | ⟨rfl, rfl⟩
  · exact h i c hold
  · exact ⟨[], hnew.symm, .nil⟩

theorem inOrder_modify {l l' : EventLoop Db} {j : ℕ} {f : Connection → Connection}
    (hother : ∀ i c, i ≠ j → InOrder env params l i c → InOrder env params l' i c)
    (hself : ∀ c, InOrder env params l j c → InOrder env params l' j (f c))
    (h : ∀ i c, l.sessions[i]? = some c → InOrder env params l i c) {i : ℕ} {c : Connection}
    (hc : (l.sessions.modify j f)[i]? = some c) : InOrder env params l' i c := by
  rw [List.getElem?_modify] at hc
  by_cases hij : j = i
  · subst hij
    simp only [if_pos, Option.map_eq_map, Option.map_eq_some_iff] at hc
    obtain ⟨c', hc', rfl⟩ := hc
    exact hself c' (h j c' hc')
  · simp only [if_neg hij, Option.map_eq_map, Option.map_id'] at hc
    exact hother i c (Ne.symm hij) (h i c hc)

theorem inOrder_delete {l l' : EventLoop Db} (htasks : l'.tasks = l.tasks)
    (hreplied : ∀ n bytes, Replied env params l n bytes → Replied env params l' n bytes)
    (h : ∀ i c, l.sessions[i]? = some c → InOrder env params l i c) {i j : ℕ} {c : Connection}
    (hc : (l.sessions.modify j fun c => { c with deleted := true })[i]? = some c) : InOrder env params l' i c := by
  have hsame (i : ℕ) : unanswered l'.tasks i = unanswered l.tasks i := by rw [htasks]
  exact inOrder_modify (f := fun c => { c with deleted := true }) (fun i c _ hi => hi.mono hreplied (hsame i))
    (fun c hj => hj.mono hreplied (hsame j)) h hc

theorem unanswered_eq_nil {l : EventLoop Db} (hl : Lifecycle workers l) {i : ℕ}
    (hheld : live l.sessions i ≤ l.pending.countP (fun op => op.session = i)) : unanswered l.tasks i = [] := by
  have hi := hl.held_eq i
  rw [held] at hi
  apply List.length_eq_zero_iff.mp
  rw [length_unanswered]
  omega

theorem inOrder_step {l l' : EventLoop Db} (hl : Reachable env params workers db l)
    (hstep : Step env params workers l l') (h : ∀ i c, l.sessions[i]? = some c → InOrder env params l i c)
    {i : ℕ} {c : Connection} (hc : l'.sessions[i]? = some c) : InOrder env params l' i c := by
  have hreplied (n : ℕ) (bytes : Text) (h : Replied env params l n bytes) : Replied env params l' n bytes :=
    replied_step hl hstep h
  have hlife := lifecycle_of_reachable hl
  have hnew : unanswered l.tasks l.sessions.length = [] := by
    apply unanswered_eq_nil hlife
    rw [live, List.getElem?_eq_none_iff.mpr (Nat.le_refl _)]
    exact Nat.zero_le _
  cases hstep with
  | accepted => exact (h i c hc).mono hreplied rfl
  | @started j rest htask =>
    have htasks (i : ℕ) : unanswered rest i = unanswered l.tasks i := (unanswered_perm hlife htask i).symm
    exact inOrder_concat rfl ((htasks _).trans hnew) (fun i c hi => (h i c hi).mono hreplied (htasks i)) hc
  | @notAccepted j rest hfree hop =>
    refine inOrder_concat (l := startAccept (delete { l with pending := rest } j)) rfl ?_
      (fun i c hi => inOrder_delete rfl hreplied h hi) hc
    simp only [delete, List.length_modify]
    exact hnew
  | @read j rest hfree hop data hdata =>
    refine inOrder_modify (fun i c hij hi => ?_) (fun c hj => ?_) h hc
    · refine hi.mono hreplied ?_
      simp [receive, unanswered, Task.reading, hij.symm]
    · obtain ⟨answered, hreceived, hsent⟩ := hj
      refine ⟨answered, ?_, hsent.imp hreplied⟩
      have hempty : unanswered l.tasks j = [] := by
        apply unanswered_eq_nil hlife
        rw [hop.countP_eq, List.countP_cons, if_pos (by simp [Operation.session])]
        exact (live_le l.sessions j).trans (Nat.le_add_left 1 _)
      rw [hempty, List.append_nil] at hreceived
      change c.received ++ [l.reads.length] = answered ++ unanswered (.handleRead j _ _ :: l.tasks) j
      rw [hreceived, unanswered, List.filterMap_cons_some (b := l.reads.length), ← unanswered, hempty]
      simp [Task.reading, value_handleRead]
  | notRead => exact inOrder_delete rfl hreplied h hc
  | @performed j n op next rest htask hop =>
    refine (h i c hc).mono hreplied ?_
    obtain ⟨data, -, hpath⟩ := path_of_task hl (htask.mem_iff.mpr List.mem_cons_self)
    have hnext := (next_of_path hpath hop (execute env op l.shared).2).1
    have hvalue : (Prog.call op next).value = none := rfl
    rw [unanswered_perm hlife htask i]
    simp only [perform, unanswered, List.filterMap_cons, Task.reading, hnext, hvalue]
  | @sent j n w next rest htask =>
    obtain ⟨data, hdata, hpath⟩ := path_of_task hl (htask.mem_iff.mpr List.mem_cons_self)
    obtain ⟨r, es, hrespond, hevents, hnext, hbytes⟩ := next_of_asyncWrite hpath
    have hcons (i : ℕ) : unanswered l.tasks i = if j = i then n :: unanswered rest i else unanswered rest i := by
      rw [unanswered_perm hlife htask i, unanswered, List.filterMap_cons, Task.reading]
      by_cases hij : j = i <;> simp [hij, Prog.value, unanswered]
    have hleft (i : ℕ) : unanswered (.handleRead j n (next ()) :: rest) i = unanswered rest i := by
      simp [unanswered, Task.reading, hnext, Prog.value]
    refine inOrder_modify (fun i c hij hi => ?_) (fun c hj => ?_) h hc
    · refine hi.mono hreplied ?_
      rw [hcons, if_neg hij.symm]
      exact hleft i
    · obtain ⟨answered, hreceived, hsent⟩ := hj
      have hempty : unanswered rest j = [] := by
        have hle := unanswered_le hlife j
        rw [hcons, if_pos rfl] at hle
        exact List.length_eq_zero_iff.mp (Nat.le_zero.mp (Nat.le_of_succ_le_succ hle))
      refine ⟨answered ++ [n], ?_, ?_⟩
      · change c.received = answered ++ [n] ++ unanswered (.handleRead j n (next ()) :: rest) j
        rw [hleft, hempty, hreceived, hcons, if_pos rfl, hempty, List.append_nil]
      · rw [List.map_append]
        refine List.rel_append (hsent.imp hreplied) (.cons ?_ .nil)
        refine ⟨data, r, es, hdata, hrespond, ?_, hbytes⟩
        rw [← hevents]
        exact (eventsOf_concat n n _ _).trans (if_pos rfl)
  | returned htask =>
    refine (h i c hc).mono hreplied ?_
    rw [unanswered_perm hlife htask i]
    simp [unanswered, Task.reading, Prog.value]
  | written => exact (h i c hc).mono hreplied rfl
  | notWritten => exact inOrder_delete rfl hreplied h hc

theorem inOrder_of_reachable {l : EventLoop Db} (h : Reachable env params workers db l) {i : ℕ} {c : Connection}
    (hc : l.sessions[i]? = some c) : InOrder env params l i c := by
  induction h generalizing i c with
  | refl =>
    have hnone (i : ℕ) (c : Connection) (hc : ([] : List Connection)[i]? = some c) :
        InOrder env params (.initial db) i c := by
      simp at hc
    exact inOrder_concat (l := .initial db) rfl rfl hnone hc
  | tail hreach hstep ih => exact inOrder_step hreach hstep (fun _ _ hc => ih hc) hc

theorem exists_session {l : EventLoop Db} (hl : Lifecycle workers l) {i : ℕ} (hheld : 0 < held l.pending l.tasks i) :
    ∃ c, l.sessions[i]? = some c ∧ c.deleted = false := by
  rw [hl.held_eq, live] at hheld
  split at hheld
  · next c hc =>
    split at hheld
    · contradiction
    · next hdeleted => exact ⟨c, hc, Bool.eq_false_iff.mpr hdeleted⟩
  · contradiction

theorem modify_split {sessions : List Connection} {i : ℕ} {c : Connection} (hc : sessions[i]? = some c)
    (f : Connection → Connection) :
    ∃ before after, sessions = before ++ c :: after ∧ sessions.modify i f = before ++ f c :: after := by
  obtain ⟨hi, rfl⟩ := List.getElem?_eq_some_iff.mp hc
  refine ⟨sessions.take i, sessions.drop (i + 1), ?_, List.modify_eq_take_cons_drop hi⟩
  rw [List.getElem_cons_drop, List.take_append_drop]

theorem map_modify {α : Type} {f : Connection → Connection} {g : Connection → α} (hf : ∀ c, g (f c) = g c)
    (sessions : List Connection) (i : ℕ) : (sessions.modify i f).map g = sessions.map g := by
  cases hc : sessions[i]? with
  | none => rw [List.modify_eq_self (List.getElem?_eq_none_iff.mp hc)]
  | some c =>
    obtain ⟨before, after, hsessions, hmodify⟩ := modify_split hc f
    rw [hmodify, hsessions, List.map_append, List.map_append, List.map_cons, List.map_cons, hf]

section

variable (l : EventLoop Db) (i : ℕ)

theorem received_delete : (l.delete i).sessions.map Connection.received = l.sessions.map Connection.received := by
  rw [delete, map_modify]
  exact fun _ => rfl

theorem received_send (w : Write) :
    (l.send i w).sessions.map Connection.received = l.sessions.map Connection.received := by
  rw [send, map_modify]
  exact fun _ => rfl

theorem sent_delete : (l.delete i).sessions.map Connection.sent = l.sessions.map Connection.sent := by
  rw [delete, map_modify]
  exact fun _ => rfl

theorem sent_receive (data : Text) :
    (l.receive i data).sessions.map Connection.sent = l.sessions.map Connection.sent := by
  rw [receive, map_modify]
  exact fun _ => rfl

end

theorem held_pos_of_op {l : EventLoop Db} {op : Operation} {rest : List Operation}
    (hop : l.pending.Perm (op :: rest)) : 0 < held l.pending l.tasks op.session := by
  rw [held_op _ hop, if_pos rfl]
  exact Nat.succ_pos _

structure Partitioned (l : EventLoop Db) : Prop where
  perm : (l.sessions.map Connection.received).flatten.Perm (List.range l.reads.length)
  sublist : ∀ c ∈ l.sessions, c.received.Sublist (List.range l.reads.length)

theorem Partitioned.congr {l l' : EventLoop Db} (h : Partitioned l) (hreads : l'.reads = l.reads)
    (hsessions : l'.sessions.map Connection.received = l.sessions.map Connection.received) : Partitioned l' := by
  refine ⟨by rw [hsessions, hreads]; exact h.perm, fun c hc => ?_⟩
  have hmem : c.received ∈ l.sessions.map Connection.received := hsessions ▸ List.mem_map_of_mem hc
  obtain ⟨c', hc', hreceived⟩ := List.mem_map.mp hmem
  rw [← hreceived, hreads]
  exact h.sublist c' hc'

theorem Partitioned.startAccept {l : EventLoop Db} (h : Partitioned l) : Partitioned l.startAccept := by
  refine ⟨?_, fun c hc => ?_⟩
  · simpa [EventLoop.startAccept] using h.perm
  · rcases List.mem_append.mp hc with hold | hnew
    · exact h.sublist c hold
    · rw [List.mem_singleton.mp hnew]
      exact List.nil_sublist _

theorem Partitioned.receive {l : EventLoop Db} (h : Partitioned l) {i : ℕ} {c : Connection}
    (hc : l.sessions[i]? = some c) (data : Text) : Partitioned (l.receive i data) := by
  have hrange : List.range (l.reads ++ [data]).length = List.range l.reads.length ++ [l.reads.length] := by
    rw [List.length_append, List.length_singleton, List.range_succ]
  obtain ⟨before, after, hsessions, hmodify⟩ :=
    modify_split hc fun c => { c with received := c.received ++ [l.reads.length] }
  refine ⟨?_, fun c' hc' => ?_⟩
  · change ((l.sessions.modify i _).map Connection.received).flatten.Perm (List.range (l.reads ++ [data]).length)
    rw [hmodify, hrange]
    have hperm := h.perm.append_right [l.reads.length]
    refine List.Perm.trans ?_ hperm
    rw [hsessions]
    simp only [List.map_append, List.map_cons, List.flatten_append, List.flatten_cons, List.append_assoc]
    refine List.Perm.append_left _ (List.Perm.append_left _ ?_)
    exact List.perm_append_comm
  · change c' ∈ l.sessions.modify i _ at hc'
    change c'.received.Sublist (List.range (l.reads ++ [data]).length)
    rw [hrange]
    rw [hmodify] at hc'
    rcases List.mem_append.mp hc' with hbefore | hc'
    · exact (h.sublist c' (by simp [hsessions, hbefore])).trans (List.sublist_append_left _ _)
    · rcases List.mem_cons.mp hc' with rfl | hafter
      · exact (h.sublist c (by simp [hsessions])).append_right _
      · exact (h.sublist c' (by simp [hsessions, hafter])).trans (List.sublist_append_left _ _)

theorem partitioned_step {l l' : EventLoop Db} (hl : Lifecycle workers l) (hstep : Step env params workers l l')
    (h : Partitioned l) : Partitioned l' := by
  cases hstep with
  | started => exact Partitioned.startAccept (h.congr rfl rfl)
  | notAccepted => exact Partitioned.startAccept (h.congr rfl (received_delete _ _))
  | @read i rest hfree hop data hdata =>
    obtain ⟨c, hc, -⟩ := exists_session hl (held_pos_of_op hop)
    exact (h.receive hc data).congr rfl rfl
  | notRead => exact h.congr rfl (received_delete _ _)
  | sent => exact h.congr rfl (received_send _ _ _)
  | notWritten => exact h.congr rfl (received_delete _ _)
  | _ => exact h.congr rfl rfl

theorem partitioned_of_reachable {l : EventLoop Db} (h : Reachable env params workers db l) : Partitioned l := by
  induction h with
  | refl => exact Partitioned.startAccept ⟨.nil, by simp⟩
  | tail hreach hstep ih => exact partitioned_step (lifecycle_of_reachable hreach) hstep ih

/-- Pipelined or not, reads are answered in their order. -/
theorem replies_in_order {l : EventLoop Db} (h : Reachable env params workers db l) :
    (l.sessions.map Connection.received).flatten.Perm (List.range l.reads.length) ∧
    ∀ i c, l.sessions[i]? = some c → c.received.Sublist (List.range l.reads.length) ∧
      (unanswered l.tasks i).length ≤ 1 ∧
      ∃ answered, c.received = answered ++ unanswered l.tasks i ∧
        List.Forall₂ (Replied env params l) answered (c.sent.map Write.response) := by
  obtain ⟨hperm, hsublist⟩ := partitioned_of_reachable h
  refine ⟨hperm, fun i c hc => ⟨hsublist c (List.mem_of_getElem? hc), ?_, inOrder_of_reachable h hc⟩⟩
  exact unanswered_le (lifecycle_of_reachable h) i

theorem twoReads_connection :
    ∃ c, (loop plainEnv statusParams 1 () twoReads).sessions[0]? = some c ∧ c.received = [0, 1] ∧ c.sent.length = 2 ∧
      (∀ w ∈ c.sent, w.Whole) ∧ unanswered (loop plainEnv statusParams 1 () twoReads).tasks 0 = [] := by
  have hread : (loop plainEnv statusParams 1 () twoReads).sessions[0]?.map
      (fun c => (c.received, c.sent.length, c.sent.all fun w => decide w.Whole)) =
        some ([0, 1], 2, true) ∧ unanswered (loop plainEnv statusParams 1 () twoReads).tasks 0 = [] := by
    decide +kernel
  obtain ⟨c, hc, heq⟩ := Option.map_eq_some_iff.mp hread.1
  obtain ⟨hreceived, hlength, hwhole⟩ := by simpa only [Prod.mk.injEq] using heq
  refine ⟨c, hc, hreceived, hlength, fun w hw => ?_, hread.2⟩
  exact of_decide_eq_true (List.all_eq_true.mp hwhole w hw)

theorem replies_in_order_twoReads :
    ∃ c, (loop plainEnv statusParams 1 () twoReads).sessions[0]? = some c ∧
      List.Forall₂ (Replied plainEnv statusParams (loop plainEnv statusParams 1 () twoReads)) [0, 1]
        (c.sent.map Write.response) := by
  obtain ⟨c, hc, hreceived, -, -, hempty⟩ := twoReads_connection
  obtain ⟨-, hconnection⟩ := @replies_in_order Unit plainEnv statusParams 1 () _ (reachable_loop twoReads)
  obtain ⟨-, -, answered, hanswered, hsent⟩ := hconnection 0 c hc
  rw [hreceived, hempty, List.append_nil] at hanswered
  exact ⟨c, hc, hanswered ▸ hsent⟩

end EventLoop

end Bingit
