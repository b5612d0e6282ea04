import Bingit.ConnectionOrder

namespace Bingit

open Text Interleaving Session

def Task.unwritten : Task → Bool
  | .start _ => false
  | .handleRead _ _ p => p.value.isNone

def Task.counted : Task → Bool
  | .start _ => false
  | .handleRead _ _ p => EventLoop.awaitsWrite p

namespace EventLoop

variable {Db : Type} {env : Env Db} {params : ConfigParams} {workers : ℕ} {db : Db}

def replies (l : EventLoop Db) : ℕ := ((l.sessions.map Connection.sent).map List.length).sum

theorem replies_congr {l l' : EventLoop Db}
    (h : l'.sessions.map Connection.sent = l.sessions.map Connection.sent) : l'.replies = l.replies := by
  rw [replies, replies, h]

theorem replies_startAccept (l : EventLoop Db) : l.startAccept.replies = l.replies := by
  simp [replies, startAccept]

theorem replies_send {l : EventLoop Db} {i : ℕ} {c : Connection} (hc : l.sessions[i]? = some c) (w : Write) :
    (l.send i w).replies = l.replies + 1 := by
  obtain ⟨before, after, hsessions, hmodify⟩ := modify_split hc fun c => { c with sent := c.sent ++ [w] }
  rw [replies, replies, send, hmodify, hsessions]
  simp [Nat.add_assoc, Nat.add_comm, Nat.add_left_comm]

structure Conserved (l : EventLoop Db) : Prop where
  reads : l.reads.length = l.replies + l.tasks.countP Task.unwritten
  updates : (updates l.trace).length = l.replies + l.tasks.countP Task.counted

theorem countP_task (p : Task → Bool) {tasks rest : List Task} {task : Task} (h : tasks.Perm (task :: rest)) :
    tasks.countP p = rest.countP p + if p task then 1 else 0 := by
  rw [h.countP_eq, List.countP_cons]

theorem awaitsWrite_call {op : Op} (hop : ∀ bytes, op ≠ .asyncWrite bytes) (next : Ret op → Action Reply) :
    awaitsWrite (.call op next) = false := by
  cases op with
  | asyncWrite bytes => exact absurd rfl (hop bytes)
  | _ => rfl

theorem length_updates_concat (trace : List (ℕ × Event Ret)) (n : ℕ) (e : Event Ret) :
    (updates (trace ++ [(n, e)])).length = (updates trace).length + if (updateOf e).isSome then 1 else 0 := by
  rw [updates_append, List.length_append, updates, updates, List.filterMap_cons]
  cases updateOf e <;> rfl

theorem Conserved.congr {l l' : EventLoop Db} (h : Conserved l) (hreplies : l'.replies = l.replies)
    (hreads : l'.reads = l.reads) (htrace : l'.trace = l.trace)
    (hunwritten : l'.tasks.countP Task.unwritten = l.tasks.countP Task.unwritten)
    (hcounted : l'.tasks.countP Task.counted = l.tasks.countP Task.counted) : Conserved l' :=
  ⟨by rw [hreads, hreplies, hunwritten, h.reads], by rw [htrace, hreplies, hcounted, h.updates]⟩

theorem conserved_step {l l' : EventLoop Db} (h : Reachable env params workers db l)
    (hstep : Step env params workers l l') (hl : Conserved l) : Conserved l' := by
  cases hstep with
  | accepted => exact hl.congr rfl rfl rfl rfl rfl
  | started htask =>
    exact hl.congr (replies_startAccept _) rfl rfl (countP_task Task.unwritten htask).symm
      (countP_task Task.counted htask).symm
  | notAccepted =>
    exact hl.congr ((replies_startAccept _).trans (replies_congr (sent_delete _ _))) rfl rfl rfl rfl
  | @read i rest hfree hop data hdata =>
    have hreplies := replies_congr (sent_receive { l with
      pending := rest
      tasks := .handleRead i l.reads.length (Session.handleRead env params data) :: l.tasks } i data)
    constructor
    · rw [hreplies]
      simp only [receive, List.length_append, List.length_singleton]
      rw [countP_task _ (.refl _), Task.unwritten, value_handleRead, hl.reads]
      exact Nat.add_assoc ..
    · rw [hreplies]
      simp only [receive]
      rw [countP_task _ (.refl _), Task.counted, awaitsWrite_handleRead, hl.updates]
      rfl
  | notRead => exact hl.congr (replies_congr (sent_delete _ _)) rfl rfl rfl rfl
  | @performed j n op next rest htask hop =>
    obtain ⟨data, -, hpath⟩ := path_of_task h (htask.mem_iff.mpr List.mem_cons_self)
    obtain ⟨hvalue, hawaits⟩ := next_of_path hpath hop (execute env op l.shared).2
    constructor
    · simp only [perform]
      rw [countP_task _ (.refl _), Task.unwritten, hvalue, hl.reads, countP_task _ htask, Task.unwritten]
      rfl
    · simp only [perform]
      rw [length_updates_concat, countP_task _ (.refl _), Task.counted, hawaits, hl.updates, countP_task _ htask,
        Task.counted, awaitsWrite_call hop]
      exact Nat.add_assoc ..
  | @sent j n w next rest htask =>
    obtain ⟨data, -, hpath⟩ := path_of_task h (htask.mem_iff.mpr List.mem_cons_self)
    obtain ⟨r, es, -, -, hnext, -⟩ := next_of_asyncWrite hpath
    have hheld : 0 < held l.pending l.tasks j := by
      rw [held_task _ htask, if_pos (by simp [Task.owns, Prog.value])]
      exact Nat.succ_pos _
    obtain ⟨c, hc, -⟩ := exists_session (lifecycle_of_reachable h) hheld
    have hreplies : (send (perform env
        { l with
          pending := .asyncWrite j :: l.pending
          tasks := .handleRead j n (next ()) :: rest } n (.asyncWrite w.response)) j w).replies = l.replies + 1 :=
      replies_send (l := perform env _ n (.asyncWrite w.response)) hc w
    have hreads := hl.reads
    have hupdates := hl.updates
    rw [countP_task _ htask] at hreads hupdates
    constructor
    · rw [hreplies]
      simp only [send, perform]
      rw [countP_task _ (.refl _), Task.unwritten, hnext, hreads]
      simp [Task.unwritten, Prog.value]
      omega
    · rw [hreplies]
      simp only [send, perform]
      rw [length_updates_concat, countP_task _ (.refl _), Task.counted, hnext, hupdates]
      simp [Task.counted, updateOf, awaitsWrite]
      omega
  | returned htask =>
    exact hl.congr rfl rfl rfl (countP_task Task.unwritten htask).symm (countP_task Task.counted htask).symm
  | written => exact hl.congr rfl rfl rfl rfl rfl
  | notWritten => exact hl.congr (replies_congr (sent_delete _ _)) rfl rfl rfl rfl

theorem conserved_of_reachable {l : EventLoop Db} (h : Reachable env params workers db l) : Conserved l := by
  induction h with
  | refl => exact ⟨rfl, rfl⟩
  | tail hreach hstep ih => exact conserved_step hreach hstep ih

theorem counters_match_replies {l : EventLoop Db} (h : Reachable env params workers db l) :
    (l.shared.urlCounter.toList.map Prod.snd).sum = l.replies + l.tasks.countP Task.counted ∧
    (l.shared.codeCounter.toList.map Prod.snd).sum = l.replies + l.tasks.countP Task.counted ∧
    l.reads.length = l.replies + l.tasks.countP Task.unwritten ∧
    l.tasks.countP Task.counted ≤ l.tasks.countP Task.unwritten ∧ l.tasks.countP Task.unwritten ≤ workers := by
  obtain ⟨c, hrun, hsim⟩ := exists_simulates h
  have hshared : l.shared = after env db l.trace := by
    rw [← hsim.shared, ← hsim.trace]
    exact Interleaving.Reachable.shared_eq hrun
  have hexact : Exact l.shared (updates l.trace) := hshared ▸ exact_after env db l.trace
  have hconserved := conserved_of_reachable h
  refine ⟨?_, ?_, hconserved.reads, ?_, ?_⟩
  · rw [hexact.sum_urls, hconserved.updates]
    rfl
  · rw [hexact.sum_codes, hconserved.updates]
    rfl
  · refine List.countP_mono_left fun task _ hcounted => ?_
    cases task with
    | start i => contradiction
    | handleRead i n p =>
      cases p with
      | call op next => rfl
      | _ => contradiction
  · exact List.countP_le_length.trans (lifecycle_of_reachable h).tasks_le

theorem counters_match_replies_between :
    ((loop plainEnv statusParams 1 () twoReads.dropLast).shared.urlCounter.toList.map Prod.snd).sum = 1 + (1 : ℕ) := by
  have hreplies : (loop plainEnv statusParams 1 () twoReads.dropLast).replies = 1 ∧
      (loop plainEnv statusParams 1 () twoReads.dropLast).tasks.countP Task.counted = 1 := by
    decide +kernel
  have hsum := (@counters_match_replies Unit plainEnv statusParams 1 () _ (reachable_loop twoReads.dropLast)).1
  rwa [hreplies.1, hreplies.2] at hsum

end EventLoop

end Bingit
