import Bingit.ReplyCount
import Mathlib.Logic.Hydra
import Mathlib.Tactic.Abel

namespace Bingit

open Text Interleaving Session

-- it goes round the redirects of an upstream, an exception has left its handler, or it has overrun an array
def Task.failed : Task → Bool
  | .handleRead _ _ (.fail _) => true
  | _ => false

inductive Task.Resumes : Task → Task → Prop
  | call (i n : ℕ) {op : Op} (next : Ret op → Action Reply) (r : Ret op) :
      Resumes (.handleRead i n (next r)) (.handleRead i n (.call op next))

theorem wellFounded_resumes : WellFounded Task.Resumes := by
  constructor
  intro task
  cases task with
  | start i => exact .intro _ nofun
  | handleRead i n p =>
    induction p with
    | pure r => exact .intro _ nofun
    | fail how => exact .intro _ nofun
    | call op next ih =>
      constructor
      rintro _ ⟨⟩
      exact ih _

namespace EventLoop

variable {Db : Type} (env : Env Db) (params : ConfigParams) (workers : ℕ)

/-- `none` once an exception has ended the process. -/
inductive ProcessStep : Option (EventLoop Db) → Option (EventLoop Db) → Prop
  | step {l l' : EventLoop Db} (h : Step env params workers l l') : ProcessStep (some l) (some l')
  -- the peer is gone in `remote_endpoint`, a name is too long for `is_regular_file`, an allocation fails
  | threw {l : EventLoop Db} (hbusy : l.tasks ≠ [] ∨ l.tasks.length < workers) : ProcessStep (some l) none

-- nothing that is pending completes where no thread is free
abbrev TaskStep : Option (EventLoop Db) → Option (EventLoop Db) → Prop := ProcessStep env params 0

variable {env params workers} {db : Db}

theorem exists_step_of_task {l : EventLoop Db} {task : Task} {rest : List Task} (htask : l.tasks.Perm (task :: rest))
    (hfailed : task.failed = false) : ∃ l', Step env params workers l l' := by
  cases task with
  | start i => exact ⟨_, .started htask⟩
  | handleRead i n p =>
    cases p with
    | pure r => exact ⟨_, .returned htask⟩
    | fail => contradiction
    | call op next =>
      by_cases hwrite : ∃ bytes, op = .asyncWrite bytes
      · obtain ⟨bytes, rfl⟩ := hwrite
        exact ⟨_, .sent (.unharmed bytes) htask⟩
      · exact ⟨_, .performed htask fun bytes hop => hwrite ⟨bytes, hop⟩⟩

theorem free_or_task_of_step {l l' : EventLoop Db} (hstep : Step env params workers l l') :
    l.tasks.length < workers ∨ ∃ task rest, l.tasks.Perm (task :: rest) ∧ task.failed = false := by
  cases hstep with
  | started htask => exact .inr ⟨_, _, htask, rfl⟩
  | performed htask _ => exact .inr ⟨_, _, htask, rfl⟩
  | sent w htask => exact .inr ⟨_, _, htask, rfl⟩
  | returned htask => exact .inr ⟨_, _, htask, rfl⟩
  | accepted hfree _ => exact .inl hfree
  | notAccepted hfree _ => exact .inl hfree
  | read hfree _ _ => exact .inl hfree
  | notRead hfree _ => exact .inl hfree
  | written hfree _ => exact .inl hfree
  | notWritten hfree _ => exact .inl hfree

section Draining

open Relation

theorem cutExpand_task {tasks rest : List Task} {task : Task} (h : tasks.Perm (task :: rest)) {left : List Task}
    (hleft : ∀ task' ∈ left, task'.Resumes task) :
    CutExpand Task.Resumes (left ++ rest : List Task) (tasks : Multiset Task) := by
  refine ⟨left, task, fun task' hmem => hleft task' (Multiset.mem_coe.mp hmem), ?_⟩
  rw [Multiset.coe_eq_coe.mpr h, ← Multiset.cons_coe, ← Multiset.coe_add, ← Multiset.singleton_add]
  abel

structure TaskMove (env : Env Db) (params : ConfigParams) (l l' : EventLoop Db) : Prop where
  replaces : ∃ task left rest, l.tasks.Perm (task :: rest) ∧ (∀ task' ∈ left, task'.Resumes task) ∧
    l'.tasks = left ++ rest
  reads_eq : l'.reads = l.reads
  step (workers : ℕ) : Step env params workers l l'

theorem taskMove_of_step {l l' : EventLoop Db} (h : Step env params 0 l l') : TaskMove env params l l' := by
  cases h with
  | started htask => exact ⟨⟨_, [], _, htask, nofun, rfl⟩, rfl, fun _ => .started htask⟩
  | @performed i n op next rest htask hop =>
    refine ⟨⟨_, [_], _, htask, List.forall_mem_singleton.mpr ?_, rfl⟩, rfl, fun _ => .performed htask hop⟩
    exact .call i n next _
  | @sent i n w next rest htask =>
    refine ⟨⟨_, [_], _, htask, List.forall_mem_singleton.mpr ?_, rfl⟩, rfl, fun _ => .sent w htask⟩
    exact .call i n next ()
  | returned htask => exact ⟨⟨_, [], _, htask, nofun, rfl⟩, rfl, fun _ => .returned htask⟩
  | accepted hfree => exact absurd hfree (Nat.not_lt_zero _)
  | notAccepted hfree => exact absurd hfree (Nat.not_lt_zero _)
  | read hfree => exact absurd hfree (Nat.not_lt_zero _)
  | notRead hfree => exact absurd hfree (Nat.not_lt_zero _)
  | written hfree => exact absurd hfree (Nat.not_lt_zero _)
  | notWritten hfree => exact absurd hfree (Nat.not_lt_zero _)

theorem TaskMove.cutExpand {l l' : EventLoop Db} (h : TaskMove env params l l') :
    CutExpand Task.Resumes (l'.tasks : Multiset Task) (l.tasks : Multiset Task) := by
  obtain ⟨task, left, rest, htask, hleft, htasks⟩ := h.replaces
  rw [htasks]
  exact cutExpand_task htask hleft

-- each step replaces one task by what is left of it
theorem acc_taskStep (l : EventLoop Db) : Acc (fun p' p => TaskStep env params p p') (some l) := by
  have hwf : WellFounded fun l' l : EventLoop Db =>
      CutExpand Task.Resumes (l'.tasks : Multiset Task) (l.tasks : Multiset Task) :=
    InvImage.wf (fun l : EventLoop Db => (l.tasks : Multiset Task)) wellFounded_resumes.cutExpand
  induction l using hwf.induction with
  | _ l ih =>
    constructor
    intro p' hstep
    cases hstep with
    | step h => exact ih _ (taskMove_of_step h).cutExpand
    | threw => exact .intro _ nofun

theorem run_of_taskSteps {l : EventLoop Db} {p : Option (EventLoop Db)}
    (h : ReflTransGen (TaskStep env params) (some l) p) {l' : EventLoop Db} (hl' : p = some l') :
    ReflTransGen (Step env params workers) l l' ∧ l'.reads = l.reads := by
  induction h generalizing l' with
  | refl =>
    obtain rfl := Option.some.inj hl'
    exact ⟨.refl, rfl⟩
  | tail _ hstep ih =>
    cases hstep with
    | step h =>
      obtain rfl := Option.some.inj hl'
      obtain ⟨hrun, hreads⟩ := ih rfl
      have hmove := taskMove_of_step h
      exact ⟨hrun.tail (hmove.step workers), hmove.reads_eq.trans hreads⟩
    | threw => contradiction

theorem countP_unwritten {tasks : List Task} (h : ∀ task ∈ tasks, task.failed = true) :
    tasks.countP Task.unwritten = tasks.length := by
  refine List.countP_eq_length.mpr fun task hmem => ?_
  have htask := h task hmem
  cases task with
  | start i => contradiction
  | handleRead i n p =>
    cases p with
    | pure r => contradiction
    | _ => rfl

theorem tasks_drain {l : EventLoop Db} (h : Reachable env params workers db l) :
    Acc (fun p' p => TaskStep env params p p') (some l) ∧
    ∀ p, ReflTransGen (TaskStep env params) (some l) p → (∀ l', ¬ TaskStep env params p (some l')) →
      p = none ∨ ∃ l', p = some l' ∧ l'.reads = l.reads ∧ (∀ task ∈ l'.tasks, task.failed = true) ∧
        l.reads.length = l'.replies + l'.tasks.length := by
  refine ⟨acc_taskStep l, fun p hrun hrests => ?_⟩
  cases p with
  | none => exact .inl rfl
  | some l' =>
    obtain ⟨hsteps, hreads⟩ := @run_of_taskSteps Db env params workers l _ hrun l' rfl
    have hfailed : ∀ task ∈ l'.tasks, task.failed = true := by
      intro task hmem
      by_contra hgoes
      obtain ⟨rest, hperm⟩ := exists_perm_of_mem hmem
      obtain ⟨l'', hstep⟩ := @exists_step_of_task Db env params 0 l' task rest hperm (by simpa using hgoes)
      exact hrests l'' (.step hstep)
    refine .inr ⟨l', rfl, hreads, hfailed, ?_⟩
    rw [← hreads, ← countP_unwritten hfailed]
    exact (conserved_of_reachable (h.trans hsteps)).reads

end Draining

section Redirected

-- an upstream that redirects to itself
def redirecting : Env Unit :=
  { plainEnv with fetch := fun _ => ⟨302, [], some "ucla.edu".toList⟩ }

def proxyParams : ConfigParams :=
  .ofConfig [.mk ["handler".toList, "proxy".toList]
    (some [.mk ["location".toList, "/proxy".toList] none, .mk ["host".toList, "ucla.edu".toList] none])]

def oneFailed : List Choice :=
  [.complete 0 (some []), .resume 0, .complete 1 (some "GET /proxy HTTP/1.1\r\n\r\n".toList), .resume 0,
    .complete 0 (some []), .resume 0, .complete 1 (some "GET /".toList)]

-- the rejected request is answered
def drained : EventLoop Unit :=
  [.resume 0, .resume 0, .resume 0].foldl (choose redirecting proxyParams 0)
    (loop redirecting proxyParams 2 () oneFailed)

theorem drained_eq :
    drained.tasks.map Task.failed = [true] ∧ (loop redirecting proxyParams 2 () oneFailed).reads.length = 2 := by
  decide +kernel

theorem drained_rests (l' : EventLoop Unit) : ¬ TaskStep redirecting proxyParams (some drained) (some l') := by
  rintro ⟨hstep⟩
  rcases free_or_task_of_step hstep with hfree | ⟨task, rest, htask, hfailed⟩
  · exact absurd hfree (Nat.not_lt_zero _)
  · have hmem : task.failed ∈ drained.tasks.map Task.failed :=
      List.mem_map_of_mem (htask.mem_iff.mpr List.mem_cons_self)
    rw [drained_eq.1, hfailed, List.mem_singleton] at hmem
    contradiction

theorem tasks_drain_oneFailed :
    Relation.ReflTransGen (TaskStep redirecting proxyParams) (some (loop redirecting proxyParams 2 () oneFailed))
        (some drained) ∧
      drained.replies = 1 ∧ drained.tasks.length = 1 := by
  have hrun : Relation.ReflTransGen (TaskStep redirecting proxyParams)
      (some (loop redirecting proxyParams 2 () oneFailed)) (some drained) :=
    (later_choices _ _).lift some fun _ _ hstep => .step hstep
  have hlength : drained.tasks.length = 1 := by
    rw [← List.length_map, drained_eq.1, List.length_singleton]
  have hdrain := @tasks_drain Unit redirecting proxyParams 2 () _ (reachable_loop oneFailed)
  rcases hdrain.2 _ hrun drained_rests with hended | ⟨l', hp, -, -, hreads⟩
  · contradiction
  · obtain rfl := Option.some.inj hp
    rw [drained_eq.2, hlength] at hreads
    exact ⟨hrun, by omega, hlength⟩

end Redirected

end EventLoop

end Bingit
