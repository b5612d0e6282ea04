import Bingit.ByteStream
import Bingit.Counters

namespace Bingit

open Text Interleaving Session

inductive Operation where
  | asyncAccept (session : ℕ)
  | asyncReadSome (session : ℕ)
  | asyncWrite (session : ℕ)

inductive Task where
  -- what `session::start` does after its `async_read_some`
  | start (session : ℕ)
  | handleRead (session read : ℕ) (rest : Action Reply)

-- what `async_write` asks the socket to take at once
def maxTransfer : ℕ := 65536

/-- What the socket has no room for is sent from freed memory. -/
structure Write where
  response : Text
  room : ℕ
  wire : Text
  room_le : room ≤ maxTransfer
  length_eq : wire.length = response.length
  take_eq : wire.take room = response.take room

def Write.Whole (w : Write) : Prop := w.response.length ≤ w.room

instance (w : Write) : Decidable w.Whole := inferInstanceAs (Decidable (_ ≤ _))

def Write.unharmed (response : Text) : Write := ⟨response, maxTransfer, response, Nat.le_refl _, rfl, rfl⟩

theorem Write.Whole.wire_eq {w : Write} (h : w.Whole) : w.wire = w.response := by
  have hwire : w.wire.length ≤ w.room := w.length_eq.trans_le h
  rw [← List.take_of_length_le hwire, w.take_eq, List.take_of_length_le h]

structure Connection where
  deleted : Bool
  received : List ℕ
  sent : List Write

structure EventLoop (Db : Type) where
  shared : Shared Db
  sessions : List Connection
  pending : List Operation
  tasks : List Task
  reads : List Text
  trace : List (ℕ × Event Ret)

namespace EventLoop

variable {Db : Type}

def startAccept (l : EventLoop Db) : EventLoop Db :=
  { l with
    sessions := l.sessions ++ [⟨false, [], []⟩]
    pending := .asyncAccept l.sessions.length :: l.pending }

def delete (l : EventLoop Db) (session : ℕ) : EventLoop Db :=
  { l with sessions := l.sessions.modify session fun c => { c with deleted := true } }

def receive (l : EventLoop Db) (session : ℕ) (data : Text) : EventLoop Db :=
  { l with
    sessions := l.sessions.modify session fun c => { c with received := c.received ++ [l.reads.length] }
    reads := l.reads ++ [data] }

def perform (env : Env Db) (l : EventLoop Db) (read : ℕ) (op : Op) : EventLoop Db :=
  { l with
    shared := (execute env op l.shared).1
    trace := l.trace ++ [(read, ⟨op, (execute env op l.shared).2⟩)] }

def send (l : EventLoop Db) (session : ℕ) (w : Write) : EventLoop Db :=
  { l with sessions := l.sessions.modify session fun c => { c with sent := c.sent ++ [w] } }

def initial (db : Db) : EventLoop Db := startAccept ⟨.initial db, [], [], [], [], []⟩

variable (env : Env Db) (params : ConfigParams) (workers : ℕ)

/-- Free threads complete operations, the others go on with tasks. -/
inductive Step : EventLoop Db → EventLoop Db → Prop
  | accepted {l : EventLoop Db} {i : ℕ} {rest : List Operation} (hfree : l.tasks.length < workers)
      (hop : l.pending.Perm (.asyncAccept i :: rest)) :
      Step l { l with pending := .asyncReadSome i :: rest, tasks := .start i :: l.tasks }
  | started {l : EventLoop Db} {i : ℕ} {rest : List Task} (htask : l.tasks.Perm (.start i :: rest)) :
      Step l (startAccept { l with tasks := rest })
  | notAccepted {l : EventLoop Db} {i : ℕ} {rest : List Operation} (hfree : l.tasks.length < workers)
      (hop : l.pending.Perm (.asyncAccept i :: rest)) :
      Step l (startAccept (delete { l with pending := rest } i))
  | read {l : EventLoop Db} {i : ℕ} {rest : List Operation} (hfree : l.tasks.length < workers)
      (hop : l.pending.Perm (.asyncReadSome i :: rest)) {data : Text} (hdata : IsRead data) :
      Step l (receive
        { l with
          pending := rest
          tasks := .handleRead i l.reads.length (Session.handleRead env params data) :: l.tasks } i data)
  | notRead {l : EventLoop Db} {i : ℕ} {rest : List Operation} (hfree : l.tasks.length < workers)
      (hop : l.pending.Perm (.asyncReadSome i :: rest)) : Step l (delete { l with pending := rest } i)
  | performed {l : EventLoop Db} {i n : ℕ} {op : Op} {next : Ret op → Action Reply} {rest : List Task}
      (htask : l.tasks.Perm (.handleRead i n (.call op next) :: rest)) (hop : ∀ bytes, op ≠ .asyncWrite bytes) :
      Step l (perform env { l with tasks := .handleRead i n (next (execute env op l.shared).2) :: rest } n op)
  | sent {l : EventLoop Db} {i n : ℕ} (w : Write) {next : Ret (.asyncWrite w.response) → Action Reply}
      {rest : List Task} (htask : l.tasks.Perm (.handleRead i n (.call (.asyncWrite w.response) next) :: rest)) :
      Step l (send (perform env
        { l with
          pending := .asyncWrite i :: l.pending
          tasks := .handleRead i n (next ()) :: rest } n (.asyncWrite w.response)) i w)
  | returned {l : EventLoop Db} {i n : ℕ} {r : Reply} {rest : List Task}
      (htask : l.tasks.Perm (.handleRead i n (.pure r) :: rest)) : Step l { l with tasks := rest }
  | written {l : EventLoop Db} {i : ℕ} {rest : List Operation} (hfree : l.tasks.length < workers)
      (hop : l.pending.Perm (.asyncWrite i :: rest)) : Step l { l with pending := .asyncReadSome i :: rest }
  | notWritten {l : EventLoop Db} {i : ℕ} {rest : List Operation} (hfree : l.tasks.length < workers)
      (hop : l.pending.Perm (.asyncWrite i :: rest)) : Step l (delete { l with pending := rest } i)

def Reachable (db : Db) (l : EventLoop Db) : Prop := Relation.ReflTransGen (Step env params workers) (.initial db) l

variable {env params workers} {db : Db}

section Choices

-- a read completes with its data and the others with `some []`, or any of them with an error
inductive Choice where
  | complete (k : ℕ) (result : Option Text)
  | resume (k : ℕ)

def completed (env : Env Db) (params : ConfigParams) (l : EventLoop Db) (rest : List Operation) :
    Operation → Option Text → EventLoop Db
  | .asyncAccept i, some _ => { l with pending := .asyncReadSome i :: rest, tasks := .start i :: l.tasks }
  | .asyncAccept i, none => startAccept (delete { l with pending := rest } i)
  | .asyncReadSome i, some data =>
    if IsRead data then
      receive
        { l with
          pending := rest
          tasks := .handleRead i l.reads.length (Session.handleRead env params data) :: l.tasks } i data
    else l
  | .asyncReadSome i, none => delete { l with pending := rest } i
  | .asyncWrite i, some _ => { l with pending := .asyncReadSome i :: rest }
  | .asyncWrite i, none => delete { l with pending := rest } i

def resumed (env : Env Db) (l : EventLoop Db) (rest : List Task) : Task → EventLoop Db
  | .start _ => startAccept { l with tasks := rest }
  | .handleRead _ _ (.pure _) => { l with tasks := rest }
  | .handleRead _ _ (.fail _) => l
  | .handleRead i n (.call (.asyncWrite bytes) next) =>
    send (perform env
      { l with
        pending := .asyncWrite i :: l.pending
        tasks := .handleRead i n (next ()) :: rest } n (.asyncWrite bytes)) i (.unharmed bytes)
  | .handleRead i n (.call op next) =>
    perform env { l with tasks := .handleRead i n (next (execute env op l.shared).2) :: rest } n op

def choose (env : Env Db) (params : ConfigParams) (workers : ℕ) (l : EventLoop Db) : Choice → EventLoop Db
  | .complete k result =>
    match l.pending[k]? with
    | some op => if l.tasks.length < workers then completed env params l (l.pending.eraseIdx k) op result else l
    | none => l
  | .resume k =>
    match l.tasks[k]? with
    | some task => resumed env l (l.tasks.eraseIdx k) task
    | none => l

theorem perm_eraseIdx {α : Type} {xs : List α} {x : α} {k : ℕ} (h : xs[k]? = some x) :
    xs.Perm (x :: xs.eraseIdx k) := by
  obtain ⟨hk, rfl⟩ := List.getElem?_eq_some_iff.mp h
  exact (List.getElem_cons_eraseIdx_perm hk).symm

theorem later_completed {l : EventLoop Db} (hfree : l.tasks.length < workers) {op : Operation} {rest : List Operation}
    (hop : l.pending.Perm (op :: rest)) (result : Option Text) :
    Relation.ReflTransGen (Step env params workers) l (completed env params l rest op result) := by
  cases op with
  | asyncAccept i =>
    cases result with
    | none => exact .single (.notAccepted hfree hop)
    | some data => exact .single (.accepted hfree hop)
  | asyncReadSome i =>
    cases result with
    | none => exact .single (.notRead hfree hop)
    | some data =>
      rw [completed]
      split
      · next hdata => exact .single (.read hfree hop hdata)
      · exact .refl
  | asyncWrite i =>
    cases result with
    | none => exact .single (.notWritten hfree hop)
    | some data => exact .single (.written hfree hop)

theorem later_resumed {l : EventLoop Db} {task : Task} {rest : List Task} (htask : l.tasks.Perm (task :: rest)) :
    Relation.ReflTransGen (Step env params workers) l (resumed env l rest task) := by
  cases task with
  | start i => exact .single (.started htask)
  | handleRead i n p =>
    cases p with
    | pure r => exact .single (.returned htask)
    | fail how => exact .refl
    | call op next =>
      cases op with
      | asyncWrite bytes => exact .single (.sent (.unharmed bytes) htask)
      | _ => exact .single (.performed htask nofun)

theorem later_choose (l : EventLoop Db) (choice : Choice) :
    Relation.ReflTransGen (Step env params workers) l (choose env params workers l choice) := by
  cases choice with
  | complete k result =>
    rw [choose]
    split
    · next op hop =>
      split
      · next hfree => exact later_completed hfree (perm_eraseIdx hop) result
      · exact .refl
    · exact .refl
  | resume k =>
    rw [choose]
    split
    · next task htask => exact later_resumed (perm_eraseIdx htask)
    · exact .refl

def loop (env : Env Db) (params : ConfigParams) (workers : ℕ) (db : Db) (choices : List Choice) : EventLoop Db :=
  choices.foldl (choose env params workers) (.initial db)

theorem later_choices (l : EventLoop Db) (choices : List Choice) :
    Relation.ReflTransGen (Step env params workers) l (choices.foldl (choose env params workers) l) := by
  induction choices generalizing l with
  | nil => exact .refl
  | cons choice choices ih => exact (later_choose l choice).trans (ih _)

theorem reachable_loop (choices : List Choice) : Reachable env params workers db (loop env params workers db choices) :=
  later_choices _ choices

def twoReads : List Choice :=
  [.complete 0 (some []), .resume 0, .complete 1 (some "GET /".toList), .resume 0, .resume 0, .resume 0,
    .complete 0 (some []), .complete 0 (some statusData), .resume 0, .resume 0, .resume 0, .resume 0, .resume 0,
    .resume 0]

end Choices

end EventLoop

end Bingit
