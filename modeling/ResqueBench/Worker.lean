import ResqueBench.Metrics
import ResqueBench.Producer
import ResqueBench.Threads
import ResqueBench.Machine

/-! The poll worker and the fleet of workers that share counters, channels and a
server. One action is one step of a worker, of the server, or of the network. -/

/-- A watch channel: one current value with a version. A receiver remembers the version
it has seen; reading the value does not mark it seen. -/
structure Watch (α : Type*) where
  value : α
  version : Nat
deriving DecidableEq, Repr

namespace Watch

def channel {α : Type*} (init : α) : Watch α := ⟨init, 0⟩

def send {α : Type*} (w : Watch α) (v : α) : Watch α := ⟨v, w.version + 1⟩

def borrow {α : Type*} (w : Watch α) : α := w.value

/-- A receiver's `changed()` is ready at once when an unseen value exists. -/
def changed {α : Type*} (w : Watch α) (seen : Nat) : Bool := seen != w.version

@[simp] theorem borrow_channel {α : Type*} (v : α) : (channel v).borrow = v := rfl

@[simp] theorem borrow_send {α : Type*} (w : Watch α) (v : α) : (w.send v).borrow = v := rfl

end Watch

namespace ResqueBench

open Redis

structure PollWorker where
  targetJobs : Option Nat
  queueKeys : List String

inductive Answer
  | payload (e : Entry)
  | nil
  | error
deriving DecidableEq, Repr

def Answer.ofReply : Reply Entry → Answer
  | .bulk e => .payload e
  | .nil => .nil
  | _ => .error

def Answer.jobs : Answer → List Entry
  | .payload e => [e]
  | _ => []

/-- Where a worker's task stands in `run`. -/
inductive Pc
  | spawned -- not polled yet
  | top -- at the loop head
  | scan (k : Nat) -- about to look at `queue_keys[k]`, no hit so far
  | sent (k : Nat) -- awaiting an `LPOP` the server has not executed
  | replied (k : Nat) (a : Answer) -- awaiting an `LPOP` the server has executed
  | hit (e : Entry) -- before `record_job`
  | recorded (e : Entry) -- before `inc_completed`
  | counted (done : Nat) -- before the target check
  | select -- awaiting the sleep or the shutdown
  | returned
  | dropped (inFlight : Bool) -- aborted, with or without an unanswered `LPOP`
deriving DecidableEq, Repr

def Pc.isTerminal : Pc → Bool
  | .returned | .dropped _ => true
  | _ => false

structure Worker where
  pc : Pc
  seen : Nat -- version of `shutdown_rx`
  abortRequested : Bool
  scan : List (Nat × Answer) -- answers of the scan in progress
deriving DecidableEq, Repr

def Worker.new : Worker := ⟨.spawned, 0, false, []⟩

/-- What the proofs remember about a phase; the code does not keep it. -/
structure Ledger where
  removed : List Entry -- popped at the server, in server order
  counted : List Entry
  lost : List Entry
  rejected : List Entry
  sent : List Sample
  received : List Sample
  nils : Nat
  payloads : Nat
  errs : Nat
  scans : List (List (Nat × Answer)) -- finished scans

/-- What the tasks of one phase share. -/
structure Hub where
  metrics : Metrics
  done : Watch Bool
  shutdown : Watch Bool
  latency : List Sample -- messages in the channel
  late : List Nat -- `LPOP`s on the wire that nobody awaits any more
  ledger : Ledger

def Hub.new : Hub :=
  ⟨.new, Watch.channel false, Watch.channel false, [], [],
    ⟨[], [], [], [], [], [], 0, 0, 0, []⟩⟩

structure Shared where
  db : Db Entry
  hub : Hub

def Shared.lpop (s : Shared) (key : String) : Shared × Answer :=
  let r := exec s.db (.lpop key)
  let a := Answer.ofReply r.2
  (⟨r.1, { s.hub with ledger :=
    { s.hub.ledger with removed := s.hub.ledger.removed ++ a.jobs } }⟩, a)

inductive WorkerAct
  | start
  | check
  | issue
  | exec
  | fail
  | receive
  | miss
  | record (clock : Option Nat)
  | count
  | signal
  | wake
  | notice
  | abort
  | drop
deriving DecidableEq, Repr

/-- The `LPOP` the worker awaits fails: the server may still execute it, or has
executed it and the reply is lost. -/
def failedLpop (h : Hub) (w : Worker) (k : Nat) (late : List Nat) (lost : List Entry) :
    Hub × Worker :=
  ({ h with
      metrics := h.metrics.incError
      late := h.late ++ late
      ledger := { h.ledger with errs := h.ledger.errs + 1, lost := h.ledger.lost ++ lost } },
    { w with pc := .scan (k + 1), scan := w.scan ++ [(k, .error)] })

/-- The task is dropped at an await point. -/
def droppedTask (h : Hub) (w : Worker) (inFlight : Bool) (late : List Nat) (lost : List Entry) :
    Hub × Worker :=
  ({ h with
      late := h.late ++ late
      ledger := { h.ledger with lost := h.ledger.lost ++ lost } },
    { w with pc := .dropped inFlight })

def PollWorker.step (serde : Serde) (pw : PollWorker) (s : Shared) (w : Worker)
    (a : WorkerAct) : Option (Shared × Worker) :=
  match a, w.pc with
  | .start, .spawned => some (s, { w with pc := .top })
  | .check, .top =>
    if s.hub.shutdown.borrow then some (s, { w with pc := .returned })
    else some (s, { w with pc := .scan 0 })
  | .issue, .scan k =>
    if k < pw.queueKeys.length then
      some ({ s with hub := { s.hub with metrics := s.hub.metrics.incPoll } },
        { w with pc := .sent k })
    else none
  | .exec, .sent k =>
    match pw.queueKeys[k]? with
    | some key => some ((s.lpop key).1, { w with pc := .replied k (s.lpop key).2 })
    | none => none
  | .fail, .sent k => some (⟨s.db, (failedLpop s.hub w k [k] []).1⟩, (failedLpop s.hub w k [k] []).2)
  | .fail, .replied k a =>
    some (⟨s.db, (failedLpop s.hub w k [] a.jobs).1⟩, (failedLpop s.hub w k [] a.jobs).2)
  | .receive, .replied k (.payload e) =>
    some (⟨s.db, { s.hub with ledger :=
        { s.hub.ledger with
          payloads := s.hub.ledger.payloads + 1
          scans := s.hub.ledger.scans ++ [w.scan ++ [(k, .payload e)]] } }⟩,
      { w with pc := .hit e, scan := [] })
  | .receive, .replied k .nil =>
    some (⟨s.db, { s.hub with ledger :=
        { s.hub.ledger with nils := s.hub.ledger.nils + 1 } }⟩,
      { w with pc := .scan (k + 1), scan := w.scan ++ [(k, .nil)] })
  | .receive, .replied k .error =>
    some (⟨s.db, (failedLpop s.hub w k [] []).1⟩, (failedLpop s.hub w k [] []).2)
  | .miss, .scan k =>
    if k < pw.queueKeys.length then none
    else some (⟨s.db, { s.hub with ledger :=
        { s.hub.ledger with scans := s.hub.ledger.scans ++ [w.scan] } }⟩,
      { w with pc := .select, scan := [] })
  | .record clock, .hit e =>
    match recordJob serde clock e with
    | some sample =>
      some (⟨s.db, { s.hub with
          latency := s.hub.latency ++ [sample]
          ledger := { s.hub.ledger with sent := s.hub.ledger.sent ++ [sample] } }⟩,
        { w with pc := .recorded e })
    | none =>
      some (⟨s.db, { s.hub with
          metrics := s.hub.metrics.incError
          ledger := { s.hub.ledger with rejected := s.hub.ledger.rejected ++ [e] } }⟩,
        { w with pc := .recorded e })
  | .count, .recorded e =>
    some (⟨s.db, { s.hub with
        metrics := s.hub.metrics.incCompleted.1
        ledger := { s.hub.ledger with counted := s.hub.ledger.counted ++ [e] } }⟩,
      { w with pc := .counted s.hub.metrics.incCompleted.2 })
  | .signal, .counted done =>
    match pw.targetJobs with
    | some target =>
      if target ≤ done then
        some (⟨s.db, { s.hub with done := s.hub.done.send true }⟩, { w with pc := .top })
      else some (s, { w with pc := .top })
    | none => some (s, { w with pc := .top })
  | .wake, .select => some (s, { w with pc := .top })
  | .notice, .select =>
    if s.hub.shutdown.changed w.seen then some (s, { w with pc := .returned }) else none
  | .abort, _ => some (s, { w with abortRequested := true })
  | .drop, .sent k =>
    if w.abortRequested then
      some (⟨s.db, (droppedTask s.hub w true [k] []).1⟩, (droppedTask s.hub w true [k] []).2)
    else none
  | .drop, .replied _ a =>
    if w.abortRequested then
      some (⟨s.db, (droppedTask s.hub w true [] a.jobs).1⟩, (droppedTask s.hub w true [] a.jobs).2)
    else none
  | .drop, .spawned | .drop, .select =>
    if w.abortRequested then
      some (⟨s.db, (droppedTask s.hub w false [] []).1⟩, (droppedTask s.hub w false [] []).2)
    else none
  | _, _ => none

/-- Everything one worker step can do. -/
inductive Move (serde : Serde) (pw : PollWorker) (s : Shared) (w : Worker) :
    WorkerAct → Shared → Worker → Prop
  | start (hpc : w.pc = .spawned) : Move serde pw s w .start s { w with pc := .top }
  | stop (hpc : w.pc = .top) (hs : s.hub.shutdown.borrow = true) :
      Move serde pw s w .check s { w with pc := .returned }
  | enter (hpc : w.pc = .top) (hs : s.hub.shutdown.borrow = false) :
      Move serde pw s w .check s { w with pc := .scan 0 }
  | issue (k : Nat) (hpc : w.pc = .scan k) (hk : k < pw.queueKeys.length) :
      Move serde pw s w .issue ⟨s.db, { s.hub with metrics := s.hub.metrics.incPoll }⟩
        { w with pc := .sent k }
  | pop (k : Nat) (key : String) (e : Entry) (rest : List Entry) (hpc : w.pc = .sent k)
      (hk : pw.queueKeys[k]? = some key) (hl : listAt s.db key = e :: rest)
      (hdb : ∀ key', listAt (exec s.db (.lpop key)).1 key' =
        if key' = key then rest else listAt s.db key') :
      Move serde pw s w .exec ⟨(exec s.db (.lpop key)).1, { s.hub with ledger :=
        { s.hub.ledger with removed := s.hub.ledger.removed ++ [e] } }⟩
        { w with pc := .replied k (.payload e) }
  | empty (k : Nat) (key : String) (a : Answer) (hpc : w.pc = .sent k)
      (hk : pw.queueKeys[k]? = some key) (hl : listAt s.db key = []) (ha : a.jobs = []) :
      Move serde pw s w .exec s { w with pc := .replied k a }
  | failSent (k : Nat) (hpc : w.pc = .sent k) :
      Move serde pw s w .fail ⟨s.db, (failedLpop s.hub w k [k] []).1⟩
        (failedLpop s.hub w k [k] []).2
  | failReplied (k : Nat) (a : Answer) (hpc : w.pc = .replied k a) :
      Move serde pw s w .fail ⟨s.db, (failedLpop s.hub w k [] a.jobs).1⟩
        (failedLpop s.hub w k [] a.jobs).2
  | payload (k : Nat) (e : Entry) (hpc : w.pc = .replied k (.payload e)) :
      Move serde pw s w .receive ⟨s.db, { s.hub with ledger :=
        { s.hub.ledger with
          payloads := s.hub.ledger.payloads + 1
          scans := s.hub.ledger.scans ++ [w.scan ++ [(k, .payload e)]] } }⟩
        { w with pc := .hit e, scan := [] }
  | nil (k : Nat) (hpc : w.pc = .replied k .nil) :
      Move serde pw s w .receive ⟨s.db, { s.hub with ledger :=
        { s.hub.ledger with nils := s.hub.ledger.nils + 1 } }⟩
        { w with pc := .scan (k + 1), scan := w.scan ++ [(k, .nil)] }
  | error (k : Nat) (hpc : w.pc = .replied k .error) :
      Move serde pw s w .receive ⟨s.db, (failedLpop s.hub w k [] []).1⟩
        (failedLpop s.hub w k [] []).2
  | miss (k : Nat) (hpc : w.pc = .scan k) (hk : pw.queueKeys.length ≤ k) :
      Move serde pw s w .miss ⟨s.db, { s.hub with ledger :=
        { s.hub.ledger with scans := s.hub.ledger.scans ++ [w.scan] } }⟩
        { w with pc := .select, scan := [] }
  | record (clock : Option Nat) (e : Entry) (sample : Sample) (hpc : w.pc = .hit e)
      (hr : recordJob serde clock e = some sample) :
      Move serde pw s w (.record clock) ⟨s.db, { s.hub with
          latency := s.hub.latency ++ [sample]
          ledger := { s.hub.ledger with sent := s.hub.ledger.sent ++ [sample] } }⟩
        { w with pc := .recorded e }
  | reject (clock : Option Nat) (e : Entry) (hpc : w.pc = .hit e)
      (hr : recordJob serde clock e = none) :
      Move serde pw s w (.record clock) ⟨s.db, { s.hub with
          metrics := s.hub.metrics.incError
          ledger := { s.hub.ledger with rejected := s.hub.ledger.rejected ++ [e] } }⟩
        { w with pc := .recorded e }
  | count (e : Entry) (hpc : w.pc = .recorded e) :
      Move serde pw s w .count ⟨s.db, { s.hub with
          metrics := s.hub.metrics.incCompleted.1
          ledger := { s.hub.ledger with counted := s.hub.ledger.counted ++ [e] } }⟩
        { w with pc := .counted s.hub.metrics.incCompleted.2 }
  | signal (done target : Nat) (hpc : w.pc = .counted done) (ht : pw.targetJobs = some target)
      (hd : target ≤ done) :
      Move serde pw s w .signal ⟨s.db, { s.hub with done := s.hub.done.send true }⟩
        { w with pc := .top }
  | below (done : Nat) (hpc : w.pc = .counted done)
      (ht : ∀ target, pw.targetJobs = some target → done < target) :
      Move serde pw s w .signal s { w with pc := .top }
  | wake (hpc : w.pc = .select) : Move serde pw s w .wake s { w with pc := .top }
  | notice (hpc : w.pc = .select) (hc : s.hub.shutdown.changed w.seen = true) :
      Move serde pw s w .notice s { w with pc := .returned }
  | abort : Move serde pw s w .abort s { w with abortRequested := true }
  | dropSent (k : Nat) (hpc : w.pc = .sent k) (ha : w.abortRequested = true) :
      Move serde pw s w .drop ⟨s.db, (droppedTask s.hub w true [k] []).1⟩
        (droppedTask s.hub w true [k] []).2
  | dropReplied (k : Nat) (a : Answer) (hpc : w.pc = .replied k a) (ha : w.abortRequested = true) :
      Move serde pw s w .drop ⟨s.db, (droppedTask s.hub w true [] a.jobs).1⟩
        (droppedTask s.hub w true [] a.jobs).2
  | dropSpawned (hpc : w.pc = .spawned) (ha : w.abortRequested = true) :
      Move serde pw s w .drop ⟨s.db, (droppedTask s.hub w false [] []).1⟩
        (droppedTask s.hub w false [] []).2
  | dropSelect (hpc : w.pc = .select) (ha : w.abortRequested = true) :
      Move serde pw s w .drop ⟨s.db, (droppedTask s.hub w false [] []).1⟩
        (droppedTask s.hub w false [] []).2

theorem Move.terminal {serde : Serde} {pw : PollWorker} {s s' : Shared} {w w' : Worker}
    {a : WorkerAct} (h : Move serde pw s w a s' w') (ht : w.pc.isTerminal = true) :
    a = .abort ∧ s' = s ∧ w'.pc = w.pc := by
  cases h with
  | abort => exact ⟨rfl, rfl, rfl⟩
  | _ => simp_all [Pc.isTerminal]

/-- No counter of `m` has been set back in `m'`. -/
structure Metrics.Le (m m' : Metrics) : Prop where
  completed : m.completed ≤ m'.completed
  errors : m.errors ≤ m'.errors
  polls : m.polls ≤ m'.polls

theorem Metrics.Le.refl (m : Metrics) : Metrics.Le m m := ⟨le_refl _, le_refl _, le_refl _⟩

theorem Move.metrics_le {serde : Serde} {pw : PollWorker} {s s' : Shared} {w w' : Worker}
    {a : WorkerAct} (h : Move serde pw s w a s' w') : Metrics.Le s.hub.metrics s'.hub.metrics := by
  cases h with
  | issue => exact ⟨le_refl _, le_refl _, Nat.le_succ _⟩
  | count => exact ⟨Nat.le_succ _, le_refl _, le_refl _⟩
  | failSent | failReplied | error | reject => exact ⟨le_refl _, Nat.le_succ _, le_refl _⟩
  | _ => exact .refl _

theorem Shared.lpop_cases (s : Shared) (key : String) :
    (∃ e rest, listAt s.db key = e :: rest ∧
      s.lpop key = (⟨(exec s.db (.lpop key)).1, { s.hub with ledger :=
        { s.hub.ledger with removed := s.hub.ledger.removed ++ [e] } }⟩, .payload e) ∧
      ∀ key', listAt (exec s.db (.lpop key)).1 key' =
        if key' = key then rest else listAt s.db key') ∨
    (∃ a, listAt s.db key = [] ∧ s.lpop key = (s, a) ∧ a.jobs = []) := by
  rcases exec_lpop_cases s.db key with ⟨e, rest, hl, hr, hdb⟩ | ⟨hl, hdb, hr⟩
  · exact .inl ⟨e, rest, hl, by simp [lpop, hr, Answer.ofReply, Answer.jobs], hdb⟩
  · rcases hr with hr | hr
    · exact .inr ⟨.nil, hl, by simp [lpop, hr, hdb, Answer.ofReply, Answer.jobs], rfl⟩
    · exact .inr ⟨.error, hl, by simp [lpop, hr, hdb, Answer.ofReply, Answer.jobs], rfl⟩

theorem PollWorker.step_move {serde : Serde} {pw : PollWorker} {s s' : Shared} {w w' : Worker}
    {a : WorkerAct} (h : pw.step serde s w a = some (s', w')) : Move serde pw s w a s' w' := by
  unfold PollWorker.step at h
  split at h
  case h_1 hpc =>
    cases h
    exact .start hpc
  case h_2 hpc =>
    split at h <;> cases h
    · exact .stop hpc (by assumption)
    · exact .enter hpc (Bool.eq_false_iff.mpr (by assumption))
  case h_3 k hpc =>
    split at h
    · cases h
      exact .issue k hpc (by assumption)
    · simp at h
  case h_4 k hpc =>
    split at h
    · rename_i key hk
      cases h
      rcases s.lpop_cases key with ⟨e, rest, hl, hp, hdb⟩ | ⟨a, hl, hp, ha⟩
      · rw [hp]; exact .pop k key e rest hpc hk hl hdb
      · rw [hp]; exact .empty k key a hpc hk hl ha
    · simp at h
  case h_5 k hpc =>
    cases h
    exact .failSent k hpc
  case h_6 k a hpc =>
    cases h
    exact .failReplied k a hpc
  case h_7 k e hpc =>
    cases h
    exact .payload k e hpc
  case h_8 k hpc =>
    cases h
    exact .nil k hpc
  case h_9 k hpc =>
    cases h
    exact .error k hpc
  case h_10 k hpc =>
    split at h
    · cases h
    · cases h
      exact .miss k hpc (by omega)
  case h_11 clock e hpc =>
    split at h <;> cases h
    · exact .record clock e _ hpc (by assumption)
    · exact .reject clock e hpc (by assumption)
  case h_12 e hpc =>
    cases h
    exact .count e hpc
  case h_13 done hpc =>
    split at h
    · rename_i target ht
      split at h <;> cases h
      · exact .signal done target hpc ht (by assumption)
      · refine .below done hpc (fun t he => ?_)
        have : t = target := Option.some.inj (he.symm.trans ht)
        omega
    · rename_i ht
      cases h
      exact .below done hpc (fun t he => by simp [ht] at he)
  case h_14 hpc =>
    cases h
    exact .wake hpc
  case h_15 hpc =>
    split at h
    · cases h
      exact .notice hpc (by assumption)
    · simp at h
  case h_16 =>
    cases h
    exact .abort
  case h_17 k hpc =>
    split at h
    · cases h
      exact .dropSent k hpc (by assumption)
    · simp at h
  case h_18 k a hpc =>
    split at h
    · cases h
      exact .dropReplied k a hpc (by assumption)
    · simp at h
  case h_19 hpc =>
    split at h
    · cases h
      exact .dropSpawned hpc (by assumption)
    · simp at h
  case h_20 hpc =>
    split at h
    · cases h
      exact .dropSelect hpc (by assumption)
    · simp at h
  case h_21 => simp at h

/-- Apart from the reply of an `LPOP`, a move says what the step is. -/
theorem Move.step {serde : Serde} {pw : PollWorker} {s s' : Shared} {w w' : Worker}
    {a : WorkerAct} (h : Move serde pw s w a s' w') (ha : a ≠ .exec) :
    pw.step serde s w a = some (s', w') := by
  cases h with
  | pop | empty => exact absurd rfl ha
  | miss k hpc hk => simp [PollWorker.step, hpc, Nat.not_lt.mpr hk]
  | below done hpc ht =>
    cases htarget : pw.targetJobs with
    | none => simp [PollWorker.step, hpc, htarget]
    | some target => simp [PollWorker.step, hpc, htarget, Nat.not_le.mpr (ht target htarget)]
  | _ => simp [PollWorker.step, *]

theorem PollWorker.step_exec (serde : Serde) {pw : PollWorker} {w : Worker} {k : Nat} {key : String}
    (hpc : w.pc = .sent k) (hk : pw.queueKeys[k]? = some key) (s : Shared) :
    pw.step serde s w .exec =
      some ((s.lpop key).1, { w with pc := .replied k (s.lpop key).2 }) := by
  simp [PollWorker.step, hpc, hk]

end ResqueBench
