import ResqueBench.Fleet

/-! Accounts of a fleet: each counter and each list of the ledger equals what it
counts, plus what the workers still hold at their present points. -/

namespace ResqueBench

open Redis Threads

/-- The job a worker has been handed and not counted yet. -/
def heldBy (w : Worker) : Multiset Entry :=
  match w.pc with
  | .replied _ (.payload e) | .hit e | .recorded e => {e}
  | _ => 0

/-- One for an `LPOP` whose answer the worker has not processed. -/
def awaiting (w : Worker) : Nat :=
  match w.pc with
  | .sent _ | .replied _ _ | .dropped true => 1
  | _ => 0

/-- One inside the hit branch, before the completion is counted. -/
def inHit (w : Worker) : Nat :=
  match w.pc with
  | .hit _ | .recorded _ => 1
  | _ => 0

def recordedBy (w : Worker) : Multiset Entry :=
  match w.pc with
  | .recorded e => {e}
  | _ => 0

theorem recordedBy_le_heldBy (w : Worker) : recordedBy w ≤ heldBy w := by
  unfold recordedBy
  split
  · rename_i e hpc
    simp [heldBy, hpc]
  · exact Multiset.zero_le _

def droppedInFlight (w : Worker) : Nat :=
  match w.pc with
  | .dropped true => 1
  | _ => 0

def openPolls (w : Worker) : Nat := w.scan.length + awaiting w

structure Balanced (f : Fleet) : Prop where
  polls : f.shared.hub.metrics.polls = total awaiting f.workers +
    (f.shared.hub.ledger.nils + f.shared.hub.ledger.payloads + f.shared.hub.ledger.errs)
  scanned : f.shared.hub.metrics.polls = total openPolls f.workers +
    (f.shared.hub.ledger.scans.map List.length).sum
  errors : f.shared.hub.metrics.errors =
    f.shared.hub.ledger.errs + f.shared.hub.ledger.rejected.length
  answered : f.shared.hub.ledger.payloads =
    total inHit f.workers + f.shared.hub.ledger.counted.length
  recorded : ((f.shared.hub.ledger.sent.map Sample.job : List Entry) : Multiset Entry) +
      f.shared.hub.ledger.rejected =
    total recordedBy f.workers + (f.shared.hub.ledger.counted : Multiset Entry)
  completed : f.shared.hub.metrics.completed = f.shared.hub.ledger.counted.length
  removed : (f.shared.hub.ledger.removed : Multiset Entry) = total heldBy f.workers +
    ((f.shared.hub.ledger.counted : Multiset Entry) + f.shared.hub.ledger.lost)
  losses : f.shared.hub.ledger.lost.length + f.shared.hub.late.length ≤
    total droppedInFlight f.workers + f.shared.hub.ledger.errs
  channel : f.shared.hub.ledger.received ++ f.shared.hub.latency = f.shared.hub.ledger.sent

section Move

variable {serde : Serde} {pw : PollWorker} {s s' : Shared} {w w' : Worker} {a : WorkerAct}

theorem Move.polls (h : Move serde pw s w a s' w') :
    s'.hub.metrics.polls + (awaiting w +
      (s.hub.ledger.nils + s.hub.ledger.payloads + s.hub.ledger.errs)) =
    s.hub.metrics.polls + (awaiting w' +
      (s'.hub.ledger.nils + s'.hub.ledger.payloads + s'.hub.ledger.errs)) := by
  cases h <;> simp [awaiting, failedLpop, droppedTask, Metrics.incPoll, Metrics.incError,
    Metrics.incCompleted, *] <;> omega

theorem Move.scanned (h : Move serde pw s w a s' w') :
    s'.hub.metrics.polls + (openPolls w + (s.hub.ledger.scans.map List.length).sum) =
      s.hub.metrics.polls + (openPolls w' + (s'.hub.ledger.scans.map List.length).sum) := by
  cases h <;> simp [openPolls, awaiting, failedLpop, droppedTask, Metrics.incPoll,
    Metrics.incError, Metrics.incCompleted, *] <;> omega

theorem Move.errors (h : Move serde pw s w a s' w') :
    s'.hub.metrics.errors + (s.hub.ledger.errs + s.hub.ledger.rejected.length) =
      s.hub.metrics.errors + (s'.hub.ledger.errs + s'.hub.ledger.rejected.length) := by
  cases h <;> simp [failedLpop, droppedTask, Metrics.incPoll, Metrics.incError,
    Metrics.incCompleted] <;> omega

theorem Move.answered (h : Move serde pw s w a s' w') :
    s'.hub.ledger.payloads + (inHit w + s.hub.ledger.counted.length) =
      s.hub.ledger.payloads + (inHit w' + s'.hub.ledger.counted.length) := by
  cases h <;> simp [inHit, failedLpop, droppedTask, *] <;> omega

theorem Move.recorded (h : Move serde pw s w a s' w') :
    (((s'.hub.ledger.sent.map Sample.job : List Entry) : Multiset Entry) +
        s'.hub.ledger.rejected) +
      (recordedBy w + (s.hub.ledger.counted : Multiset Entry)) =
    (((s.hub.ledger.sent.map Sample.job : List Entry) : Multiset Entry) +
        s.hub.ledger.rejected) +
      (recordedBy w' + (s'.hub.ledger.counted : Multiset Entry)) := by
  cases h with
  | record clock e sample hpc hr =>
    have hj := (recordJob_some hr).1
    simp [recordedBy, hpc, hj, List.perm_iff_count, List.count_cons]
    omega
  | count e hpc => simp [recordedBy, hpc, List.perm_iff_count, List.count_cons]
  | _ => simp [recordedBy, failedLpop, droppedTask, *]

theorem Move.completed (h : Move serde pw s w a s' w') :
    s'.hub.metrics.completed + s.hub.ledger.counted.length =
      s.hub.metrics.completed + s'.hub.ledger.counted.length := by
  cases h <;> simp [failedLpop, droppedTask, Metrics.incPoll, Metrics.incError,
    Metrics.incCompleted, Nat.add_comm, Nat.add_left_comm]

theorem Move.removed (h : Move serde pw s w a s' w') :
    (s'.hub.ledger.removed : Multiset Entry) +
      (heldBy w + ((s.hub.ledger.counted : Multiset Entry) + s.hub.ledger.lost)) =
    s.hub.ledger.removed +
      (heldBy w' + ((s'.hub.ledger.counted : Multiset Entry) + s'.hub.ledger.lost)) := by
  cases h with
  | pop k key e rest hpc hk hl hdb => simp [heldBy, hpc]
  | empty k key b hpc hk hl hb => cases b <;> simp_all [heldBy, Answer.jobs]
  | failReplied k b hpc =>
    cases b <;> simp [heldBy, hpc, failedLpop, Answer.jobs, List.perm_iff_count, List.count_cons]
    omega
  | dropReplied k b hpc ha =>
    cases b <;> simp [heldBy, hpc, droppedTask, Answer.jobs, List.perm_iff_count, List.count_cons]
    omega
  | count e hpc =>
    simp [heldBy, hpc, List.perm_iff_count, List.count_cons]
    omega
  | _ => simp [heldBy, failedLpop, droppedTask, *]

theorem Answer.length_jobs_le (b : Answer) : b.jobs.length ≤ 1 := by
  cases b <;> simp [Answer.jobs]

theorem Move.losses (h : Move serde pw s w a s' w') :
    s'.hub.ledger.lost.length + s'.hub.late.length +
      (droppedInFlight w + s.hub.ledger.errs) ≤
    s.hub.ledger.lost.length + s.hub.late.length +
      (droppedInFlight w' + s'.hub.ledger.errs) := by
  cases h with
  | failReplied k b hpc =>
    have hb := b.length_jobs_le
    simp [droppedInFlight, hpc, failedLpop]
    omega
  | dropReplied k b hpc ha =>
    have hb := b.length_jobs_le
    simp [droppedInFlight, hpc, droppedTask]
    omega
  | _ => simp [droppedInFlight, failedLpop, droppedTask, *] <;> omega

theorem Move.channel (h : Move serde pw s w a s' w')
    (hc : s.hub.ledger.received ++ s.hub.latency = s.hub.ledger.sent) :
    s'.hub.ledger.received ++ s'.hub.latency = s'.hub.ledger.sent := by
  cases h <;> simp [failedLpop, droppedTask, ← hc]

end Move

def Fleet.new (db : Db Entry) (nWorkers : Nat) : Fleet :=
  ⟨⟨db, .new⟩, List.replicate nWorkers .new⟩

theorem Balanced.new (db : Db Entry) (nWorkers : Nat) : Balanced (.new db nWorkers) := by
  constructor <;> simp [Fleet.new, Hub.new, Metrics.new, awaiting, openPolls, Worker.new, inHit,
    recordedBy, heldBy, droppedInFlight]

theorem Balanced.worker {serde : Serde} {pw : PollWorker} {f : Fleet} (hf : Balanced f)
    {i : Nat} {w w' : Worker} {s' : Shared} {a : WorkerAct} (hw : f.workers[i]? = some w)
    (hm : Move serde pw f.shared w a s' w') : Balanced ⟨s', f.workers.set i w'⟩ where
  polls := total_balance hw hf.polls hm.polls
  scanned := total_balance hw hf.scanned hm.scanned
  errors := by have := hm.errors; have := hf.errors; dsimp only; omega
  answered := total_balance hw hf.answered hm.answered
  recorded := total_balance hw hf.recorded hm.recorded
  completed := by have := hm.completed; have := hf.completed; dsimp only; omega
  removed := total_balance hw hf.removed hm.removed
  losses := by
    have hl := hm.losses
    have ht := total_set droppedInFlight w' hw
    have := hf.losses
    dsimp only
    omega
  channel := hm.channel hf.channel

theorem Balanced.step {serde : Serde} {pw : PollWorker} {f f' : Fleet} {a : FleetAct}
    (hf : Balanced f) (h : FleetMove serde pw f a f') : Balanced f' := by
  cases h with
  | worker i a w w' s' hw hm => exact hf.worker hw hm
  | latePop j k key e rest hj hk hl hdb =>
    obtain ⟨hlt, _⟩ := List.getElem?_eq_some_iff.mp hj
    have hlen := List.length_eraseIdx_add_one hlt
    refine { hf with removed := ?_, losses := ?_ }
    · have hr := hf.removed
      simp only [← Multiset.coe_add, hr, add_assoc]
    · have hl := hf.losses
      simp only [List.length_append, List.length_singleton]
      omega
  | lateEmpty j k key hj hk hl =>
    have hlen := List.length_eraseIdx_le f.shared.hub.late j
    refine { hf with losses := ?_ }
    have := hf.losses
    dsimp only
    omega
  | shutdown => exact { hf with }
  | recv sample rest hl =>
    refine { hf with channel := ?_ }
    have hc := hf.channel
    rw [hl] at hc
    simpa using hc

end ResqueBench
