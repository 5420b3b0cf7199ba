import ResqueBench.FleetLedger

/-! One phase: `run_drain_trial` with its collector, monitor and orchestrator, or
`run_idle_poll_trial`. A task step may act on the fleet through one fleet action. -/

namespace ResqueBench

open Redis

inductive PercentileSpec
  | quantile (name : String) (q : Rat)
  | max
  | mean

def PercentileSpec.name : PercentileSpec → String
  | .quantile name _ => name
  | .max => "max"
  | .mean => "mean"

/-- The quantile and the mean are exact rationals here, where the source hands `f64`s to
the histogram and cuts one off. -/
def PercentileSpec.value {H : Type} (hdr : Hdr H) (hist : H) (spec : PercentileSpec) : Nat :=
  if hdr.isEmpty hist then 0
  else
    match spec with
    | .quantile _ q => hdr.valueAtQuantile hist q
    | .max => hdr.max hist
    | .mean => (hdr.mean hist).floor.toNat

/-- `map.entry(name).or_default().push(value)`. -/
def pushSeries (map : List (String × List Nat)) (name : String) (value : Nat) :
    List (String × List Nat) :=
  match map with
  | [] => [(name, [value])]
  | (key, series) :: rest =>
    if key = name then (key, series ++ [value]) :: rest
    else (key, series) :: pushSeries rest name value

structure TrialConfig where
  queueKeys : List String
  jobs : Nat
  percentileSpecs : List PercentileSpec

/-- A per-second histogram handed to a snapshot request. The proofs also keep the
samples it was recorded from and those still queued when it was taken. -/
structure Window (H : Type) where
  tick : Nat
  hist : H
  taken : List Sample
  backlog : List Sample

structure Collector (H : Type) where
  hist : H
  perSecHist : H
  ended : Bool
  current : List Sample -- received since the last reset
  windows : List (Window H) -- handed out so far

inductive MonitorPc
  | sleeping
  | woken -- before `get_completed`
  | errors -- before `get_errors`
  | request -- before `snapshot_tx.send`
  | awaiting -- awaiting `resp_rx`
  | dropped
deriving DecidableEq, Repr

structure Monitor (H : Type) where
  pc : MonitorPc
  abortRequested : Bool
  prevCompleted : Nat
  prevErrors : Nat
  throughput : List Nat
  errors : List Nat
  latency : List (String × List Nat)
  answer : Option (Window H) -- sent on the oneshot channel, not taken yet
  ticks : List (List Entry) -- jobs counted when each tick read `completed`
  windows : List (Window H) -- taken so far

inductive Orchestrator
  | waiting
  | waited (timedOut : Bool) -- before `monitor.abort`
  | stopping (timedOut : Bool) -- before `shutdown_tx.send`
  | joining (timedOut : Bool)
  | collecting (timedOut : Bool) -- awaiting the collector
  | finished (result : TrialResult)

structure DrainTasks (H : Type) where
  collector : Collector H
  requests : List Nat -- snapshot requests in the channel, by tick
  monitor : Monitor H
  orch : Orchestrator

inductive DrainAct
  | recv
  | serve
  | collectorEnd
  | wake
  | tick
  | tickErrors
  | request
  | answer
  | noAnswer
  | monitorDrop
  | noWait
  | doneSeen
  | timeout
  | stopMonitor
  | shutdown
  | grace (i : Nat)
  | joined
  | readOut (elapsed : Rat)

def Collector.new {H : Type} (hdr : Hdr H) : Collector H := ⟨hdr.new, hdr.new, false, [], []⟩

/-- `record` on both histograms, its result discarded. -/
def Collector.receive {H : Type} (hdr : Hdr H) (c : Collector H) (s : Sample) : Collector H :=
  let v := max s.us 1
  { c with
    hist := hdr.recordIgnoring c.hist v
    perSecHist := hdr.recordIgnoring c.perSecHist v
    current := c.current ++ [s] }

/-- The window for a request, and the collector after the reset. -/
def Collector.snapshot {H : Type} (hdr : Hdr H) (c : Collector H) (tick : Nat)
    (backlog : List Sample) : Window H × Collector H :=
  let window : Window H := ⟨tick, c.perSecHist, c.current, backlog⟩
  (window, { c with
    perSecHist := hdr.reset c.perSecHist
    current := []
    windows := c.windows ++ [window] })

def Monitor.new {H : Type} : Monitor H := ⟨.sleeping, false, 0, 0, [], [], [], none, [], []⟩

def DrainTasks.new {H : Type} (hdr : Hdr H) : DrainTasks H := ⟨.new hdr, [], .new, .waiting⟩

def joinable (workers : List Worker) : Bool :=
  workers.all (fun w => w.pc.isTerminal || w.abortRequested)

def allDropped (workers : List Worker) : Bool := workers.all (fun w => w.pc.isTerminal)

def trialResult {H : Type} (hdr : Hdr H) (f : Fleet) (d : DrainTasks H) (elapsed : Rat)
    (timedOut : Bool) : TrialResult where
  workers := f.workers.length
  totalJobs := f.shared.hub.metrics.completed
  durationS := elapsed
  jobsPerSec := if 0 < elapsed then f.shared.hub.metrics.completed / elapsed else 0
  throughputPerSec := d.monitor.throughput
  errorsPerSec := d.monitor.errors
  latencyPerSec := d.monitor.latency
  latency := .fromHistogram hdr d.collector.hist
  errors := f.shared.hub.metrics.errors
  timedOut := timedOut

def DrainTasks.step {H : Type} (hdr : Hdr H) (cfg : TrialConfig) (f : Fleet) (d : DrainTasks H) :
    DrainAct → Option (Option FleetAct × DrainTasks H)
  -- the collector: either ready branch of its `select!` may run
  | .recv =>
    match f.shared.hub.latency with
    | [] => none
    | sample :: _ =>
      if d.collector.ended then none
      else some (some .recv, { d with collector := d.collector.receive hdr sample })
  | .serve =>
    match d.requests with
    | [] => none
    | tick :: rest =>
      if d.collector.ended then none
      else
        let r := d.collector.snapshot hdr tick f.shared.hub.latency
        let monitor := if d.monitor.pc = .awaiting then { d.monitor with answer := some r.1 }
          else d.monitor
        some (none, { d with collector := r.2, requests := rest, monitor := monitor })
  | .collectorEnd =>
    if f.shared.hub.latency.isEmpty && allDropped f.workers && !d.collector.ended then
      some (none, { d with collector := { d.collector with ended := true } })
    else none
  -- the monitor: a sleeping task that is to be aborted does not wake
  | .wake =>
    if d.monitor.pc = .sleeping && !d.monitor.abortRequested then
      some (none, { d with monitor := { d.monitor with pc := .woken } })
    else none
  | .tick =>
    if d.monitor.pc = .woken then
      let cur := f.shared.hub.metrics.completed
      some (none, { d with monitor := { d.monitor with
        pc := .errors
        prevCompleted := cur
        throughput := d.monitor.throughput ++ [cur - d.monitor.prevCompleted]
        ticks := d.monitor.ticks ++ [f.shared.hub.ledger.counted] } })
    else none
  | .tickErrors =>
    if d.monitor.pc = .errors then
      let cur := f.shared.hub.metrics.errors
      some (none, { d with monitor := { d.monitor with
        pc := .request
        prevErrors := cur
        errors := d.monitor.errors ++ [cur - d.monitor.prevErrors] } })
    else none
  | .request =>
    if d.monitor.pc = .request then
      if d.collector.ended then
        some (none, { d with monitor := { d.monitor with pc := .sleeping } })
      else
        some (none, { d with
          requests := d.requests ++ [d.monitor.ticks.length - 1]
          monitor := { d.monitor with pc := .awaiting, answer := none } })
    else none
  | .answer =>
    if d.monitor.pc = .awaiting then
      match d.monitor.answer with
      | some window => some (none, { d with monitor := { d.monitor with
          pc := .sleeping
          answer := none
          latency := cfg.percentileSpecs.foldl
            (fun map spec => pushSeries map spec.name (spec.value hdr window.hist))
            d.monitor.latency
          windows := d.monitor.windows ++ [window] } })
      | none => none
    else none
  | .noAnswer =>
    if d.monitor.pc = .awaiting && d.collector.ended && d.monitor.answer.isNone then
      some (none, { d with monitor := { d.monitor with pc := .sleeping } })
    else none
  | .monitorDrop =>
    if d.monitor.abortRequested && (d.monitor.pc = .sleeping || d.monitor.pc = .awaiting) then
      some (none, { d with monitor := { d.monitor with pc := .dropped } })
    else none
  -- the orchestrator
  | .noWait =>
    match d.orch with
    | .waiting => if cfg.jobs = 0 then some (none, { d with orch := .waited false }) else none
    | _ => none
  | .doneSeen =>
    match d.orch with
    | .waiting =>
      if cfg.jobs ≠ 0 && f.shared.hub.done.borrow then some (none, { d with orch := .waited false })
      else none
    | _ => none
  | .timeout =>
    match d.orch with
    | .waiting => if cfg.jobs ≠ 0 then some (none, { d with orch := .waited true }) else none
    | _ => none
  | .stopMonitor =>
    match d.orch with
    | .waited timedOut => some (none, { d with
        orch := .stopping timedOut
        monitor := { d.monitor with abortRequested := true } })
    | _ => none
  | .shutdown =>
    match d.orch with
    | .stopping timedOut => some (some .shutdown, { d with orch := .joining timedOut })
    | _ => none
  | .grace i =>
    match d.orch with
    | .joining _ => some (some (.worker i .abort), d)
    | _ => none
  | .joined =>
    match d.orch with
    | .joining timedOut =>
      if joinable f.workers then some (none, { d with orch := .collecting timedOut }) else none
    | _ => none
  | .readOut elapsed =>
    match d.orch with
    | .collecting timedOut =>
      if d.collector.ended then
        some (none, { d with orch := .finished (trialResult hdr f d elapsed timedOut) })
      else none
    | _ => none

inductive IdleOrchestrator
  | sleeping
  | joining (elapsed : Rat)
  | finished (result : IdlePollResult)

structure IdleTasks where
  orch : IdleOrchestrator
  drainTaskAborted : Bool

inductive IdleAct
  | recv
  | shutdown (elapsed : Rat)
  | grace (i : Nat)
  | readOut

def computeIdlePollQps (totalCalls : Nat) (durationS : Rat) (workers : Nat) : Rat × Rat :=
  let idlePollQps := if 0 < durationS then totalCalls / durationS else 0
  (idlePollQps, if 0 < workers then idlePollQps / workers else 0)

def idlePollResult (f : Fleet) (elapsed : Rat) : IdlePollResult :=
  let qps := computeIdlePollQps f.shared.hub.metrics.polls elapsed f.workers.length
  ⟨f.workers.length, elapsed, f.shared.hub.metrics.polls, qps.1, qps.2, none⟩

def IdleTasks.step (f : Fleet) (t : IdleTasks) : IdleAct → Option (Option FleetAct × IdleTasks)
  | .recv => if t.drainTaskAborted then none else some (some .recv, t)
  | .shutdown elapsed =>
    match t.orch with
    | .sleeping => some (some .shutdown, { t with orch := .joining elapsed })
    | _ => none
  | .grace i =>
    match t.orch with
    | .joining _ => some (some (.worker i .abort), t)
    | _ => none
  | .readOut =>
    match t.orch with
    | .joining elapsed =>
      if joinable f.workers then some (none, ⟨.finished (idlePollResult f elapsed), true⟩) else none
    | _ => none

inductive Tasks (H : Type)
  | drain (cfg : TrialConfig) (d : DrainTasks H)
  | idle (queueKeys : List String) (t : IdleTasks)

def Tasks.pollWorker {H : Type} : Tasks H → PollWorker
  | .drain cfg _ => ⟨some cfg.jobs, cfg.queueKeys⟩
  | .idle queueKeys _ => ⟨none, queueKeys⟩

def Tasks.drainTasks {H : Type} : Tasks H → Option (DrainTasks H)
  | .drain _ d => some d
  | .idle _ _ => none

def Tasks.config {H : Type} : Tasks H → Option TrialConfig
  | .drain cfg _ => some cfg
  | .idle _ _ => none

/-- What `run_drain_trial` has returned. -/
def Tasks.returned {H : Type} (tasks : Tasks H) : Option TrialResult :=
  tasks.drainTasks.bind (fun d =>
    match d.orch with
    | .finished result => some result
    | _ => none)

/-- What `run_idle_poll_trial` has returned. -/
def Tasks.idleReturned {H : Type} : Tasks H → Option IdlePollResult
  | .drain _ _ => none
  | .idle _ t =>
    match t.orch with
    | .finished result => some result
    | _ => none

structure Phase (H : Type) where
  hub : Hub
  workers : List Worker
  tasks : Tasks H

inductive PhaseAct
  | worker (i : Nat) (a : WorkerAct)
  | late (j : Nat)
  | drain (a : DrainAct)
  | idle (a : IdleAct)

def Phase.fleet {H : Type} (p : Phase H) (db : Db Entry) : Fleet := ⟨⟨db, p.hub⟩, p.workers⟩

def Phase.apply {H : Type} (serde : Serde) (db : Db Entry) (p : Phase H) (act : Option FleetAct)
    (tasks : Tasks H) : Option (Db Entry × Phase H) :=
  match act with
  | none => some (db, { p with tasks := tasks })
  | some act => ((p.fleet db).step serde p.tasks.pollWorker act).map
      (fun f => (f.shared.db, ⟨f.shared.hub, f.workers, tasks⟩))

def Phase.step {H : Type} (serde : Serde) (hdr : Hdr H) (db : Db Entry) (p : Phase H) :
    PhaseAct → Option (Db Entry × Phase H)
  | .worker i a =>
    if a = .abort then none else p.apply serde db (some (.worker i a)) p.tasks
  | .late j => p.apply serde db (some (.late j)) p.tasks
  | .drain a =>
    match p.tasks with
    | .drain cfg d =>
      (d.step hdr cfg (p.fleet db) a).bind (fun r => p.apply serde db r.1 (.drain cfg r.2))
    | .idle _ _ => none
  | .idle a =>
    match p.tasks with
    | .idle queueKeys t =>
      (t.step (p.fleet db) a).bind (fun r => p.apply serde db r.1 (.idle queueKeys r.2))
    | .drain _ _ => none

def runDrainTrial {H : Type} (hdr : Hdr H) (cfg : TrialConfig) (nWorkers : Nat) : Phase H :=
  ⟨.new, List.replicate nWorkers .new, .drain cfg (.new hdr)⟩

def runIdlePollTrial {H : Type} (queueKeys : List String) (nWorkers : Nat) : Phase H :=
  ⟨.new, List.replicate nWorkers .new, .idle queueKeys ⟨.sleeping, false⟩⟩

/-- A phase that is alone with its database. -/
structure Trial (H : Type) where
  db : Db Entry
  phase : Phase H

def Trial.step {H : Type} (serde : Serde) (hdr : Hdr H) (t : Trial H) (a : PhaseAct) :
    Option (Trial H) :=
  (t.phase.step serde hdr t.db a).map (fun r => ⟨r.1, r.2⟩)

def Trial.fleet {H : Type} (t : Trial H) : Fleet := t.phase.fleet t.db

/-- Everything one step of the collector, the monitor or the orchestrator can do. -/
inductive DrainMove {H : Type} (hdr : Hdr H) (cfg : TrialConfig) (f : Fleet) (d : DrainTasks H) :
    DrainAct → Option FleetAct → DrainTasks H → Prop
  | recv (sample : Sample) (rest : List Sample) (hl : f.shared.hub.latency = sample :: rest)
      (he : d.collector.ended = false) :
      DrainMove hdr cfg f d .recv (some .recv)
        { d with collector := d.collector.receive hdr sample }
  | serve (tick : Nat) (rest : List Nat) (hr : d.requests = tick :: rest)
      (he : d.collector.ended = false) :
      DrainMove hdr cfg f d .serve none { d with
        collector := (d.collector.snapshot hdr tick f.shared.hub.latency).2
        requests := rest
        monitor := if d.monitor.pc = .awaiting then
          { d.monitor with answer := some (d.collector.snapshot hdr tick f.shared.hub.latency).1 }
          else d.monitor }
  | collectorEnd (hl : f.shared.hub.latency = [])
      (hw : ∀ w ∈ f.workers, w.pc.isTerminal = true) (he : d.collector.ended = false) :
      DrainMove hdr cfg f d .collectorEnd none
        { d with collector := { d.collector with ended := true } }
  | wake (hpc : d.monitor.pc = .sleeping) (ha : d.monitor.abortRequested = false) :
      DrainMove hdr cfg f d .wake none { d with monitor := { d.monitor with pc := .woken } }
  | tick (hpc : d.monitor.pc = .woken) :
      DrainMove hdr cfg f d .tick none { d with monitor := { d.monitor with
        pc := .errors
        prevCompleted := f.shared.hub.metrics.completed
        throughput := d.monitor.throughput ++
          [f.shared.hub.metrics.completed - d.monitor.prevCompleted]
        ticks := d.monitor.ticks ++ [f.shared.hub.ledger.counted] } }
  | tickErrors (hpc : d.monitor.pc = .errors) :
      DrainMove hdr cfg f d .tickErrors none { d with monitor := { d.monitor with
        pc := .request
        prevErrors := f.shared.hub.metrics.errors
        errors := d.monitor.errors ++ [f.shared.hub.metrics.errors - d.monitor.prevErrors] } }
  | request (hpc : d.monitor.pc = .request) (he : d.collector.ended = false) :
      DrainMove hdr cfg f d .request none { d with
        requests := d.requests ++ [d.monitor.ticks.length - 1]
        monitor := { d.monitor with pc := .awaiting, answer := none } }
  | requestClosed (hpc : d.monitor.pc = .request) (he : d.collector.ended = true) :
      DrainMove hdr cfg f d .request none
        { d with monitor := { d.monitor with pc := .sleeping } }
  | answer (window : Window H) (hpc : d.monitor.pc = .awaiting)
      (ha : d.monitor.answer = some window) :
      DrainMove hdr cfg f d .answer none { d with monitor := { d.monitor with
        pc := .sleeping
        answer := none
        latency := cfg.percentileSpecs.foldl
          (fun map spec => pushSeries map spec.name (spec.value hdr window.hist))
          d.monitor.latency
        windows := d.monitor.windows ++ [window] } }
  | noAnswer (hpc : d.monitor.pc = .awaiting) (he : d.collector.ended = true)
      (ha : d.monitor.answer = none) :
      DrainMove hdr cfg f d .noAnswer none
        { d with monitor := { d.monitor with pc := .sleeping } }
  | monitorDrop (hpc : d.monitor.pc = .sleeping ∨ d.monitor.pc = .awaiting)
      (ha : d.monitor.abortRequested = true) :
      DrainMove hdr cfg f d .monitorDrop none
        { d with monitor := { d.monitor with pc := .dropped } }
  | noWait (ho : d.orch = .waiting) (hj : cfg.jobs = 0) :
      DrainMove hdr cfg f d .noWait none { d with orch := .waited false }
  | doneSeen (ho : d.orch = .waiting) (hj : cfg.jobs ≠ 0)
      (hd : f.shared.hub.done.borrow = true) :
      DrainMove hdr cfg f d .doneSeen none { d with orch := .waited false }
  | timeout (ho : d.orch = .waiting) (hj : cfg.jobs ≠ 0) :
      DrainMove hdr cfg f d .timeout none { d with orch := .waited true }
  | stopMonitor (timedOut : Bool) (ho : d.orch = .waited timedOut) :
      DrainMove hdr cfg f d .stopMonitor none { d with
        orch := .stopping timedOut
        monitor := { d.monitor with abortRequested := true } }
  | shutdown (timedOut : Bool) (ho : d.orch = .stopping timedOut) :
      DrainMove hdr cfg f d .shutdown (some .shutdown) { d with orch := .joining timedOut }
  | grace (i : Nat) (timedOut : Bool) (ho : d.orch = .joining timedOut) :
      DrainMove hdr cfg f d (.grace i) (some (.worker i .abort)) d
  | joined (timedOut : Bool) (ho : d.orch = .joining timedOut)
      (hw : ∀ w ∈ f.workers, w.pc.isTerminal = true ∨ w.abortRequested = true) :
      DrainMove hdr cfg f d .joined none { d with orch := .collecting timedOut }
  | readOut (elapsed : Rat) (timedOut : Bool) (ho : d.orch = .collecting timedOut)
      (he : d.collector.ended = true) :
      DrainMove hdr cfg f d (.readOut elapsed) none
        { d with orch := .finished (trialResult hdr f d elapsed timedOut) }

theorem DrainTasks.step_move {H : Type} {hdr : Hdr H} {cfg : TrialConfig} {f : Fleet}
    {d d' : DrainTasks H} {a : DrainAct} {act : Option FleetAct}
    (h : d.step hdr cfg f a = some (act, d')) : DrainMove hdr cfg f d a act d' := by
  cases a <;> simp only [DrainTasks.step] at h
  case recv =>
    split at h
    · cases h
    · split at h <;> cases h
      exact .recv _ _ (by assumption) (Bool.eq_false_iff.mpr (by assumption))
  case serve =>
    split at h
    · cases h
    · split at h <;> cases h
      exact .serve _ _ (by assumption) (Bool.eq_false_iff.mpr (by assumption))
  case collectorEnd =>
    split at h <;> cases h
    rename_i hc
    simp only [Bool.and_eq_true, List.isEmpty_iff, Bool.not_eq_true', allDropped,
      List.all_eq_true] at hc
    exact .collectorEnd hc.1.1 hc.1.2 hc.2
  case wake =>
    split at h <;> cases h
    rename_i hc
    simp only [Bool.and_eq_true, decide_eq_true_eq, Bool.not_eq_true'] at hc
    exact .wake hc.1 hc.2
  case tick =>
    split at h <;> cases h
    exact .tick (by assumption)
  case tickErrors =>
    split at h <;> cases h
    exact .tickErrors (by assumption)
  case request =>
    split at h
    · split at h <;> cases h
      · exact .requestClosed (by assumption) (by assumption)
      · exact .request (by assumption) (Bool.eq_false_iff.mpr (by assumption))
    · cases h
  case answer =>
    split at h
    · split at h <;> cases h
      exact .answer _ (by assumption) (by assumption)
    · cases h
  case noAnswer =>
    split at h <;> cases h
    rename_i hc
    simp only [Bool.and_eq_true, decide_eq_true_eq, Option.isNone_iff_eq_none] at hc
    exact .noAnswer hc.1.1 hc.1.2 hc.2
  case monitorDrop =>
    split at h <;> cases h
    rename_i hc
    simp only [Bool.and_eq_true, Bool.or_eq_true, decide_eq_true_eq] at hc
    exact .monitorDrop hc.2 hc.1
  case noWait =>
    split at h
    · split at h <;> cases h
      exact .noWait (by assumption) (by assumption)
    · cases h
  case doneSeen =>
    split at h
    · split at h <;> cases h
      rename_i hc
      simp only [Bool.and_eq_true, decide_eq_true_eq] at hc
      exact .doneSeen (by assumption) hc.1 hc.2
    · cases h
  case timeout =>
    split at h
    · split at h <;> cases h
      exact .timeout (by assumption) (by assumption)
    · cases h
  case stopMonitor =>
    split at h <;> cases h
    exact .stopMonitor _ (by assumption)
  case shutdown =>
    split at h <;> cases h
    exact .shutdown _ (by assumption)
  case grace i =>
    split at h <;> cases h
    exact .grace i _ (by assumption)
  case joined =>
    split at h
    · split at h <;> cases h
      rename_i hc
      simp only [joinable, List.all_eq_true, Bool.or_eq_true] at hc
      exact .joined _ (by assumption) hc
    · cases h
  case readOut elapsed =>
    split at h
    · split at h <;> cases h
      exact .readOut elapsed _ (by assumption) (by assumption)
    · cases h

end ResqueBench
