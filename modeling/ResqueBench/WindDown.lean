import ResqueBench.Shutdown

/-! The wind-down of a phase. Once the shutdown is sent every step but an abort uses
up a measure, and a phase that has not returned is never stuck. -/

namespace ResqueBench

open Redis Threads

/-- A bound on the steps left to a monitor that is to be aborted. -/
def MonitorPc.rank : MonitorPc → Nat
  | .woken => 6
  | .errors => 5
  | .request => 4
  | .awaiting => 2
  | .sleeping => 1
  | .dropped => 0

def Orchestrator.rank : Orchestrator → Nat
  | .waiting => 5
  | .waited _ => 4
  | .stopping _ => 3
  | .joining _ => 2
  | .collecting _ => 1
  | .finished _ => 0

def DrainTasks.rank {H : Type} (d : DrainTasks H) : Nat :=
  d.monitor.pc.rank + d.requests.length + (if d.collector.ended then 0 else 1) + d.orch.rank

def IdleOrchestrator.rank : IdleOrchestrator → Nat
  | .sleeping => 2
  | .joining _ => 1
  | .finished _ => 0

def Tasks.rank {H : Type} : Tasks H → Nat
  | .drain _ d => d.rank
  | .idle _ t => t.orch.rank

def Tasks.requests {H : Type} : Tasks H → List Nat
  | .drain _ d => d.requests
  | .idle _ _ => []

/-- A bound on the steps left to the workers, to the `LPOP`s nobody awaits and to the
messages in the channel. One step of a worker may leave one of these behind. -/
def Fleet.rank (nKeys : Nat) (f : Fleet) : Nat :=
  2 * total (Worker.rank nKeys) f.workers + f.shared.hub.late.length +
    f.shared.hub.latency.length

def Phase.rank {H : Type} (nKeys : Nat) (p : Phase H) : Nat :=
  (p.fleet (fun _ => none)).rank nKeys + p.tasks.rank

theorem Phase.rank_eq {H : Type} (nKeys : Nat) (p : Phase H) (db : Db Entry) :
    p.rank nKeys = (p.fleet db).rank nKeys + p.tasks.rank := rfl

section Fleet

variable {serde : Serde} {pw : PollWorker} {f f' : Fleet} {act : FleetAct}

theorem Move.leaves {s s' : Shared} {w w' : Worker} {a : WorkerAct}
    (h : Move serde pw s w a s' w') :
    s'.hub.late.length + s'.hub.latency.length ≤
      s.hub.late.length + s.hub.latency.length + if a = .abort then 0 else 1 := by
  cases h <;> simp [failedLpop, droppedTask] <;> omega

/-- What an action of the fleet costs; the tasks pay for the others themselves. -/
def FleetAct.cost : FleetAct → Nat
  | .worker _ a => if a = .abort then 0 else 1
  | .late _ | .recv => 1
  | .shutdown => 0

theorem FleetMove.rank (h : FleetMove serde pw f act f')
    (hs : f.shared.hub.shutdown.borrow = true ∨ ∀ i b, act = .worker i b → b = .abort)
    (ho : Scanned pw.queueKeys.length f) :
    act.cost + f'.rank pw.queueKeys.length ≤ f.rank pw.queueKeys.length := by
  cases h with
  | worker i a w w' s' hw hm =>
    have htotal := total_set (Worker.rank pw.queueKeys.length) w' hw
    have hleaves := hm.leaves
    have hrank : (if a = .abort then 0 else 1) + w'.rank pw.queueKeys.length ≤
        w.rank pw.queueKeys.length := by
      rcases hs with hs | hs
      · exact hm.rank hs (ho.workers w (List.mem_of_getElem? hw))
      · obtain rfl : a = .abort := hs i a rfl
        cases hm with
        | abort => simp [Worker.rank]
    simp only [Fleet.rank, FleetAct.cost]
    split at hrank <;> split at hleaves <;> simp_all <;> omega
  | latePop j k key e rest hj hk hl hdb =>
    have hlen := List.length_eraseIdx_add_one (List.getElem?_eq_some_iff.mp hj).1
    simp only [Fleet.rank, FleetAct.cost]
    omega
  | lateEmpty j k key hj hk hl =>
    have hlen := List.length_eraseIdx_add_one (List.getElem?_eq_some_iff.mp hj).1
    simp only [Fleet.rank, FleetAct.cost]
    omega
  | shutdown => simp [Fleet.rank, FleetAct.cost]
  | recv sample rest hl =>
    simp only [Fleet.rank, FleetAct.cost, hl, List.length_cons]
    omega

theorem FleetStutter.rank {act : Option FleetAct} (h : FleetStutter serde pw f act f')
    (hact : ∀ i b, act = some (.worker i b) → b = .abort) (ho : Scanned pw.queueKeys.length f) :
    (act.map FleetAct.cost).getD 0 + f'.rank pw.queueKeys.length ≤ f.rank pw.queueKeys.length := by
  cases act with
  | none =>
    obtain rfl : f' = f := h
    simp
  | some act => exact FleetMove.rank h (.inr (fun i b he => hact i b (congrArg some he))) ho

theorem Fleet.rank_le (nKeys : Nat) (f : Fleet) :
    f.rank nKeys ≤ 2 * (f.workers.length * (3 * nKeys + 5)) + f.shared.hub.late.length +
      f.shared.hub.latency.length := by
  have hsum : total (Worker.rank nKeys) f.workers ≤ f.workers.length * (3 * nKeys + 5) := by
    have hle := List.sum_le_card_nsmul (f.workers.map (Worker.rank nKeys)) (3 * nKeys + 5)
      (fun r hr => by
        obtain ⟨w, _, rfl⟩ := List.mem_map.mp hr
        exact w.rank_le nKeys)
    simpa [total] using hle
  simp only [Fleet.rank]
  omega

end Fleet

section Tasks

variable {H : Type} {hdr : Hdr H} {cfg : TrialConfig} {f : Fleet} {act : Option FleetAct}

def DrainAct.isGrace : DrainAct → Bool
  | .grace _ => true
  | _ => false

def IdleAct.isGrace : IdleAct → Bool
  | .grace _ => true
  | _ => false

/-- Whether a step is an abort: `join_workers` may repeat it without any effect. -/
def PhaseAct.isGrace : PhaseAct → Bool
  | .drain a => a.isGrace
  | .idle a => a.isGrace
  | _ => false

theorem DrainMove.rank {d d' : DrainTasks H} {a : DrainAct} (h : DrainMove hdr cfg f d a act d')
    (hwake : d.monitor.abortRequested = true ∨ (a ≠ .wake)) :
    (if a.isGrace then 0 else 1) + d'.rank ≤ d.rank + (act.map FleetAct.cost).getD 0 := by
  cases h with
  | wake hpc ha => simp [ha] at hwake
  | serve tick rest hr he =>
    by_cases hpc : d.monitor.pc = .awaiting <;>
      simp [DrainTasks.rank, hpc, hr, he, DrainAct.isGrace, Collector.snapshot] <;> omega
  | monitorDrop hpc ha =>
    rcases hpc with hpc | hpc <;>
      simp [DrainTasks.rank, hpc, DrainAct.isGrace, MonitorPc.rank] <;> omega
  | _ =>
    simp_all [DrainTasks.rank, DrainAct.isGrace, FleetAct.cost, MonitorPc.rank, Orchestrator.rank,
      Collector.receive]
    try omega

theorem IdleMove.rank {t t' : IdleTasks} {a : IdleAct} (h : IdleMove f t a act t') :
    (if a.isGrace then 0 else 1) + t'.orch.rank ≤
      t.orch.rank + (act.map FleetAct.cost).getD 0 := by
  cases h <;> simp_all [IdleAct.isGrace, FleetAct.cost, IdleOrchestrator.rank, Nat.add_comm]

end Tasks

section Phase

variable {H : Type} {serde : Serde} {hdr : Hdr H} {pw : PollWorker} {db db' : Db Entry}
  {p p' : Phase H} {a : PhaseAct} {x : Db Entry × PhaseAct}

theorem PhaseMove.rank (h : PhaseMove serde hdr db p a db' p') (hk : Kept pw p)
    (hs : p.hub.shutdown.borrow = true ∨ ∀ i b, a ≠ .worker i b)
    (hwake : ∀ cfg d, p.tasks = .drain cfg d → d.monitor.abortRequested = true ∨ a ≠ .drain .wake) :
    (if a.isGrace then 0 else 1) + p'.rank pw.queueKeys.length ≤ p.rank pw.queueKeys.length := by
  have hopen : Scanned p.tasks.pollWorker.queueKeys.length (p.fleet db) := by
    rw [hk.poll]
    exact hk.scanned db
  rw [← hk.poll, p.rank_eq _ db, p'.rank_eq _ db']
  cases h with
  | worker i b f hb hf =>
    have hr := hf.rank (hs.imp id (fun hs => absurd rfl (hs i b))) hopen
    simp only [FleetAct.cost, hb, if_false] at hr
    simpa [PhaseAct.isGrace, Phase.fleet, ← Nat.add_assoc] using hr
  | late j f hf =>
    have hr := hf.rank (.inr (fun i b h => by cases h)) hopen
    simpa [PhaseAct.isGrace, Phase.fleet, FleetAct.cost, ← Nat.add_assoc] using hr
  | drain cfg d d' b act f ht hm hf =>
    have hcost := hm.rank ((hwake cfg d ht).imp id (fun hne he => hne (congrArg _ he)))
    have hpw : p.tasks.pollWorker = ⟨some cfg.jobs, cfg.queueKeys⟩ := by rw [ht]; rfl
    have hfleet := hf.rank (by rintro i c rfl; cases hm; rfl) (hpw ▸ hopen)
    rw [← hpw] at hfleet
    have hgoal : (if b.isGrace then 0 else 1) + (f.rank p.tasks.pollWorker.queueKeys.length +
        d'.rank) ≤ (p.fleet db).rank p.tasks.pollWorker.queueKeys.length + d.rank := by omega
    rw [show p.tasks.rank = d.rank by rw [ht]; rfl]
    exact hgoal
  | idle keys t t' b act f ht hm hf =>
    have hcost := hm.rank
    have hpw : p.tasks.pollWorker = ⟨none, keys⟩ := by rw [ht]; rfl
    have hfleet := hf.rank (by rintro i c rfl; cases hm; rfl) (hpw ▸ hopen)
    rw [← hpw] at hfleet
    have hgoal : (if b.isGrace then 0 else 1) + (f.rank p.tasks.pollWorker.queueKeys.length +
        t'.orch.rank) ≤ (p.fleet db).rank p.tasks.pollWorker.queueKeys.length + t.orch.rank := by
      omega
    rw [show p.tasks.rank = t.orch.rank by rw [ht]; rfl]
    exact hgoal

/-- Whether the orchestrating task has sent the shutdown. -/
def Tasks.shutdownSent : Tasks H → Bool
  | .drain _ d => d.orch.rank ≤ 2
  | .idle _ t => t.orch.rank ≤ 1

/-- Whether the monitor, if there is one, is to be aborted whenever it has to be. -/
def Tasks.monitorStopped : Tasks H → Bool
  | .drain _ d => 3 < d.orch.rank || d.monitor.abortRequested
  | .idle _ _ => true

theorem FleetMove.shutdown_same {f f' : Fleet} {act : FleetAct}
    (h : FleetMove serde pw f act f') (ha : act ≠ .shutdown) :
    f'.shared.hub.shutdown = f.shared.hub.shutdown := by
  cases h with
  | worker i a w w' s' hw hm => exact hm.shutdown
  | shutdown => exact absurd rfl ha
  | _ => rfl

theorem FleetMove.wire {f f' : Fleet} {act : FleetAct} (h : FleetMove serde pw f act f')
    (ho : Scanned pw.queueKeys.length f)
    (hl : ∀ k ∈ f.shared.hub.late, k < pw.queueKeys.length) :
    ∀ k ∈ f'.shared.hub.late, k < pw.queueKeys.length := by
  have hadd : ∀ {k : Nat}, k < pw.queueKeys.length →
      ∀ k' ∈ f.shared.hub.late ++ [k], k' < pw.queueKeys.length := by
    intro k hk k' hk'
    rcases List.mem_append.mp hk' with hk' | hk'
    · exact hl k' hk'
    · rw [List.mem_singleton.mp hk']
      exact hk
  cases h with
  | worker i a w w' s' hw hm =>
    have hw := ho.workers w (List.mem_of_getElem? hw)
    cases hm with
    | failSent k hpc =>
      simp only [OpenScan, hpc] at hw
      exact hadd hw.1
    | dropSent k hpc ha =>
      simp only [OpenScan, hpc] at hw
      exact hadd hw.1
    | _ => simpa [failedLpop, droppedTask] using hl
  | latePop => exact fun k hk => hl k (List.mem_of_mem_eraseIdx hk)
  | lateEmpty => exact fun k hk => hl k (List.mem_of_mem_eraseIdx hk)
  | _ => exact hl

/-- What holds of a phase on its way to the shutdown and after it. -/
structure Winding (pw : PollWorker) (p : Phase H) : Prop where
  kept : Kept pw p
  wire : ∀ k ∈ p.hub.late, k < pw.queueKeys.length
  sent : p.hub.shutdown.borrow = p.tasks.shutdownSent
  monitor : p.tasks.monitorStopped = true

theorem DrainMove.sent {cfg : TrialConfig} {f : Fleet} {d d' : DrainTasks H} {b : DrainAct}
    {act : Option FleetAct} (h : DrainMove hdr cfg f d b act d') :
    (Tasks.drain cfg d').shutdownSent =
        ((Tasks.drain cfg d).shutdownSent || act == some .shutdown) ∧
      ((Tasks.drain cfg d).monitorStopped = true →
        (Tasks.drain cfg d').monitorStopped = true) := by
  cases h with
  | serve tick rest hr he =>
    refine ⟨by simp [Tasks.shutdownSent], fun hm => ?_⟩
    by_cases hpc : d.monitor.pc = .awaiting <;> simpa [Tasks.monitorStopped, hpc] using hm
  | _ => simp_all [Tasks.shutdownSent, Tasks.monitorStopped, Orchestrator.rank]

theorem IdleMove.sent {keys : List String} {f : Fleet} {t t' : IdleTasks} {b : IdleAct}
    {act : Option FleetAct} (h : IdleMove f t b act t') :
    (Tasks.idle (H := H) keys t').shutdownSent =
        ((Tasks.idle (H := H) keys t).shutdownSent || act == some .shutdown) := by
  cases h <;> simp_all [Tasks.shutdownSent, IdleOrchestrator.rank]

theorem FleetStutter.sent {f f' : Fleet} {act : Option FleetAct}
    (h : FleetStutter serde pw f act f') :
    f'.shared.hub.shutdown.borrow = (f.shared.hub.shutdown.borrow || act == some .shutdown) := by
  cases act with
  | none =>
    obtain rfl : f' = f := h
    simp
  | some act =>
    have hf : FleetMove serde pw f act f' := h
    by_cases ha : act = .shutdown
    · subst ha
      cases hf with
      | shutdown => simp
    · simp [hf.shutdown_same ha, ha]

theorem Winding.step (h : Winding pw p) (hstep : p.stepAmid serde hdr x = some p') :
    Winding pw p' := by
  obtain ⟨db', hm⟩ := Phase.stepAmid_move hstep
  obtain ⟨_, _, hfleet, _⟩ := hm.fleet
  have hscanned := h.kept.scanned x.1
  rw [← h.kept.poll] at hscanned
  have hsent := h.sent
  have hstopped := h.monitor
  refine ⟨h.kept.step hstep, ?_, ?_, ?_⟩
  · rw [← h.kept.poll]
    exact hfleet.keep (P := fun f => ∀ k ∈ f.shared.hub.late, k < _) (h.kept.poll ▸ h.wire)
      (fun _ hf => hf.wire hscanned (h.kept.poll ▸ h.wire))
  · generalize x.2 = a at hm
    cases hm with
    | worker i b f hb hf =>
      have hsame : f.shared.hub.shutdown = p.hub.shutdown := hf.shutdown_same (by simp)
      rw [hsame]
      exact hsent
    | late j f hf =>
      have hsame : f.shared.hub.shutdown = p.hub.shutdown := hf.shutdown_same (by simp)
      rw [hsame]
      exact hsent
    | drain cfg d d' b act f ht hm hf =>
      rw [hm.sent.1, ← ht, ← hsent]
      exact hf.sent
    | idle keys t t' b act f ht hm hf =>
      rw [hm.sent, ← ht, ← hsent]
      exact hf.sent
  · generalize x.2 = a at hm
    cases hm with
    | worker | late => exact hstopped
    | drain cfg d d' b act f ht hm hf => exact hm.sent.2 (ht ▸ hstopped)
    | idle => rfl

theorem Winding.new {cfg : TrialConfig} {nWorkers : Nat}
    (hp : p = runDrainTrial hdr cfg nWorkers ∨ p = runIdlePollTrial cfg.queueKeys nWorkers) :
    Winding p.tasks.pollWorker p := by
  have hrefl : Machine.Runs (Phase.stepAmid (.envelopes []) hdr) p p := .refl
  rcases hp with rfl | rfl
  · exact ⟨kept_of_runs (fun _ => rfl) hrefl, by simp [runDrainTrial, Hub.new], rfl, rfl⟩
  · exact ⟨kept_of_runs (fun _ => rfl) hrefl, by simp [runIdlePollTrial, Hub.new], rfl, rfl⟩

theorem Winding.spend (h : Winding pw p) (hstep : p.stepAmid serde hdr x = some p')
    (hs : p.hub.shutdown.borrow = true ∨ ((∀ i b, x.2 ≠ .worker i b) ∧ x.2 ≠ .drain .wake)) :
    (if x.2.isGrace then 0 else 1) + p'.rank pw.queueKeys.length ≤
      p.rank pw.queueKeys.length := by
  obtain ⟨db', hm⟩ := Phase.stepAmid_move hstep
  refine hm.rank h.kept (hs.imp id And.left) (fun cfg d ht => ?_)
  rcases hs with hs | hs
  · have hsent := h.sent.symm.trans hs
    have hstopped := h.monitor
    rw [ht] at hsent hstopped
    simp only [Tasks.shutdownSent, decide_eq_true_eq] at hsent
    simp only [Tasks.monitorStopped, Bool.or_eq_true, decide_eq_true_eq] at hstopped
    exact .inl (hstopped.resolve_left (by omega))
  · exact .inr hs.2

theorem Phase.told_kept (hstep : p.stepAmid serde hdr x = some p')
    (hs : p.hub.shutdown.borrow = true) : p'.hub.shutdown.borrow = true := by
  obtain ⟨db', hm⟩ := Phase.stepAmid_move hstep
  obtain ⟨_, act, hf, _⟩ := hm.fleet
  exact hf.keep (P := fun f => f.shared.hub.shutdown.borrow = true) hs
    (fun _ hf => hf.shutdown_kept hs)

/-- What a task that orchestrates a phase has returned, if it has. -/
def Tasks.concluded (tasks : Tasks H) : Bool :=
  tasks.returned.isSome || tasks.idleReturned.isSome

/-- A step other than an abort can be taken with the database as it is, and it brings
the end nearer. -/
def Phase.Nearer (serde : Serde) (hdr : Hdr H) (nKeys : Nat) (db : Db Entry) (p : Phase H) : Prop :=
  ∃ a p', a.isGrace = false ∧ p.stepAmid serde hdr (db, a) = some p' ∧
    p'.rank nKeys < p.rank nKeys

theorem Winding.nearer (h : Winding pw p) (ha : a.isGrace = false)
    (hstep : (p.stepAmid serde hdr (db, a)).isSome = true)
    (hs : p.hub.shutdown.borrow = true ∨ ((∀ i b, a ≠ .worker i b) ∧ a ≠ .drain .wake)) :
    p.Nearer serde hdr pw.queueKeys.length db := by
  obtain ⟨p', hp'⟩ := Option.isSome_iff_exists.mp hstep
  have hle := h.spend hp' hs
  simp only [ha, Bool.false_eq_true, if_false] at hle
  exact ⟨a, p', ha, hp', by omega⟩

theorem Phase.live_step {w : Worker} (serde : Serde) (hdr : Hdr H) (db : Db Entry)
    (hw : w ∈ p.workers) (hlive : w.pc.isTerminal = false) :
    ∃ a, a.isGrace = false ∧ (p.stepAmid serde hdr (db, a)).isSome = true := by
  obtain ⟨i, hi⟩ := List.mem_iff_getElem?.mp hw
  obtain ⟨b, hne, _, hb⟩ := p.tasks.pollWorker.live serde ⟨db, p.hub⟩ hlive
  obtain ⟨r, hr⟩ := Option.isSome_iff_exists.mp hb
  refine ⟨.worker i b, rfl, ?_⟩
  rw [Phase.step_worker hne hi hr]
  rfl

/-- Either some worker can still take a step, or all have ended. -/
theorem Winding.live_or_ended (serde : Serde) (hdr : Hdr H) (db : Db Entry) (h : Winding pw p)
    (hs : p.tasks.shutdownSent = true) :
    p.Nearer serde hdr pw.queueKeys.length db ∨ ∀ w ∈ p.workers, w.pc.isTerminal = true := by
  by_cases hw : ∃ w ∈ p.workers, w.pc.isTerminal = false
  · obtain ⟨w, hw, hterm⟩ := hw
    obtain ⟨a, ha, hstep⟩ := Phase.live_step serde hdr db hw hterm
    exact .inl (h.nearer ha hstep (.inl (h.sent.trans hs)))
  · exact .inr (fun w hm => by simpa using fun he => hw ⟨w, hm, he⟩)

theorem Winding.drain_nearer {cfg : TrialConfig} {d : DrainTasks H} {b : DrainAct}
    (serde : Serde) (h : Winding pw p) (ht : p.tasks = .drain cfg d) (hb : b.isGrace = false)
    (hne : b ≠ .wake)
    (hstep : (d.step hdr cfg (p.fleet db) b).map Prod.fst = some none) :
    p.Nearer serde hdr pw.queueKeys.length db := by
  obtain ⟨⟨act, d'⟩, hd, rfl⟩ := Option.map_eq_some_iff.mp hstep
  refine h.nearer (a := .drain b) hb ?_ (.inr ⟨by simp, by simpa using hne⟩)
  simp [Phase.stepAmid, Phase.step, ht, hd, Phase.apply]

theorem Winding.drain_progress {cfg : TrialConfig} {d : DrainTasks H} (serde : Serde) (hdr : Hdr H)
    (db : Db Entry) (h : Winding pw p) (ht : p.tasks = .drain cfg d)
    (hd : ∀ r, d.orch ≠ .finished r) : p.Nearer serde hdr pw.queueKeys.length db := by
  have hsent : p.tasks.shutdownSent = decide (d.orch.rank ≤ 2) := by
    rw [ht]
    rfl
  cases ho : d.orch with
  | waiting =>
    by_cases hj : cfg.jobs = 0
    · exact h.drain_nearer (b := .noWait) serde ht rfl (by simp) (by simp [DrainTasks.step, ho, hj])
    · exact h.drain_nearer (b := .timeout) serde ht rfl (by simp) (by simp [DrainTasks.step, ho, hj])
  | waited timedOut =>
    exact h.drain_nearer (b := .stopMonitor) serde ht rfl (by simp) (by simp [DrainTasks.step, ho])
  | stopping timedOut =>
    refine h.nearer (a := .drain .shutdown) rfl ?_ (.inr ⟨by simp, by simp⟩)
    simp [Phase.stepAmid, Phase.step, ht, DrainTasks.step, ho, Phase.apply, Fleet.step]
  | joining timedOut =>
    rcases h.live_or_ended serde hdr db (by simp [hsent, ho, Orchestrator.rank]) with hlive | hall
    · exact hlive
    · have hjoin : joinable p.workers = true := by
        simp only [joinable, List.all_eq_true, Bool.or_eq_true]
        exact fun w hw => .inl (hall w hw)
      exact h.drain_nearer (b := .joined) serde ht rfl (by simp)
        (by simp [DrainTasks.step, ho, Phase.fleet, hjoin])
  | collecting timedOut =>
    rcases h.live_or_ended serde hdr db (by simp [hsent, ho, Orchestrator.rank]) with hlive | hall
    · exact hlive
    · have hdropped : allDropped p.workers = true := by
        simpa only [allDropped, List.all_eq_true] using hall
      cases he : d.collector.ended with
      | true =>
        exact h.drain_nearer (b := .readOut 0) serde ht rfl (by simp) (by simp [DrainTasks.step, ho, he])
      | false =>
        cases hl : p.hub.latency with
        | nil =>
          exact h.drain_nearer (b := .collectorEnd) serde ht rfl (by simp)
            (by simp [DrainTasks.step, Phase.fleet, hl, hdropped, he])
        | cons sample rest =>
          refine h.nearer (a := .drain .recv) rfl ?_ (.inr ⟨by simp, by simp⟩)
          simp [Phase.stepAmid, Phase.step, ht, DrainTasks.step, he, Phase.apply, Fleet.step,
            Phase.fleet, hl]
  | finished r => exact absurd ho (hd r)

theorem Winding.idle_progress {keys : List String} {t : IdleTasks} (serde : Serde) (hdr : Hdr H)
    (db : Db Entry) (h : Winding pw p) (ht : p.tasks = .idle keys t)
    (hd : ∀ r, t.orch ≠ .finished r) : p.Nearer serde hdr pw.queueKeys.length db := by
  have hsent : p.tasks.shutdownSent = decide (t.orch.rank ≤ 1) := by
    rw [ht]
    rfl
  cases ho : t.orch with
  | sleeping =>
    refine h.nearer (a := .idle (.shutdown 0)) rfl ?_ (.inr ⟨by simp, by simp⟩)
    simp [Phase.stepAmid, Phase.step, ht, IdleTasks.step, ho, Phase.apply, Fleet.step]
  | joining elapsed =>
    rcases h.live_or_ended serde hdr db (by simp [hsent, ho, IdleOrchestrator.rank]) with hlive | hall
    · exact hlive
    · have hjoin : joinable p.workers = true := by
        simp only [joinable, List.all_eq_true, Bool.or_eq_true]
        exact fun w hw => .inl (hall w hw)
      refine h.nearer (a := .idle .readOut) rfl ?_ (.inr ⟨by simp, by simp⟩)
      simp [Phase.stepAmid, Phase.step, ht, IdleTasks.step, ho, Phase.apply, Phase.fleet, hjoin]
  | finished r => exact absurd ho (hd r)

/-- A phase that has not returned is never stuck. -/
theorem Winding.progress (serde : Serde) (hdr : Hdr H) (db : Db Entry) (h : Winding pw p)
    (hc : p.tasks.concluded = false) : p.Nearer serde hdr pw.queueKeys.length db := by
  cases ht : p.tasks with
  | drain cfg d =>
    refine h.drain_progress serde hdr db ht (fun r ho => ?_)
    simp [Tasks.concluded, ht, Tasks.returned, Tasks.drainTasks, ho] at hc
  | idle keys t =>
    refine h.idle_progress serde hdr db ht (fun r ho => ?_)
    simp [Tasks.concluded, ht, Tasks.idleReturned, ho] at hc

theorem Winding.rank_le (h : Winding pw p) (hs : p.hub.shutdown.borrow = true) :
    p.rank pw.queueKeys.length ≤ 2 * (p.workers.length * (3 * pw.queueKeys.length + 5)) +
      p.hub.late.length + p.hub.latency.length + p.tasks.requests.length + 9 := by
  have hsent := h.sent.symm.trans hs
  have hfleet := (p.fleet (fun _ => none)).rank_le pw.queueKeys.length
  have htasks : p.tasks.rank ≤ p.tasks.requests.length + 9 := by
    cases ht : p.tasks with
    | drain cfg d =>
      rw [ht] at hsent
      simp only [Tasks.shutdownSent, decide_eq_true_eq] at hsent
      have hmonitor : d.monitor.pc.rank ≤ 6 := by cases d.monitor.pc <;> simp [MonitorPc.rank]
      simp only [Tasks.rank, DrainTasks.rank, Tasks.requests]
      split <;> omega
    | idle keys t =>
      rw [ht] at hsent
      simp only [Tasks.shutdownSent, decide_eq_true_eq] at hsent
      simp only [Tasks.rank]
      omega
  simp only [Phase.fleet] at hfleet
  simp only [Phase.rank, Phase.fleet]
  omega

theorem Winding.spend_run {acts : List (Db Entry × PhaseAct)} (h : Winding pw p)
    (hs : p.hub.shutdown.borrow = true)
    (hrun : Machine.run (Phase.stepAmid serde hdr) p acts = some p') :
    acts.countP (fun x => !x.2.isGrace) + p'.rank pw.queueKeys.length ≤
      p.rank pw.queueKeys.length := by
  refine (Machine.run_budget (P := fun q => Winding pw q ∧ q.hub.shutdown.borrow = true)
    (fun {q x q'} hq hstep => ?_) hrun ⟨h, hs⟩).2
  have hle := hq.1.spend hstep (.inl hq.2)
  refine ⟨⟨hq.1.step hstep, Phase.told_kept hstep hq.2⟩, ?_⟩
  cases hx : x.2.isGrace <;> simpa [hx] using hle

/-- Nothing but an abort can happen any more. -/
def Phase.AtRest (serde : Serde) (hdr : Hdr H) (p : Phase H) : Prop :=
  ∀ x, x.2.isGrace = false → p.stepAmid serde hdr x = none

theorem Winding.atRest (h : Winding pw p) (hrest : p.AtRest serde hdr) :
    p.tasks.concluded = true ∧ (∀ w ∈ p.workers, w.pc.isTerminal = true) ∧ p.hub.late = [] := by
  refine ⟨?_, fun w hw => ?_, ?_⟩
  · by_contra hc
    obtain ⟨a, p', ha, hstep, _⟩ := h.progress serde hdr (fun _ => none) (Bool.eq_false_iff.mpr hc)
    rw [hrest (_, a) ha] at hstep
    cases hstep
  · by_contra hlive
    obtain ⟨a, ha, hstep⟩ := Phase.live_step serde hdr (fun _ => none) hw
      (Bool.eq_false_iff.mpr hlive)
    rw [hrest (_, a) ha] at hstep
    cases hstep
  · cases hl : p.hub.late with
    | nil => rfl
    | cons k rest =>
      -- a command on the wire can always be executed
      have hk : k < p.tasks.pollWorker.queueKeys.length := by
        rw [h.kept.poll]
        exact h.wire k (by simp [hl])
      have hstep := hrest (fun _ => none, .late 0) rfl
      simp [Phase.stepAmid, Phase.step, Phase.apply, Fleet.step, Phase.fleet, hl,
        List.getElem?_eq_getElem hk] at hstep

theorem Winding.drain_atRest {cfg : TrialConfig} {d : DrainTasks H} (h : Winding pw p)
    (ht : p.tasks = .drain cfg d) (hs : p.hub.shutdown.borrow = true)
    (hc : Concluded hdr cfg (p.fleet (fun _ => none)) d) (hrest : p.AtRest serde hdr) :
    p.hub.latency = [] ∧ d.monitor.pc = .dropped := by
  have hno : ∀ b, b.isGrace = false →
      (d.step hdr cfg (p.fleet (fun _ => none)) b).map Prod.fst ≠ some none := by
    intro b hb hstep
    obtain ⟨⟨act, d'⟩, hd, rfl⟩ := Option.map_eq_some_iff.mp hstep
    have hnone := hrest (fun _ => none, .drain b) hb
    simp [Phase.stepAmid, Phase.step, ht, hd, Phase.apply] at hnone
  have hstopped : d.monitor.abortRequested = true := by
    have hsent := h.sent.symm.trans hs
    have hm := h.monitor
    rw [ht] at hsent hm
    simp only [Tasks.shutdownSent, decide_eq_true_eq] at hsent
    simp only [Tasks.monitorStopped, Bool.or_eq_true, decide_eq_true_eq] at hm
    exact hm.resolve_left (by omega)
  have hfinished : ∃ r, d.orch = .finished r := by
    have hconcluded := (h.atRest hrest).1
    rw [ht] at hconcluded
    simpa [Tasks.concluded, Tasks.idleReturned, Option.isSome_iff_exists,
      Tasks.returned_drain] using hconcluded
  obtain ⟨r, hr⟩ := hfinished
  refine ⟨(hc.ended (hc.finished r hr).1).2, ?_⟩
  cases hpc : d.monitor.pc with
  | sleeping => exact absurd (by simp [DrainTasks.step, hpc, hstopped]) (hno .monitorDrop rfl)
  | awaiting => exact absurd (by simp [DrainTasks.step, hpc, hstopped]) (hno .monitorDrop rfl)
  | woken => exact absurd (by simp [DrainTasks.step, hpc]) (hno .tick rfl)
  | errors => exact absurd (by simp [DrainTasks.step, hpc]) (hno .tickErrors rfl)
  | request =>
    refine absurd ?_ (hno .request rfl)
    simp only [DrainTasks.step, hpc, if_true]
    split <;> rfl
  | dropped => rfl

/-- Until a phase has its result it is never stuck, whatever is in the database, and
left alone with it the phase can get to the result. Once the shutdown is sent it cannot
be missed: only boundedly many further steps other than aborts can be taken, and when
none is left the result is out, every worker has ended, no command is on the wire, and
the messages and the monitor of a drain are gone. -/
theorem phase_winds_down {p₀ p₁ : Phase H} {cfg : TrialConfig} {nWorkers : Nat}
    (hp : p₀ = runDrainTrial hdr cfg nWorkers ∨ p₀ = runIdlePollTrial cfg.queueKeys nWorkers)
    (h₁ : Machine.Runs (Phase.stepAmid serde hdr) p₀ p₁) :
    (p₁.tasks.concluded = false → ∀ db, ∃ a p₂, a.isGrace = false ∧
      p₁.stepAmid serde hdr (db, a) = some p₂) ∧
    (∀ db, ∃ t₂ : Trial H, Machine.Runs (Trial.step serde hdr) ⟨db, p₁⟩ t₂ ∧
      t₂.phase.tasks.concluded = true) ∧
    (p₁.hub.shutdown.borrow = true → ∀ acts p₂,
      Machine.run (Phase.stepAmid serde hdr) p₁ acts = some p₂ →
      acts.countP (fun x => !x.2.isGrace) ≤ 2 * (p₁.workers.length *
        (3 * cfg.queueKeys.length + 5)) + p₁.hub.late.length + p₁.hub.latency.length +
        p₁.tasks.requests.length + 9 ∧
      (p₂.AtRest serde hdr → p₂.tasks.concluded = true ∧
        (∀ w ∈ p₂.workers, w.pc.isTerminal = true) ∧ p₂.hub.late = [] ∧
        ∀ cfg' d, p₂.tasks = .drain cfg' d → p₂.hub.latency = [] ∧ d.monitor.pc = .dropped)) := by
  have hkeys : p₀.tasks.pollWorker.queueKeys = cfg.queueKeys := by rcases hp with rfl | rfl <;> rfl
  have hwind : Winding p₀.tasks.pollWorker p₁ :=
    h₁.invariant (fun hw _ hstep => hw.step hstep) (.new hp)
  refine ⟨fun hc db => ?_, fun db => ?_, fun hs acts p₂ h₂ => ⟨?_, fun hrest => ?_⟩⟩
  · obtain ⟨a, p₂, ha, hstep, _⟩ := hwind.progress serde hdr db hc
    exact ⟨a, p₂, ha, hstep⟩
  · have hnearer : ∀ t : Trial H, Winding p₀.tasks.pollWorker t.phase →
        ¬ t.phase.tasks.concluded = true →
        ∃ t', Machine.Runs (Trial.step serde hdr) t t' ∧
          Winding p₀.tasks.pollWorker t'.phase ∧
          t'.phase.rank cfg.queueKeys.length < t.phase.rank cfg.queueKeys.length := by
      intro t ht hc
      obtain ⟨a, q, _, hstep, hlt⟩ := ht.progress serde hdr t.db (Bool.eq_false_iff.mpr hc)
      obtain ⟨db', halone⟩ := Trial.step_of_amid hstep
      exact ⟨⟨db', q⟩, Machine.runs_step halone, ht.step hstep, hkeys ▸ hlt⟩
    have hstart : Winding p₀.tasks.pollWorker (⟨db, p₁⟩ : Trial H).phase := hwind
    obtain ⟨t₂, hrun, _, hc⟩ := Machine.reaches_of_measure
      (fun t : Trial H => t.phase.rank cfg.queueKeys.length) hnearer hstart
    exact ⟨t₂, hrun, hc⟩
  · have hbudget := hwind.spend_run hs h₂
    have hle := hwind.rank_le hs
    rw [hkeys] at hle hbudget
    omega
  · have hwind₂ : Winding p₀.tasks.pollWorker p₂ :=
      (Machine.runs_of_run h₂).invariant (fun hw _ hstep => hw.step hstep) hwind
    obtain ⟨hc, hended, hlate⟩ := hwind₂.atRest hrest
    refine ⟨hc, hended, hlate, fun cfg' d ht => ?_⟩
    have hs₂ : p₂.hub.shutdown.borrow = true :=
      (Machine.runs_of_run h₂).invariant (P := fun q => q.hub.shutdown.borrow = true)
        (fun hq _ hstep => Phase.told_kept hstep hq) hs
    have hruns := h₁.trans (Machine.runs_of_run h₂)
    rcases hp with rfl | rfl
    · obtain ⟨e, he, hconc⟩ := concluded_amid hruns
      cases he.symm.trans ht
      exact hwind₂.drain_atRest he hs₂ (hconc _) hrest
    · have hpoll := hwind₂.kept.poll
      rw [ht] at hpoll
      cases congrArg PollWorker.targetJobs hpoll

end Phase

/-- A trial times out while its worker awaits an `LPOP`. -/
theorem phase_winds_down_timeout : ∃ (p₁ : Phase (List Nat)) (t₂ : Trial (List Nat)),
    p₁.workers.map Worker.pc = [.sent 0] ∧
    Machine.Runs (Trial.step (.envelopes []) Hdr.bucketed) ⟨twoJobs, p₁⟩ t₂ ∧
    t₂.phase.tasks.concluded = true := by
  let cfg : TrialConfig := ⟨queueKeys ["default"], 2, []⟩
  obtain ⟨p₁, h₁, hsent⟩ : ∃ p₁, Machine.Runs (Phase.stepAmid (.envelopes []) Hdr.bucketed)
      (runDrainTrial Hdr.bucketed cfg 1) p₁ ∧
      (p₁.workers.map Worker.pc == [.sent 0]) = true :=
    Machine.runs_any ([.worker 0 .start, .worker 0 .check, .worker 0 .issue, .drain .timeout,
      .drain .stopMonitor, .drain .shutdown].map (fun a => (twoJobs, a))) (by decide +kernel)
  obtain ⟨_, hresult, _⟩ := phase_winds_down
    (.inl (rfl : _ = runDrainTrial Hdr.bucketed cfg 1)) h₁
  obtain ⟨t₂, h₂, hc⟩ := hresult twoJobs
  exact ⟨p₁, t₂, beq_iff_eq.mp hsent, h₂, hc⟩

end ResqueBench
