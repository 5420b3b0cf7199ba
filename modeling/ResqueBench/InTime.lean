import ResqueBench.WindDown
import ResqueBench.DoneSignal
import ResqueBench.PriorityOrder

/-! Whether a trial can still return in time. As long as no job is lost, some schedule
without failures finds and counts every job that is left. -/

namespace ResqueBench

open Redis Threads

/-- The steps of a worker that neither fail nor drop anything. -/
def WorkerAct.sound : WorkerAct → Bool
  | .fail | .drop | .abort => false
  | _ => true

section Move

variable {serde : Serde} {pw : PollWorker} {s s' : Shared} {w w' : Worker} {a : WorkerAct}

theorem Move.lost_kept (h : Move serde pw s w a s' w') (ha : a.sound = true) :
    s'.hub.ledger.lost = s.hub.ledger.lost := by
  cases h <;> simp_all [WorkerAct.sound, failedLpop]

/-- Only at the loop head is there a step that leads a worker away from it. -/
theorem Move.nearer_top (h : Move serde pw s w a s' w') (ha : a.sound = true)
    (htop : w.pc ≠ .top) (ho : OpenScan pw.queueKeys.length w) :
    w'.rank pw.queueKeys.length < w.rank pw.queueKeys.length := by
  cases h with
  | enter hpc hb => exact absurd hpc htop
  | stop hpc hb => exact absurd hpc htop
  | _ =>
    simp_all [WorkerAct.sound, Worker.rank, OpenScan, failedLpop]
    try omega

/-- What a worker is like before the shutdown. -/
def Undisturbed (w : Worker) : Prop :=
  w.pc.isTerminal = false ∧ w.abortRequested = false ∧ w.seen = 0

theorem Move.undisturbed (h : Move serde pw s w a s' w') (ha : a ≠ .abort)
    (hs : s.hub.shutdown = Watch.channel false) (hw : Undisturbed w) : Undisturbed w' := by
  obtain ⟨hterm, habort, hseen⟩ := hw
  cases h with
  | abort => exact absurd rfl ha
  | stop hpc hb => simp [hs] at hb
  | notice hpc hc => simp [hs, hseen, Watch.changed, Watch.channel] at hc
  | dropSent | dropReplied | dropSpawned | dropSelect => simp_all
  | _ => exact ⟨rfl, habort, hseen⟩

/-- A worker short of its loop head has a sound step to take. -/
theorem PollWorker.sound_step (serde : Serde) (s : Shared) (ho : OpenScan pw.queueKeys.length w)
    (hw : w.pc.isTerminal = false) (htop : w.pc ≠ .top) :
    ∃ b s' w', b.sound = true ∧ pw.step serde s w b = some (s', w') := by
  have hsome : ∀ b, b.sound = true → (pw.step serde s w b).isSome = true →
      ∃ b s' w', b.sound = true ∧ pw.step serde s w b = some (s', w') := by
    intro b hb h
    obtain ⟨r, hr⟩ := Option.isSome_iff_exists.mp h
    exact ⟨b, r.1, r.2, hb, hr⟩
  cases hpc : w.pc with
  | spawned => exact hsome .start rfl (by simp [PollWorker.step, hpc])
  | top => exact absurd hpc htop
  | scan k =>
    by_cases hk : k < pw.queueKeys.length
    · exact hsome .issue rfl (by simp [PollWorker.step, hpc, hk])
    · exact hsome .miss rfl (by simp [PollWorker.step, hpc, hk])
  | sent k =>
    simp only [OpenScan, hpc] at ho
    refine hsome .exec rfl ?_
    rw [PollWorker.step_exec serde hpc (List.getElem?_eq_getElem ho.1)]
    rfl
  | replied k b => cases b <;> exact hsome .receive rfl (by simp [PollWorker.step, hpc])
  | hit e =>
    refine hsome (.record none) rfl ?_
    simp only [PollWorker.step, hpc]
    split <;> rfl
  | recorded e => exact hsome .count rfl (by simp [PollWorker.step, hpc])
  | counted done =>
    refine hsome .signal rfl ?_
    simp only [PollWorker.step, hpc]
    split
    · split <;> rfl
    · rfl
  | select => exact hsome .wake rfl (by simp [PollWorker.step, hpc])
  | returned => simp [hpc, Pc.isTerminal] at hw
  | dropped b => simp [hpc, Pc.isTerminal] at hw

/-- A worker on its way from a scan to its next loop head, with jobs ahead of it: it
finds one of them, whatever it has passed. -/
def Hunts (keys : List String) (found : Nat) (s : Shared) (w : Worker) : Prop :=
  match w.pc with
  | .scan k | .sent k => s.hub.metrics.completed = found ∧ EmptyBelow keys s.db k ∧
      ∃ key ∈ keys, listAt s.db key ≠ []
  | .replied k b => s.hub.metrics.completed = found ∧
      (b.jobs = [] → EmptyBelow keys s.db (k + 1) ∧ ∃ key ∈ keys, listAt s.db key ≠ [])
  | .hit _ | .recorded _ => s.hub.metrics.completed = found
  | .counted _ | .top => s.hub.metrics.completed = found + 1
  | _ => False

theorem Move.hunts {found : Nat} (h : Move serde pw s w a s' w') (ha : a.sound = true)
    (htop : w.pc ≠ .top) (hw : Hunts pw.queueKeys found s w) : Hunts pw.queueKeys found s' w' := by
  cases h with
  | start hpc => simp [Hunts, hpc] at hw
  | stop hpc hb => exact absurd hpc htop
  | enter hpc hb => exact absurd hpc htop
  | issue k hpc hk => simpa [Hunts, hpc, Metrics.incPoll] using hw
  | pop k key e rest hpc hk hl hdb =>
    simp only [Hunts, hpc] at hw
    exact ⟨hw.1, by simp [Answer.jobs]⟩
  | empty k key b hpc hk hl hb =>
    simp only [Hunts, hpc] at hw
    exact ⟨hw.1, fun _ => ⟨hw.2.1.succ hk hl, hw.2.2⟩⟩
  | failSent | failReplied => simp [WorkerAct.sound] at ha
  | payload k e hpc =>
    simp only [Hunts, hpc] at hw
    exact hw.1
  | nil k hpc =>
    simp only [Hunts, hpc] at hw
    exact ⟨hw.1, hw.2 rfl⟩
  | error k hpc =>
    simp only [Hunts, hpc] at hw
    exact ⟨hw.1, hw.2 rfl⟩
  | miss k hpc hk =>
    -- all keys passed and all empty, yet one of them holds a job
    simp only [Hunts, hpc] at hw
    obtain ⟨_, hbelow, key, hkey, hne⟩ := hw
    obtain ⟨j, hj, rfl⟩ := List.mem_iff_getElem.mp hkey
    exact absurd (hbelow j (by omega) _ (List.getElem?_eq_getElem hj)) hne
  | record clock e sample hpc hr => simpa [Hunts, hpc] using hw
  | reject clock e hpc hr => simpa [Hunts, hpc, Metrics.incError] using hw
  | count e hpc => simpa [Hunts, hpc, Metrics.incCompleted] using hw
  | signal done target hpc ht hd => simpa [Hunts, hpc] using hw
  | below done hpc ht => simpa [Hunts, hpc] using hw
  | wake hpc => simp [Hunts, hpc] at hw
  | notice hpc => simp [Hunts, hpc] at hw
  | abort => simp [WorkerAct.sound] at ha
  | dropSent | dropReplied | dropSpawned | dropSelect => simp [WorkerAct.sound] at ha

end Move

section Trial

variable {H : Type} {serde : Serde} {hdr : Hdr H} {cfg : TrialConfig} {db₀ : Db Entry}
  {nWorkers : Nat} {t t' : Trial H}

theorem Trial.step_worker {i : Nat} {w w' : Worker} {b : WorkerAct} {s' : Shared}
    (hdr : Hdr H) (hb : b ≠ .abort) (hw : t.phase.workers[i]? = some w)
    (h : t.phase.tasks.pollWorker.step serde t.fleet.shared w b = some (s', w')) :
    t.step serde hdr (.worker i b) =
      some ⟨s'.db, ⟨s'.hub, t.phase.workers.set i w', t.phase.tasks⟩⟩ := by
  have hf : t.phase.tasks.pollWorker.step serde ⟨t.db, t.phase.hub⟩ w b = some (s', w') := h
  simp [Trial.step, Phase.step, hb, Phase.apply, Fleet.step, Phase.fleet, Threads.stepAt, hw, hf]

/-- A drain trial that waits for the done flag and has lost no job. -/
structure Waiting (serde : Serde) (hdr : Hdr H) (cfg : TrialConfig) (nWorkers : Nat)
    (db₀ : Db Entry) (t : Trial H) : Prop where
  runs : Machine.Runs (Trial.step serde hdr) ⟨db₀, runDrainTrial hdr cfg nWorkers⟩ t
  waiting : ∃ d, t.phase.tasks = .drain cfg d ∧ d.orch = .waiting
  kept : t.phase.hub.ledger.lost = []

theorem Waiting.pollWorker (h : Waiting serde hdr cfg nWorkers db₀ t) :
    t.phase.tasks.pollWorker = ⟨some cfg.jobs, cfg.queueKeys⟩ := by
  obtain ⟨d, hd, _⟩ := h.waiting
  rw [hd]
  rfl

theorem Waiting.openScan (h : Waiting serde hdr cfg nWorkers db₀ t) {w : Worker}
    (hw : w ∈ t.phase.workers) : OpenScan cfg.queueKeys.length w :=
  (scanned_amid (runDrainTrial_fleet hdr cfg nWorkers) (Trial.amid_of_reach h.runs) t.db).workers w hw

theorem Waiting.length_workers (h : Waiting serde hdr cfg nWorkers db₀ t) :
    t.phase.workers.length = nWorkers :=
  (fleet_invariant (P := fun f => f.workers.length = nWorkers)
    (fun hf hm _ => hm.length_workers.trans hf) h.runs (by
      simp [Trial.fleet, Phase.fleet, runDrainTrial])).2

/-- Nobody stops a worker before the wait has ended. -/
theorem Waiting.undisturbed (h : Waiting serde hdr cfg nWorkers db₀ t) :
    t.phase.hub.shutdown = Watch.channel false ∧ ∀ w ∈ t.phase.workers, Undisturbed w := by
  let P : Fleet → DrainTasks H → Prop := fun f d => 2 < d.orch.rank →
    f.shared.hub.shutdown = Watch.channel false ∧ ∀ w ∈ f.workers, Undisturbed w
  have hfleet : ∀ {f f' d act}, P f d →
      FleetMove serde ⟨some cfg.jobs, cfg.queueKeys⟩ f act f' → act.own → P f' d := by
    intro f f' d act hp hm hown hr
    obtain ⟨hs, hall⟩ := hp hr
    cases hm with
    | worker i b v v' s' hv hm =>
      refine ⟨hm.shutdown.trans hs, forall_set hall ?_⟩
      exact hm.undisturbed hown hs (hall v (List.mem_of_getElem? hv))
    | latePop | lateEmpty => exact ⟨hs, hall⟩
    | shutdown => exact hown.elim
    | recv => exact hown.elim
  have hdrain : ∀ {f f' d d' a act}, P f d → DrainMove hdr cfg f d a act d' →
      FleetStutter serde ⟨some cfg.jobs, cfg.queueKeys⟩ f act f' → P f' d' := by
    intro f f' d d' a act hp hm hf hr
    cases hm with
    | recv sample rest hl he =>
      have hf : FleetMove serde ⟨some cfg.jobs, cfg.queueKeys⟩ f .recv f' := hf
      cases hf with
      | recv => exact hp hr
    | shutdown timedOut ho => simp [Orchestrator.rank] at hr
    | grace i timedOut ho => simp [ho, Orchestrator.rank] at hr
    | joined | readOut => simp [Orchestrator.rank] at hr
    | noWait ho | doneSeen ho | timeout ho =>
      obtain rfl : f' = f := hf
      exact hp (by simp [ho, Orchestrator.rank])
    | stopMonitor timedOut ho =>
      obtain rfl : f' = f := hf
      exact hp (by simp [ho, Orchestrator.rank])
    | _ =>
      obtain rfl : f' = f := hf
      exact hp hr
  obtain ⟨d, hd, ho⟩ := h.waiting
  obtain ⟨d', hd', hp⟩ := drain_invariant (P := P) hfleet hdrain h.runs rfl (fun _ =>
    ⟨rfl, fun v hv => by rw [(List.mem_replicate.mp hv).2]; exact ⟨rfl, rfl, rfl⟩⟩)
  cases hd.symm.trans hd'
  exact hp (by simp [ho, Orchestrator.rank])

theorem Waiting.step (h : Waiting serde hdr cfg nWorkers db₀ t) {i : Nat} {b : WorkerAct}
    (hb : b.sound = true) (hstep : t.step serde hdr (.worker i b) = some t') :
    Waiting serde hdr cfg nWorkers db₀ t' := by
  have hm := Trial.step_move hstep
  refine ⟨h.runs.trans (Machine.runs_step hstep), ?_, ?_⟩
  · generalize hdb : t'.db = db' at hm
    generalize hp : t'.phase = p' at hm
    cases hm with
    | worker i b f hb hf => simpa [hp] using h.waiting
  · obtain ⟨_, act, hf, hact, _⟩ := hm.fleet
    generalize hdb : t'.db = db' at hm
    generalize hp : t'.phase = p' at hm
    cases hm with
    | worker i b f hne hf =>
      cases hf with
      | worker i b w w' s' hw hm => exact (hm.lost_kept hb).trans h.kept

theorem Waiting.advance (h : Waiting serde hdr cfg nWorkers db₀ t) {i : Nat} {w : Worker}
    (hw : t.phase.workers[i]? = some w) (htop : w.pc ≠ .top) :
    ∃ b s' w', b.sound = true ∧
      Move serde ⟨some cfg.jobs, cfg.queueKeys⟩ t.fleet.shared w b s' w' ∧
      Waiting serde hdr cfg nWorkers db₀
        ⟨s'.db, ⟨s'.hub, t.phase.workers.set i w', t.phase.tasks⟩⟩ ∧
      Machine.Runs (Trial.step serde hdr) t
        ⟨s'.db, ⟨s'.hub, t.phase.workers.set i w', t.phase.tasks⟩⟩ ∧
      total (Worker.rank cfg.queueKeys.length) (t.phase.workers.set i w') <
        total (Worker.rank cfg.queueKeys.length) t.phase.workers := by
  have hmem := List.mem_of_getElem? hw
  have hlive := h.undisturbed.2 w hmem
  have hopen := h.openScan hmem
  have hsound : ∃ b s' w', b.sound = true ∧ PollWorker.step serde
      ⟨some cfg.jobs, cfg.queueKeys⟩ t.fleet.shared w b = some (s', w') :=
    PollWorker.sound_step serde _ hopen hlive.1 htop
  obtain ⟨b, s', w', hb, hstep⟩ := hsound
  have hm := PollWorker.step_move hstep
  have hne : b ≠ .abort := by
    rintro rfl
    cases hb
  have htaken := Trial.step_worker hdr hne hw (by rw [h.pollWorker]; exact hstep)
  have hrank : w'.rank cfg.queueKeys.length < w.rank cfg.queueKeys.length :=
    hm.nearer_top hb htop hopen
  have htotal := total_set (Worker.rank cfg.queueKeys.length) w' hw
  exact ⟨b, s', w', hb, hm, h.step hb htaken, Machine.runs_step htaken, by omega⟩

def Trial.Gathered (t : Trial H) : Prop := ∀ w ∈ t.phase.workers, w.pc = .top

theorem Waiting.gather (h : Waiting serde hdr cfg nWorkers db₀ t) :
    ∃ t', Machine.Runs (Trial.step serde hdr) t t' ∧ Waiting serde hdr cfg nWorkers db₀ t' ∧
      t'.Gathered := by
  refine Machine.reaches_of_measure
    (fun t => total (Worker.rank cfg.queueKeys.length) t.phase.workers) (fun u hu hg => ?_) h
  obtain ⟨w, hw, htop⟩ : ∃ w ∈ u.phase.workers, w.pc ≠ .top := by
    simpa [Trial.Gathered] using hg
  obtain ⟨i, hi⟩ := List.mem_iff_getElem?.mp hw
  obtain ⟨b, s', w', _, _, hwait, hruns, hlt⟩ := hu.advance hi htop
  exact ⟨_, hruns, hwait, hlt⟩

/-- The first worker is after a job and the others stand at their loop heads. -/
structure OnHunt (keys : List String) (found : Nat) (t : Trial H) : Prop where
  hunter : ∃ w, t.phase.workers[0]? = some w ∧ Hunts keys found t.fleet.shared w
  others : ∀ j w, j ≠ 0 → t.phase.workers[j]? = some w → w.pc = .top

theorem OnHunt.gathered {keys : List String} {found : Nat} (h : OnHunt keys found t)
    (htop : ∀ w, t.phase.workers[0]? = some w → w.pc = .top) : t.Gathered := by
  intro w hw
  obtain ⟨j, hj⟩ := List.mem_iff_getElem?.mp hw
  by_cases hz : j = 0
  · subst hz
    exact htop w hj
  · exact h.others j w hz hj

theorem OnHunt.caught {keys : List String} {found : Nat} (h : OnHunt keys found t)
    (hg : t.Gathered) : t.phase.hub.metrics.completed = found + 1 := by
  obtain ⟨w, hw, hhunts⟩ := h.hunter
  simpa [Hunts, hg w (List.mem_of_getElem? hw), Trial.fleet, Phase.fleet] using hhunts

theorem OnHunt.step {found : Nat} (hh : OnHunt cfg.queueKeys found t)
    (h : Waiting serde hdr cfg nWorkers db₀ t) (hg : ¬ t.Gathered) :
    ∃ t', Machine.Runs (Trial.step serde hdr) t t' ∧
      (Waiting serde hdr cfg nWorkers db₀ t' ∧ OnHunt cfg.queueKeys found t') ∧
      total (Worker.rank cfg.queueKeys.length) t'.phase.workers <
        total (Worker.rank cfg.queueKeys.length) t.phase.workers := by
  obtain ⟨w, hw, hhunts⟩ := hh.hunter
  have htop : w.pc ≠ .top := by
    intro htop
    refine hg (hh.gathered (fun v hv => ?_))
    rw [← Option.some.inj (hw.symm.trans hv)]
    exact htop
  obtain ⟨b, s', w', hb, hm, hwait, hruns, hlt⟩ := h.advance hw htop
  have hpos := (List.getElem?_eq_some_iff.mp hw).1
  refine ⟨_, hruns, ⟨hwait, ⟨w', by simp [hpos], hm.hunts hb htop hhunts⟩, fun j v hj hv => ?_⟩, hlt⟩
  exact hh.others j v hj (by simpa [Ne.symm hj] using hv)

/-- With a job queued and every worker at its loop head, one more job gets counted. -/
theorem Waiting.hunt (h : Waiting serde hdr cfg nWorkers db₀ t) (hg : t.Gathered)
    (hn : 0 < nWorkers) (hjob : ∃ key ∈ cfg.queueKeys, listAt t.db key ≠ []) :
    ∃ t', Machine.Runs (Trial.step serde hdr) t t' ∧
      (Waiting serde hdr cfg nWorkers db₀ t' ∧ t'.Gathered) ∧
      t'.phase.hub.metrics.completed = t.phase.hub.metrics.completed + 1 := by
  have hlen := h.length_workers
  obtain ⟨w, hw⟩ : ∃ w, t.phase.workers[0]? = some w :=
    ⟨_, List.getElem?_eq_getElem (by omega)⟩
  have htop := hg w (List.mem_of_getElem? hw)
  have hcheck : t.phase.tasks.pollWorker.step serde t.fleet.shared w .check =
      some (t.fleet.shared, { w with pc := .scan 0 }) := by
    have hs : t.fleet.shared.hub.shutdown.borrow = false :=
      (congrArg Watch.borrow h.undisturbed.1).trans (Watch.borrow_channel false)
    simp [PollWorker.step, htop, hs]
  have htaken := Trial.step_worker hdr (by simp) hw hcheck
  have hstart : OnHunt cfg.queueKeys t.phase.hub.metrics.completed
      (⟨t.db, ⟨t.phase.hub, t.phase.workers.set 0 { w with pc := .scan 0 }, t.phase.tasks⟩⟩ :
        Trial H) := by
    refine ⟨⟨{ w with pc := .scan 0 }, by simp [hlen, hn], rfl,
      fun j hj => absurd hj (Nat.not_lt_zero j), hjob⟩, fun j v hj hv => ?_⟩
    have hv' : t.phase.workers[j]? = some v := by simpa [Ne.symm hj] using hv
    exact hg v (List.mem_of_getElem? hv')
  obtain ⟨t', hruns, ⟨hwait, hhunt⟩, hdone⟩ := Machine.reaches_of_measure
    (P := fun u => Waiting serde hdr cfg nWorkers db₀ u ∧
      OnHunt cfg.queueKeys t.phase.hub.metrics.completed u)
    (fun u => total (Worker.rank cfg.queueKeys.length) u.phase.workers)
    (fun u hu hg => hu.2.step hu.1 hg) ⟨h.step rfl htaken, hstart⟩
  exact ⟨t', (Machine.runs_step htaken).trans hruns, ⟨hwait, hdone⟩, hhunt.caught hdone⟩

theorem FleetMove.lost_prefix {pw : PollWorker} {f f' : Fleet} {act : FleetAct}
    (h : FleetMove serde pw f act f') :
    f.shared.hub.ledger.lost <+: f'.shared.hub.ledger.lost := by
  cases h with
  | worker i a w w' s' hw hm => cases hm <;> simp [failedLpop, droppedTask]
  | latePop => simp
  | _ => exact List.prefix_rfl

theorem DrainMove.outcome_kept {f : Fleet} {d d' : DrainTasks H} {a : DrainAct}
    {act : Option FleetAct} {timedOut : Bool} (h : DrainMove hdr cfg f d a act d')
    (ho : d.orch.outcome = some timedOut) : d'.orch.outcome = some timedOut := by
  cases h <;> simp_all [Orchestrator.outcome, trialResult]

/-- A drain trial on its way to a result, with its outcome settled. -/
structure Settled (cfg : TrialConfig) (timedOut : Bool) (t : Trial H) : Prop where
  winding : Winding ⟨some cfg.jobs, cfg.queueKeys⟩ t.phase
  outcome : ∃ d, t.phase.tasks = .drain cfg d ∧ d.orch.outcome = some timedOut

theorem Settled.step {timedOut : Bool} {a : PhaseAct} (h : Settled cfg timedOut t)
    (hstep : t.step serde hdr a = some t') : Settled cfg timedOut t' := by
  refine ⟨h.winding.step (Trial.step_amid hstep), ?_⟩
  obtain ⟨d, hd, ho⟩ := h.outcome
  have hm := Trial.step_move hstep
  generalize t'.db = db' at hm
  generalize t'.phase = p' at hm
  cases hm with
  | worker | late => exact ⟨d, hd, ho⟩
  | drain cfg' e e' b act f ht hm hf =>
    cases ht.symm.trans hd
    exact ⟨e', rfl, hm.outcome_kept ho⟩
  | idle keys e e' b act f ht => cases ht.symm.trans hd

theorem Settled.returns {timedOut : Bool} (serde : Serde) (hdr : Hdr H)
    (h : Settled cfg timedOut t) : ∃ t' r, Machine.Runs (Trial.step serde hdr) t t' ∧
      t'.phase.tasks.returned = some r ∧ r.timedOut = timedOut := by
  obtain ⟨t', hruns, hset, hc⟩ := Machine.reaches_of_measure
    (fun u : Trial H => u.phase.rank cfg.queueKeys.length)
    (fun u (hu : Settled cfg timedOut u) (hc : ¬ u.phase.tasks.concluded = true) => by
      obtain ⟨a, p', _, hstep, hlt⟩ := hu.winding.progress serde hdr u.db
        (Bool.eq_false_iff.mpr hc)
      obtain ⟨r, hr, rfl⟩ := Option.map_eq_some_iff.mp hstep
      have htaken : u.step serde hdr a = some ⟨r.1, r.2⟩ :=
        Option.map_eq_some_iff.mpr ⟨r, hr, rfl⟩
      exact ⟨⟨r.1, r.2⟩, Machine.runs_step htaken, hu.step htaken, hlt⟩) h
  obtain ⟨d, hd, ho⟩ := hset.outcome
  have hfin : ∃ r, d.orch = .finished r := by
    rw [hd] at hc
    simpa [Tasks.concluded, Tasks.idleReturned, Option.isSome_iff_exists,
      Tasks.returned_drain] using hc
  obtain ⟨r, hr⟩ := hfin
  refine ⟨t', r, hruns, by rw [hd]; exact Tasks.returned_drain.mpr hr, ?_⟩
  simpa [hr, Orchestrator.outcome] using ho

end Trial

section Filled

variable {H : Type} {serde : Serde} {hdr : Hdr H} {clock : Nat → Option Nat}
  {trial nJobs nWorkers : Nat} {queues : List String} {specs : List PercentileSpec}
  {db₀ : Db Entry} {t : Trial H}

/-- Every worker at its loop head and no job lost, the missing ones are all queued. -/
theorem Waiting.queued_of_gathered (hn : 0 < nJobs) (hnd : queues.Nodup) (hne : queues ≠ [])
    (hfill : Filled serde clock trial queues nJobs db₀)
    (h : Waiting serde hdr ⟨queueKeys queues, nJobs, specs⟩ nWorkers db₀ t) (hg : t.Gathered)
    (hd : ¬ t.phase.hub.done.borrow = true) :
    t.phase.hub.metrics.completed < nJobs ∧ ∃ key ∈ queueKeys queues, listAt t.db key ≠ [] := by
  have hlt : t.phase.hub.metrics.completed < nJobs := by
    by_contra hge
    rcases (doneFlag_of_runs ⟨queueKeys queues, nJobs, specs⟩ hn h.runs).kept
      (Nat.not_lt.mp hge) with hset | ⟨i, w, done, hw, hpc, _⟩
    · exact hd hset
    · have htop := hg w (List.mem_of_getElem? hw)
      rw [hpc] at htop
      cases htop
  have hsum := jobs_add_up (runDrainTrial_conserved hnd h.runs) hfill hnd hne
  have hheld : uncounted t.phase.workers = 0 :=
    (total_eq_zero_iff _ _).mpr (fun w hw => by simp [heldBy, hg w hw])
  have hlost := congrArg List.length h.kept
  simp only [Trial.fleet, Phase.fleet, List.length_nil] at hsum hlost
  refine ⟨hlt, ?_⟩
  by_contra hempty
  have hzero : remaining (queueKeys queues) t.db = 0 :=
    remaining_eq_zero_iff.mpr (fun key hkey => by
      by_contra hkept
      exact hempty ⟨key, hkey, hkept⟩)
  omega

theorem Waiting.finds_all (hn : 0 < nJobs) (hnd : queues.Nodup) (hne : queues ≠ [])
    (hfill : Filled serde clock trial queues nJobs db₀) (hw : 0 < nWorkers)
    (h : Waiting serde hdr ⟨queueKeys queues, nJobs, specs⟩ nWorkers db₀ t) :
    ∃ t', Machine.Runs (Trial.step serde hdr) t t' ∧
      Waiting serde hdr ⟨queueKeys queues, nJobs, specs⟩ nWorkers db₀ t' ∧
      t'.phase.hub.done.borrow = true := by
  obtain ⟨u, hu, hwait, hg⟩ := h.gather
  obtain ⟨t', ht', hwait', hdone⟩ := Machine.reaches_of_measure
    (P := fun u => Waiting serde hdr ⟨queueKeys queues, nJobs, specs⟩ nWorkers db₀ u ∧ u.Gathered)
    (fun u => nJobs - u.phase.hub.metrics.completed) (fun u hu hd => by
      obtain ⟨hlt, hjob⟩ := hu.1.queued_of_gathered hn hnd hne hfill hu.2 hd
      obtain ⟨v, hv, hkept, hcount⟩ := hu.1.hunt hu.2 hw hjob
      exact ⟨v, hv, hkept, by omega⟩) ⟨hwait, hg⟩
  exact ⟨t', hu.trans ht', hwait'.1, hdone⟩

theorem Waiting.settles {cfg : TrialConfig} (hn : 0 < cfg.jobs)
    (h : Waiting serde hdr cfg nWorkers db₀ t) (hd : t.phase.hub.done.borrow = true) :
    ∃ t', Machine.Runs (Trial.step serde hdr) t t' ∧ Settled cfg false t' := by
  obtain ⟨d, ht, ho⟩ := h.waiting
  have hstep : t.step serde hdr (.drain .doneSeen) =
      some ⟨t.db, { t.phase with tasks := .drain cfg { d with orch := .waited false } }⟩ := by
    have hf : (t.phase.fleet t.db).shared.hub.done.borrow = true := hd
    simp [Trial.step, Phase.step, ht, DrainTasks.step, ho, hf, Nat.pos_iff_ne_zero.mp hn,
      Phase.apply]
  have hwind : Winding ⟨some cfg.jobs, cfg.queueKeys⟩ t.phase :=
    h.runs.invariant (P := fun u : Trial H => Winding ⟨some cfg.jobs, cfg.queueKeys⟩ u.phase)
      (fun hu _ hs => hu.step (Trial.step_amid hs)) (.new (.inl rfl))
  exact ⟨_, Machine.runs_step hstep, hwind.step (Trial.step_amid hstep), _, rfl, rfl⟩

theorem completed_zero_of_no_workers {cfg : TrialConfig}
    (h : Machine.Runs (Trial.step serde hdr) ⟨db₀, runDrainTrial hdr cfg 0⟩ t) :
    t.phase.hub.metrics.completed = 0 := by
  refine (fleet_invariant (P := fun f => f.workers = [] ∧ f.shared.hub.metrics.completed = 0)
    (fun hf hm _ => ?_) h ⟨rfl, rfl⟩).2.2
  cases hm with
  | worker i a w w' s' hw hm => simp [hf.1] at hw
  | _ => exact hf

theorem Waiting.returns_in_time (hn : 0 < nJobs) (hnd : queues.Nodup) (hne : queues ≠ [])
    (hfill : Filled serde clock trial queues nJobs db₀) (hw : 0 < nWorkers)
    (h : Waiting serde hdr ⟨queueKeys queues, nJobs, specs⟩ nWorkers db₀ t) :
    ∃ t' r, Machine.Runs (Trial.step serde hdr) t t' ∧ t'.phase.tasks.returned = some r ∧
      r.timedOut = false := by
  obtain ⟨u, hu, hwait, hdone⟩ := h.finds_all hn hnd hne hfill hw
  obtain ⟨v, hv, hset⟩ := hwait.settles hn hdone
  obtain ⟨t', r, hruns, hr, hin⟩ := hset.returns serde hdr
  exact ⟨t', r, hu.trans (hv.trans hruns), hr, hin⟩

/-- While a trial waits, it can still return in time if and only if it has workers and
none of its jobs is lost: then a schedule without further failures counts all jobs. A
trial without workers, and one that has lost a job, can only time out. -/
theorem returns_in_time_iff (hn : 0 < nJobs) (hnd : queues.Nodup) (hne : queues ≠ [])
    (hfill : Filled serde clock trial queues nJobs db₀)
    (h : Machine.Runs (Trial.step serde hdr)
      ⟨db₀, runDrainTrial hdr ⟨queueKeys queues, nJobs, specs⟩ nWorkers⟩ t)
    {d : DrainTasks H} (ht : t.phase.tasks = .drain ⟨queueKeys queues, nJobs, specs⟩ d)
    (ho : d.orch = .waiting) :
    (∃ t' r, Machine.Runs (Trial.step serde hdr) t t' ∧ t'.phase.tasks.returned = some r ∧
      r.timedOut = false) ↔ 0 < nWorkers ∧ t.phase.hub.ledger.lost = [] := by
  constructor
  · rintro ⟨t', r, hruns, hr, hin⟩
    obtain ⟨e, he, hconc⟩ := concluded_of_runs (h.trans hruns)
    rw [he, Tasks.returned_drain] at hr
    have hset := (hconc.settled (by simp [Orchestrator.outcome, hr, hin])).resolve_left
      (Nat.pos_iff_ne_zero.mp hn)
    obtain ⟨hcompleted, _, hlost⟩ := drained_of_done hn hnd hne hfill (h.trans hruns) hset
    refine ⟨?_, ?_⟩
    · by_contra hzero
      obtain rfl : nWorkers = 0 := by omega
      have hnone := completed_zero_of_no_workers (h.trans hruns)
      omega
    · have hprefix : t.phase.hub.ledger.lost <+: t'.phase.hub.ledger.lost :=
        (fleet_invariant (P := fun f => t.phase.hub.ledger.lost <+: f.shared.hub.ledger.lost)
          (fun hf hm _ => hf.trans hm.lost_prefix) hruns List.prefix_rfl).2
      rw [hlost] at hprefix
      exact List.prefix_nil.mp hprefix
  · rintro ⟨hw, hlost⟩
    exact (Waiting.mk h ⟨d, ht, ho⟩ hlost).returns_in_time hn hnd hne hfill hw

end Filled

/-- The server hands out a job whose reply is lost: the trial can only time out. -/
theorem returns_in_time_iff_lost : ∃ t : Trial (List Nat),
    t.phase.hub.ledger.lost.map Entry.index = [0] ∧
    ∀ t' r, Machine.Runs (Trial.step (.envelopes [(0, 1000), (1, 1000)]) Hdr.bucketed) t t' →
      t'.phase.tasks.returned = some r → r.timedOut = true := by
  let cfg : TrialConfig := ⟨queueKeys ["default"], 2, []⟩
  obtain ⟨t, hrun, hlost, hwait⟩ : ∃ t : Trial (List Nat),
      Machine.Runs (Trial.step (.envelopes [(0, 1000), (1, 1000)]) Hdr.bucketed)
        ⟨twoJobs, runDrainTrial Hdr.bucketed cfg 1⟩ t ∧
      t.phase.hub.ledger.lost.map Entry.index = [0] ∧
      t.phase.tasks.drainTasks.map (fun d => d.orch.rank) = some 5 :=
    ⟨_, Machine.runs_get [.worker 0 .start, .worker 0 .check, .worker 0 .issue, .worker 0 .exec,
      .worker 0 .fail] (by decide +kernel), by decide +kernel⟩
  obtain ⟨d, hd, _⟩ := concluded_of_runs hrun
  have ho : d.orch = .waiting := by
    rw [hd] at hwait
    have hrank : d.orch.rank = 5 := by simpa [Tasks.drainTasks] using hwait
    cases horch : d.orch <;> simp [horch, Orchestrator.rank] at hrank ⊢
  have hiff := returns_in_time_iff (by decide) (by decide) (by decide) twoJobs_filled hrun hd ho
  refine ⟨t, hlost, fun t' r hruns hr => ?_⟩
  by_contra hin
  have hnone := (hiff.mp ⟨t', r, hruns, hr, Bool.eq_false_iff.mpr hin⟩).2
  rw [hnone] at hlost
  cases hlost

end ResqueBench
