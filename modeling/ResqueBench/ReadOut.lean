import ResqueBench.TrialRuns

/-! The read-out of a drain trial. The collector ends only when every sender is
dropped, and a worker that dropped its sender changes no counter any more. -/

namespace ResqueBench

open Redis

/-- What a fleet without live workers leaves alone. -/
structure Frozen (f f' : Fleet) : Prop where
  metrics : f'.shared.hub.metrics = f.shared.hub.metrics
  sent : f'.shared.hub.ledger.sent = f.shared.hub.ledger.sent
  rejected : f'.shared.hub.ledger.rejected = f.shared.hub.ledger.rejected
  counted : f'.shared.hub.ledger.counted = f.shared.hub.ledger.counted
  workers : ∀ w ∈ f'.workers, w.pc.isTerminal = true
  latency : f.shared.hub.latency = [] → f'.shared.hub.latency = []

theorem FleetMove.frozen {serde : Serde} {pw : PollWorker} {f f' : Fleet} {a : FleetAct}
    (h : FleetMove serde pw f a f') (ht : ∀ w ∈ f.workers, w.pc.isTerminal = true) :
    Frozen f f' := by
  cases h with
  | worker i a w w' s' hw hm =>
    have hwt := ht w (List.mem_of_getElem? hw)
    obtain ⟨_, rfl, hpc⟩ := hm.terminal hwt
    exact ⟨rfl, rfl, rfl, rfl, Threads.forall_set ht (by rw [hpc]; exact hwt), id⟩
  | latePop j k key e rest hj hk hl hdb => exact ⟨rfl, rfl, rfl, rfl, ht, id⟩
  | lateEmpty j k key hj hk hl => exact ⟨rfl, rfl, rfl, rfl, ht, id⟩
  | shutdown => exact ⟨rfl, rfl, rfl, rfl, ht, id⟩
  | recv sample rest hl => exact ⟨rfl, rfl, rfl, rfl, ht, fun h => by simp [hl] at h⟩

theorem FleetMove.done_kept {serde : Serde} {pw : PollWorker} {f f' : Fleet} {a : FleetAct}
    (h : FleetMove serde pw f a f') (hd : f.shared.hub.done.borrow = true) :
    f'.shared.hub.done.borrow = true := by
  cases h with
  | worker i a w w' s' hw hm => cases hm <;> simp [failedLpop, droppedTask, hd]
  | _ => exact hd

/-- Whether the wait ended in the timeout, once it has ended. -/
def Orchestrator.outcome : Orchestrator → Option Bool
  | .waiting => none
  | .waited timedOut | .stopping timedOut | .joining timedOut | .collecting timedOut =>
    some timedOut
  | .finished result => some result.timedOut

theorem Tasks.returned_drain {H : Type} {cfg : TrialConfig} {d : DrainTasks H} {r : TrialResult} :
    (Tasks.drain cfg d).returned = some r ↔ d.orch = .finished r := by
  cases ho : d.orch <;> simp [Tasks.returned, Tasks.drainTasks, ho]

structure Concluded {H : Type} (hdr : Hdr H) (cfg : TrialConfig) (f : Fleet)
    (d : DrainTasks H) : Prop where
  settled : d.orch.outcome = some false → cfg.jobs = 0 ∨ f.shared.hub.done.borrow = true
  ended : d.collector.ended = true →
    (∀ w ∈ f.workers, w.pc.isTerminal = true) ∧ f.shared.hub.latency = []
  finished : ∀ r, d.orch = .finished r → d.collector.ended = true ∧
    r.totalJobs = f.shared.hub.metrics.completed ∧ r.errors = f.shared.hub.metrics.errors ∧
    r.latency = .fromHistogram hdr d.collector.hist

theorem Concluded.fleet {H : Type} {serde : Serde} {pw : PollWorker} {hdr : Hdr H}
    {cfg : TrialConfig} {f f' : Fleet} {d : DrainTasks H} {act : FleetAct}
    (h : Concluded hdr cfg f d) (hm : FleetMove serde pw f act f') : Concluded hdr cfg f' d where
  settled ho := (h.settled ho).imp id hm.done_kept
  ended he := by
    have hf := hm.frozen (h.ended he).1
    exact ⟨hf.workers, hf.latency (h.ended he).2⟩
  finished r ho := by
    obtain ⟨he, hj, herr, hl⟩ := h.finished r ho
    have hf := hm.frozen (h.ended he).1
    exact ⟨he, by rw [hj, hf.metrics], by rw [herr, hf.metrics], hl⟩

theorem Concluded.drain {H : Type} {serde : Serde} {hdr : Hdr H} {cfg : TrialConfig}
    {pw : PollWorker} {f f' : Fleet} {d d' : DrainTasks H} {a : DrainAct} {act : Option FleetAct}
    (h : Concluded hdr cfg f d) (hm : DrainMove hdr cfg f d a act d')
    (hf : FleetStutter serde pw f act f') : Concluded hdr cfg f' d' := by
  cases hm with
  | recv sample rest hl he =>
    have hf' : Concluded hdr cfg f' d := h.fleet hf
    refine ⟨hf'.settled, hf'.ended, fun r ho => ?_⟩
    rw [(h.finished r ho).1] at he
    cases he
  | shutdown timedOut ho =>
    have hf' : Concluded hdr cfg f' d := h.fleet hf
    refine ⟨fun hs => hf'.settled (by simpa [Orchestrator.outcome, ho] using hs), hf'.ended,
      fun r hr => by cases hr⟩
  | grace i timedOut ho => exact h.fleet hf
  | serve tick rest hr he =>
    obtain rfl : f' = f := hf
    refine ⟨h.settled, fun he' => ?_, fun r ho => ?_⟩
    · simp only [Collector.snapshot, he] at he'
      cases he'
    · rw [(h.finished r ho).1] at he
      cases he
  | collectorEnd hl hw he =>
    obtain rfl : f' = f := hf
    exact ⟨h.settled, fun _ => ⟨hw, hl⟩, fun r ho => ⟨rfl, (h.finished r ho).2⟩⟩
  | doneSeen ho hj hd =>
    obtain rfl : f' = f := hf
    exact ⟨fun _ => .inr hd, h.ended, fun r hr => by cases hr⟩
  | noWait ho hj =>
    obtain rfl : f' = f := hf
    exact ⟨fun _ => .inl hj, h.ended, fun r hr => by cases hr⟩
  | timeout ho hj =>
    obtain rfl : f' = f := hf
    exact ⟨fun hs => by simp [Orchestrator.outcome] at hs, h.ended, fun r hr => by cases hr⟩
  | stopMonitor timedOut ho =>
    obtain rfl : f' = f := hf
    exact ⟨fun hs => h.settled (by simpa [Orchestrator.outcome, ho] using hs), h.ended,
      fun r hr => by cases hr⟩
  | joined timedOut ho hw =>
    obtain rfl : f' = f := hf
    exact ⟨fun hs => h.settled (by simpa [Orchestrator.outcome, ho] using hs), h.ended,
      fun r hr => by cases hr⟩
  | readOut elapsed timedOut ho he =>
    obtain rfl : f' = f := hf
    refine ⟨fun hs => h.settled (by simpa [Orchestrator.outcome, ho, trialResult] using hs), h.ended,
      fun r hr => ?_⟩
    cases hr
    exact ⟨he, rfl, rfl, rfl⟩
  | _ =>
    -- the monitor's steps touch neither the orchestrator nor the collector
    obtain rfl : f' = f := hf
    exact ⟨h.settled, h.ended, h.finished⟩

theorem Concluded.new {H : Type} (hdr : Hdr H) (cfg : TrialConfig) (f : Fleet) :
    Concluded hdr cfg f (.new hdr) where
  settled ho := by simp [DrainTasks.new, Orchestrator.outcome] at ho
  ended he := by simp [DrainTasks.new, Collector.new] at he
  finished r ho := by simp [DrainTasks.new] at ho

theorem Concluded.anyDb {H : Type} {hdr : Hdr H} {cfg : TrialConfig} {f : Fleet}
    {d : DrainTasks H} (h : Concluded hdr cfg f d) (db : Db Entry) :
    Concluded hdr cfg ⟨⟨db, f.shared.hub⟩, f.workers⟩ d := ⟨h.settled, h.ended, h.finished⟩

theorem concluded_amid {H : Type} {serde : Serde} {hdr : Hdr H} {cfg : TrialConfig}
    {nWorkers : Nat} {p : Phase H}
    (h : Machine.Runs (Phase.stepAmid serde hdr) (runDrainTrial hdr cfg nWorkers) p) :
    ∃ d, p.tasks = .drain cfg d ∧ ∀ db, Concluded hdr cfg (p.fleet db) d := by
  refine h.invariant (P := fun p => ∃ d, p.tasks = .drain cfg d ∧
    ∀ db, Concluded hdr cfg (p.fleet db) d) (fun {q y q'} hq _ hstep => ?_)
    ⟨_, rfl, fun db => .new hdr cfg _⟩
  obtain ⟨d, hd, hc⟩ := hq
  obtain ⟨db', hm⟩ := Phase.stepAmid_move hstep
  generalize y.2 = b at hm
  cases hm with
  | worker i b f hb hf => exact ⟨d, hd, ((hc y.1).fleet hf).anyDb⟩
  | late j f hf => exact ⟨d, hd, ((hc y.1).fleet hf).anyDb⟩
  | drain cfg' e e' b act f ht hm hf =>
    cases ht.symm.trans hd
    exact ⟨e', rfl, ((hc y.1).drain hm hf).anyDb⟩
  | idle keys t t' b act f ht hm hf => cases ht.symm.trans hd

theorem concluded_of_runs {H : Type} {serde : Serde} {hdr : Hdr H} {cfg : TrialConfig}
    {db₀ : Db Entry} {nWorkers : Nat} {t : Trial H}
    (h : Machine.Runs (Trial.step serde hdr) ⟨db₀, runDrainTrial hdr cfg nWorkers⟩ t) :
    ∃ d, t.phase.tasks = .drain cfg d ∧ Concluded hdr cfg t.fleet d := by
  obtain ⟨d, hd, hc⟩ := concluded_amid (Trial.amid_of_reach h)
  exact ⟨d, hd, hc t.db⟩

/-- A whole trial: one worker drains two jobs, the second decoded at `nowNs`. -/
def drainTwoJobs (nowNs : Nat) : List PhaseAct :=
  [.worker 0 .start, .worker 0 .check, .worker 0 .issue, .worker 0 .exec, .worker 0 .receive,
    .worker 0 (.record (some 5000)), .worker 0 .count, .worker 0 .signal, .worker 0 .check,
    .worker 0 .issue, .worker 0 .exec, .worker 0 .receive, .worker 0 (.record (some nowNs)),
    .worker 0 .count, .worker 0 .signal, .drain .doneSeen, .drain .stopMonitor, .drain .shutdown,
    .worker 0 .check, .drain .recv, .drain .recv, .drain .collectorEnd, .drain .joined,
    .drain (.readOut 1)]

end ResqueBench
