import ResqueBench.ReadOut

/-! The counter ledger. A scan visits the keys in order and ends at its first
payload. Every poll, error and completion is answered for by one reply. -/

namespace ResqueBench

open Redis Threads

/-- The first `k` keys, none of which gave a payload. -/
def Misses (k : Nat) (scan : List (Nat × Answer)) : Prop :=
  scan.map Prod.fst = List.range k ∧ ∀ p ∈ scan, p.2.jobs = []

theorem Misses.length {k : Nat} {scan : List (Nat × Answer)} (h : Misses k scan) :
    scan.length = k := by
  simpa using congrArg List.length h.1

theorem Misses.concat {k : Nat} {scan : List (Nat × Answer)} {a : Answer} (h : Misses k scan)
    (ha : a.jobs = []) : Misses (k + 1) (scan ++ [(k, a)]) := by
  refine ⟨by simp [h.1, List.range_succ], fun p hp => ?_⟩
  rcases List.mem_append.mp hp with hp | hp
  · exact h.2 p hp
  · rw [List.mem_singleton.mp hp]
    exact ha

/-- A finished scan hit one key after missing all before it, or missed them all. -/
def FinishedScan (nKeys : Nat) (scan : List (Nat × Answer)) : Prop :=
  (∃ k < nKeys, ∃ e pre, scan = pre ++ [(k, .payload e)] ∧ Misses k pre) ∨ Misses nKeys scan

theorem FinishedScan.cost {nKeys : Nat} {scan : List (Nat × Answer)} (h : FinishedScan nKeys scan) :
    (∃ k < nKeys, ∃ e, scan.getLast? = some (k, .payload e) ∧ scan.length = k + 1) ∨
      scan.length = nKeys := by
  rcases h with ⟨k, hk, e, pre, rfl, hm⟩ | hm
  · exact .inl ⟨k, hk, e, by simp, by simp [hm.length]⟩
  · exact .inr hm.length

def OpenScan (nKeys : Nat) (w : Worker) : Prop :=
  match w.pc with
  | .scan k => k ≤ nKeys ∧ Misses k w.scan
  | .sent k | .replied k _ => k < nKeys ∧ Misses k w.scan
  | .dropped _ => True
  | _ => w.scan = []

structure Scanned (nKeys : Nat) (f : Fleet) : Prop where
  workers : ∀ w ∈ f.workers, OpenScan nKeys w
  finished : ∀ scan ∈ f.shared.hub.ledger.scans, FinishedScan nKeys scan

theorem Move.openScan {serde : Serde} {pw : PollWorker} {s s' : Shared} {w w' : Worker}
    {a : WorkerAct} (h : Move serde pw s w a s' w') (ho : OpenScan pw.queueKeys.length w)
    (hf : ∀ scan ∈ s.hub.ledger.scans, FinishedScan pw.queueKeys.length scan) :
    OpenScan pw.queueKeys.length w' ∧
      ∀ scan ∈ s'.hub.ledger.scans, FinishedScan pw.queueKeys.length scan := by
  have hadd : ∀ {scan}, FinishedScan pw.queueKeys.length scan →
      ∀ scan' ∈ s.hub.ledger.scans ++ [scan], FinishedScan pw.queueKeys.length scan' := by
    intro scan hs scan' hm
    rcases List.mem_append.mp hm with hm | hm
    · exact hf scan' hm
    · rw [List.mem_singleton.mp hm]
      exact hs
  cases h with
  | enter hpc hs =>
    simp only [OpenScan, hpc] at ho
    exact ⟨⟨Nat.zero_le _, by simp [ho, Misses]⟩, hf⟩
  | issue k hpc hk =>
    simp only [OpenScan, hpc] at ho
    exact ⟨⟨hk, ho.2⟩, hf⟩
  | pop k key e rest hpc hk hl hdb =>
    simp only [OpenScan, hpc] at ho
    exact ⟨ho, hf⟩
  | empty k key b hpc hk hl hb =>
    simp only [OpenScan, hpc] at ho
    exact ⟨ho, hf⟩
  | failSent k hpc =>
    simp only [OpenScan, hpc] at ho
    exact ⟨⟨ho.1, ho.2.concat rfl⟩, hf⟩
  | failReplied k b hpc =>
    simp only [OpenScan, hpc] at ho
    exact ⟨⟨ho.1, ho.2.concat rfl⟩, hf⟩
  | payload k e hpc =>
    simp only [OpenScan, hpc] at ho
    exact ⟨rfl, hadd (.inl ⟨k, ho.1, e, w.scan, rfl, ho.2⟩)⟩
  | nil k hpc =>
    simp only [OpenScan, hpc] at ho
    exact ⟨⟨ho.1, ho.2.concat rfl⟩, hf⟩
  | error k hpc =>
    simp only [OpenScan, hpc] at ho
    exact ⟨⟨ho.1, ho.2.concat rfl⟩, hf⟩
  | miss k hpc hk =>
    simp only [OpenScan, hpc] at ho
    obtain rfl : k = pw.queueKeys.length := by omega
    exact ⟨rfl, hadd (.inr ho.2)⟩
  | abort => exact ⟨ho, hf⟩
  | dropSent k hpc ha => exact ⟨trivial, hf⟩
  | dropReplied k b hpc ha => exact ⟨trivial, hf⟩
  | dropSpawned hpc ha => exact ⟨trivial, hf⟩
  | dropSelect hpc ha => exact ⟨trivial, hf⟩
  | _ =>
    -- outside a scan the log is empty and stays so
    simp only [OpenScan, *] at ho
    exact ⟨ho, hf⟩

theorem Scanned.step {serde : Serde} {pw : PollWorker} {f f' : Fleet} {a : FleetAct}
    (hf : Scanned pw.queueKeys.length f) (h : FleetMove serde pw f a f') :
    Scanned pw.queueKeys.length f' := by
  cases h with
  | worker i a w w' s' hw hm =>
    have hm' := hm.openScan (hf.workers w (List.mem_of_getElem? hw)) hf.finished
    exact ⟨forall_set hf.workers hm'.1, hm'.2⟩
  | _ => exact ⟨hf.workers, hf.finished⟩

theorem Scanned.new (nKeys : Nat) (db : Db Entry) (nWorkers : Nat) :
    Scanned nKeys (.new db nWorkers) := by
  refine ⟨fun w hw => ?_, fun scan hs => by simp [Fleet.new, Hub.new] at hs⟩
  simp only [Fleet.new, List.mem_replicate] at hw
  rw [hw.2]
  rfl

theorem awaiting_le_one (w : Worker) : awaiting w ≤ 1 := by
  unfold awaiting
  split <;> omega

theorem recordedBy_eq_zero {w : Worker} (h : inHit w = 0) : recordedBy w = 0 := by
  unfold inHit at h
  unfold recordedBy
  split <;> simp_all

theorem inHit_eq_zero {w : Worker} (h : w.pc.isTerminal = true) : inHit w = 0 := by
  unfold inHit
  split <;> simp_all [Pc.isTerminal]

/-- Outside the hit branches each counted payload was either sent or rejected. -/
theorem Balanced.quiet {f : Fleet} (hf : Balanced f) (hq : ∀ w ∈ f.workers, inHit w = 0) :
    f.shared.hub.metrics.completed = f.shared.hub.ledger.payloads ∧
    f.shared.hub.metrics.completed =
      f.shared.hub.ledger.sent.length + f.shared.hub.ledger.rejected.length ∧
    ((f.shared.hub.ledger.sent.map Sample.job : List Entry) : Multiset Entry) +
      f.shared.hub.ledger.rejected = f.shared.hub.ledger.counted := by
  have hhit : total inHit f.workers = 0 := (total_eq_zero_iff _ _).mpr hq
  have hrec : total recordedBy f.workers = 0 := by
    rw [total, List.map_congr_left (fun w hw => recordedBy_eq_zero (hq w hw))]
    simp
  have hr := hf.recorded
  rw [hrec, zero_add] at hr
  have hcard := congrArg Multiset.card hr
  simp only [Multiset.card_add, Multiset.coe_card, List.length_map] at hcard
  have ha := hf.answered
  have hc := hf.completed
  exact ⟨by omega, by omega, hr⟩

theorem frozen_of_ended {H : Type} {serde : Serde} {hdr : Hdr H} {cfg : TrialConfig}
    {nWorkers : Nat} {p p' : Phase H} {d : DrainTasks H}
    (h : Machine.Runs (Phase.stepAmid serde hdr) (runDrainTrial hdr cfg nWorkers) p)
    (hd : p.tasks = .drain cfg d) (he : d.collector.ended = true)
    (h' : Machine.Runs (Phase.stepAmid serde hdr) p p') :
    p'.hub.metrics = p.hub.metrics ∧ p'.hub.ledger.sent = p.hub.ledger.sent ∧
      p'.hub.ledger.rejected = p.hub.ledger.rejected := by
  obtain ⟨e, hd', hconc⟩ := concluded_amid h
  cases hd'.symm.trans hd
  refine ((amid_invariant (P := fun f => (∀ w ∈ f.workers, w.pc.isTerminal = true) ∧
      f.shared.hub.metrics = p.hub.metrics ∧
      f.shared.hub.ledger.sent = p.hub.ledger.sent ∧
      f.shared.hub.ledger.rejected = p.hub.ledger.rejected)
    (fun _ hf => hf) (fun hf hm => ?_) h'
    (fun db => ⟨((hconc db).ended he).1, rfl, rfl, rfl⟩)).2 (fun _ => none)).2
  have hz := hm.frozen hf.1
  exact ⟨hz.workers, hz.metrics.trans hf.2.1, hz.sent.trans hf.2.2.1,
    hz.rejected.trans hf.2.2.2⟩

theorem completed_of_ended {H : Type} {serde : Serde} {hdr : Hdr H} {cfg : TrialConfig}
    {nWorkers : Nat} {p : Phase H} {d : DrainTasks H}
    (h : Machine.Runs (Phase.stepAmid serde hdr) (runDrainTrial hdr cfg nWorkers) p)
    (hd : p.tasks = .drain cfg d) (he : d.collector.ended = true) :
    p.hub.metrics.completed = p.hub.ledger.sent.length + p.hub.ledger.rejected.length := by
  obtain ⟨e, hd', hconc⟩ := concluded_amid h
  cases hd'.symm.trans hd
  have hb := balanced_amid (runDrainTrial_fleet hdr cfg nWorkers) h (fun _ => none)
  exact (hb.quiet (fun w hw => inHit_eq_zero (((hconc _).ended he).1 w hw))).2.1

theorem scanned_amid {H : Type} {serde : Serde} {hdr : Hdr H} {p₀ p : Phase H} {nWorkers : Nat}
    (hnew : ∀ db, p₀.fleet db = .new db nWorkers)
    (h : Machine.Runs (Phase.stepAmid serde hdr) p₀ p) :
    ∀ db, Scanned p₀.tasks.pollWorker.queueKeys.length (p.fleet db) := by
  refine (amid_invariant (fun _ hs => ⟨hs.workers, hs.finished⟩) (fun hs hm => hs.step hm) h
    fun db => ?_).2
  rw [hnew]
  exact .new _ db nWorkers

theorem idle_not_returned {H : Type} {serde : Serde} {hdr : Hdr H} {queueKeys : List String}
    {nWorkers : Nat} {p : Phase H}
    (h : Machine.Runs (Phase.stepAmid serde hdr) (runIdlePollTrial queueKeys nWorkers) p) :
    p.tasks.returned = none := by
  have hpw := (amid_invariant (P := fun _ => True) (fun _ _ => trivial) (fun _ _ => trivial) h
    (fun _ => trivial)).1
  cases ht : p.tasks with
  | drain cfg d =>
    rw [ht] at hpw
    cases congrArg PollWorker.targetJobs hpw
  | idle keys tasks => rfl

/-- In every reachable state of a drain or idle trial the counters equal what the
replies gave, every scan is in key order, and the read-out is final. The replies
may be any: between two steps other clients may do what they like to the database. -/
theorem counter_ledger {H : Type} {serde : Serde} {hdr : Hdr H} {p₀ p : Phase H}
    (cfg : TrialConfig) (nWorkers : Nat)
    (hp : p₀ = runDrainTrial hdr cfg nWorkers ∨ p₀ = runIdlePollTrial cfg.queueKeys nWorkers)
    (h : Machine.Runs (Phase.stepAmid serde hdr) p₀ p) :
    (p.hub.metrics.polls = p.hub.ledger.nils + p.hub.ledger.payloads + p.hub.ledger.errs +
        total awaiting p.workers ∧
      ∀ w ∈ p.workers, awaiting w ≤ 1) ∧
    ((∀ scan ∈ p.hub.ledger.scans, FinishedScan cfg.queueKeys.length scan ∧
        ((∃ k < cfg.queueKeys.length, ∃ e, scan.getLast? = some (k, .payload e) ∧
          scan.length = k + 1) ∨ scan.length = cfg.queueKeys.length)) ∧
      (∀ w ∈ p.workers, OpenScan cfg.queueKeys.length w) ∧
      p.hub.metrics.polls = (p.hub.ledger.scans.map List.length).sum +
        total openPolls p.workers) ∧
    p.hub.metrics.errors = p.hub.ledger.errs + p.hub.ledger.rejected.length ∧
    ((∀ w ∈ p.workers, inHit w = 0) →
      p.hub.metrics.completed = p.hub.ledger.payloads ∧
      p.hub.metrics.completed = p.hub.ledger.sent.length + p.hub.ledger.rejected.length ∧
      ((p.hub.ledger.sent.map Sample.job : List Entry) : Multiset Entry) +
        p.hub.ledger.rejected = p.hub.ledger.counted) ∧
    ∀ r, p.tasks.returned = some r →
      r.totalJobs = p.hub.ledger.sent.length + p.hub.ledger.rejected.length ∧
      r.totalJobs = p.hub.metrics.completed ∧ r.errors = p.hub.metrics.errors ∧
      ∀ p', Machine.Runs (Phase.stepAmid serde hdr) p p' →
        p'.hub.metrics = p.hub.metrics := by
  have hnew : (∀ db, p₀.fleet db = .new db nWorkers) ∧
      p₀.tasks.pollWorker.queueKeys = cfg.queueKeys := by
    rcases hp with rfl | rfl <;> exact ⟨fun _ => rfl, rfl⟩
  have hb := balanced_amid hnew.1 h (fun _ => none)
  have hs := scanned_amid hnew.1 h (fun _ => none)
  rw [hnew.2] at hs
  refine ⟨⟨?_, fun w _ => awaiting_le_one w⟩, ⟨fun scan hm => ⟨hs.finished scan hm,
    (hs.finished scan hm).cost⟩, hs.workers, ?_⟩, hb.errors, hb.quiet, fun r hr => ?_⟩
  · have := hb.polls
    simp only [Phase.fleet] at this
    omega
  · have := hb.scanned
    simp only [Phase.fleet] at this
    omega
  · rcases hp with rfl | rfl
    · obtain ⟨d, hd, hconc⟩ := concluded_amid h
      rw [hd, Tasks.returned_drain] at hr
      obtain ⟨he, htotal, herrors, _⟩ := (hconc (fun _ => none)).finished r hr
      exact ⟨htotal.trans (completed_of_ended h hd he), htotal, herrors,
        fun p' h' => (frozen_of_ended h hd he h').1⟩
    · rw [idle_not_returned h] at hr
      cases hr

/-- A timed-out trial: another client pushes jobs after the worker's first scan, and the
worker is aborted with its third `LPOP` unanswered. -/
theorem counter_ledger_aborted : ∃ p : Phase (List Nat),
    p.tasks.returned.map TrialResult.timedOut = some true ∧
    p.tasks.returned.map TrialResult.totalJobs = some 1 ∧
    p.hub.ledger.nils = 1 ∧ p.hub.metrics.polls = 3 ∧
    p.hub.metrics.completed = p.hub.ledger.sent.length := by
  let empty : Db Entry := fun _ => none
  obtain ⟨p, hrun, hout⟩ : ∃ p : Phase (List Nat),
      Machine.Runs (Phase.stepAmid (.envelopes [(0, 1000), (1, 1000)]) Hdr.bucketed)
        (runDrainTrial Hdr.bucketed ⟨queueKeys ["default"], 2, []⟩ 1) p ∧
      (p.tasks.returned.map TrialResult.timedOut = some true ∧
        p.tasks.returned.map TrialResult.totalJobs = some 1 ∧ p.hub.ledger.nils = 1 ∧
        p.hub.metrics.polls = 3 ∧ p.hub.ledger.rejected = []) :=
    ⟨_, Machine.runs_get ([.worker 0 .start, .worker 0 .check, .worker 0 .issue,
      .worker 0 .exec, .worker 0 .receive, .worker 0 .miss, .worker 0 .wake].map
        (fun a => (empty, a)) ++
      [.worker 0 .check, .worker 0 .issue, .worker 0 .exec, .worker 0 .receive,
      .worker 0 (.record (some 5000)), .worker 0 .count, .worker 0 .signal, .worker 0 .check,
      .worker 0 .issue, .drain .timeout, .drain .stopMonitor, .drain .shutdown,
      .drain (.grace 0), .drain .joined, .worker 0 .drop, .drain .recv, .drain .collectorEnd,
      .drain (.readOut 1)].map (fun a => (twoJobs, a))) (by decide +kernel), by decide +kernel⟩
  obtain ⟨r, hr, _⟩ := Option.map_eq_some_iff.mp hout.1
  obtain ⟨_, _, _, _, hread⟩ := counter_ledger ⟨queueKeys ["default"], 2, []⟩ 1
    (.inl rfl) hrun
  obtain ⟨htotal, hcompleted, _⟩ := hread r hr
  rw [hout.2.2.2.2, List.length_nil, Nat.add_zero] at htotal
  exact ⟨p, hout.1, hout.2.1, hout.2.2.1, hout.2.2.2.1, hcompleted.symm.trans htotal⟩

end ResqueBench
