import ResqueBench.Conservation
import ResqueBench.ReadOut

/-! The done signal. The worker whose increment reaches the target stands before
the target check until it has sent the flag, so the flag cannot be missed. -/

namespace ResqueBench

open Redis

structure DoneFlag (target : Nat) (f : Fleet) : Prop where
  seen : ∀ w ∈ f.workers, ∀ done, w.pc = .counted done → done ≤ f.shared.hub.metrics.completed
  sound : f.shared.hub.done.borrow = true → target ≤ f.shared.hub.metrics.completed
  kept : target ≤ f.shared.hub.metrics.completed → f.shared.hub.done.borrow = true ∨
    ∃ (i : Nat) (w : Worker) (done : Nat),
      f.workers[i]? = some w ∧ w.pc = .counted done ∧ target ≤ done

theorem Move.done {serde : Serde} {pw : PollWorker} {s s' : Shared} {w w' : Worker}
    {a : WorkerAct} (h : Move serde pw s w a s' w') :
    (s'.hub.metrics.completed = s.hub.metrics.completed + 1 ∧ s'.hub.done = s.hub.done ∧
      w'.pc = .counted s'.hub.metrics.completed) ∨
    (∃ done target, s'.hub.metrics = s.hub.metrics ∧ s'.hub.done.borrow = true ∧
      w.pc = .counted done ∧ pw.targetJobs = some target ∧ target ≤ done ∧ w'.pc = .top) ∨
    (s'.hub.metrics.completed = s.hub.metrics.completed ∧ s'.hub.done = s.hub.done ∧
      (∀ done, w'.pc = .counted done → w.pc = .counted done) ∧
      ∀ done, w.pc = .counted done →
        w'.pc = .counted done ∨ ∀ target, pw.targetJobs = some target → done < target) := by
  cases h with
  | count e hpc => exact .inl ⟨rfl, rfl, rfl⟩
  | signal done target hpc ht hd => exact .inr (.inl ⟨done, target, rfl, rfl, hpc, ht, hd, rfl⟩)
  | below done hpc ht =>
    refine .inr (.inr ⟨rfl, rfl, by simp, fun done' hd => .inr ?_⟩)
    obtain rfl : done = done' := by simpa [hpc] using hd
    exact ht
  | abort => exact .inr (.inr ⟨rfl, rfl, fun _ h => h, fun _ h => .inl h⟩)
  | _ => exact .inr (.inr ⟨by simp [failedLpop, droppedTask, Metrics.incPoll, Metrics.incError],
      by simp [failedLpop, droppedTask], by simp [failedLpop, droppedTask], by simp [*]⟩)

theorem DoneFlag.worker {serde : Serde} {pw : PollWorker} {target : Nat} {f : Fleet} {i : Nat}
    {w w' : Worker} {s' : Shared} {a : WorkerAct} (htarget : pw.targetJobs = some target)
    (hf : DoneFlag target f) (hw : f.workers[i]? = some w)
    (hm : Move serde pw f.shared w a s' w') : DoneFlag target ⟨s', f.workers.set i w'⟩ := by
  have hi : i < f.workers.length := (List.getElem?_eq_some_iff.mp hw).1
  have hmem := List.mem_of_getElem? hw
  rcases hm.done with ⟨hc, hd, hpc⟩ | ⟨done, target', hmet, hd, hpc, ht, hle, hpc'⟩ |
    ⟨hc, hd, hback, hforth⟩
  · refine ⟨Threads.forall_set (fun v hv done' he => ?_) (fun done' he => ?_), fun h => ?_,
      fun h => .inr ⟨i, w', _, by simp [hi], hpc, h⟩⟩
    · have := hf.seen v hv done' he
      dsimp only
      omega
    · exact (Pc.counted.inj (hpc.symm.trans he)).ge
    · have := hf.sound (by rw [← hd]; exact h)
      dsimp only
      omega
  · obtain rfl : target' = target := Option.some.inj (ht.symm.trans htarget)
    have hseen := hf.seen w hmem done hpc
    refine ⟨Threads.forall_set (fun v hv done' he => ?_) (fun done' he => ?_), fun _ => ?_,
      fun _ => .inl hd⟩
    · rw [hmet]
      exact hf.seen v hv done' he
    · rw [hpc'] at he
      cases he
    · rw [hmet]
      exact hle.trans hseen
  · refine ⟨Threads.forall_set (fun v hv done' he => ?_) (fun done' he => ?_), fun h => ?_,
      fun h => ?_⟩
    · rw [hc]
      exact hf.seen v hv done' he
    · rw [hc]
      exact hf.seen w hmem done' (hback done' he)
    · rw [hc]
      exact hf.sound (by rw [← hd]; exact h)
    · rw [hc] at h
      rcases hf.kept h with hdone | ⟨j, v, done, hv, hpc, hle⟩
      · exact .inl (by rw [hd]; exact hdone)
      · refine .inr ⟨j, ?_⟩
        by_cases hj : j = i
        · subst hj
          obtain rfl : w = v := Option.some.inj (hw.symm.trans hv)
          rcases hforth done hpc with hpc' | hlt
          · exact ⟨w', done, by simp [hi], hpc', hle⟩
          · have := hlt target htarget
            omega
        · exact ⟨v, done, by simp [List.getElem?_set_ne (Ne.symm hj), hv], hpc, hle⟩

theorem DoneFlag.step {serde : Serde} {pw : PollWorker} {target : Nat} {f f' : Fleet}
    {a : FleetAct} (htarget : pw.targetJobs = some target) (hf : DoneFlag target f)
    (h : FleetMove serde pw f a f') : DoneFlag target f' := by
  cases h with
  | worker i a w w' s' hw hm => exact hf.worker htarget hw hm
  | _ => exact ⟨hf.seen, hf.sound, hf.kept⟩

theorem doneFlag_of_runs {H : Type} {serde : Serde} {hdr : Hdr H} {db₀ : Db Entry}
    {nWorkers : Nat} {t : Trial H} (cfg : TrialConfig) (hjobs : 0 < cfg.jobs)
    (h : Machine.Runs (Trial.step serde hdr) ⟨db₀, runDrainTrial hdr cfg nWorkers⟩ t) :
    DoneFlag cfg.jobs t.fleet := by
  refine (fleet_invariant (fun hf hm _ => hf.step rfl hm) h ?_).2
  refine ⟨fun w hw done he => ?_, fun hd => ?_, fun hc => ?_⟩
  · simp only [Trial.fleet, Phase.fleet, runDrainTrial, List.mem_replicate] at hw
    rw [hw.2] at he
    cases he
  · simp [Trial.fleet, Phase.fleet, runDrainTrial, Hub.new] at hd
  · simp only [Trial.fleet, Phase.fleet, runDrainTrial, Hub.new, Metrics.new] at hc
    omega

section Filled

variable {H : Type} {serde : Serde} {hdr : Hdr H} {clock : Nat → Option Nat}
  {trial nJobs nWorkers : Nat} {queues : List String} {specs : List PercentileSpec}
  {db₀ : Db Entry} {t : Trial H}

theorem drained_of_done (hn : 0 < nJobs) (hnd : queues.Nodup) (hne : queues ≠ [])
    (hfill : Filled serde clock trial queues nJobs db₀)
    (h : Machine.Runs (Trial.step serde hdr)
      ⟨db₀, runDrainTrial hdr ⟨queueKeys queues, nJobs, specs⟩ nWorkers⟩ t)
    (hd : t.phase.hub.done.borrow = true) :
    t.phase.hub.metrics.completed = nJobs ∧ (∀ key ∈ queueKeys queues, listAt t.db key = []) ∧
      t.phase.hub.ledger.lost = [] := by
  have hflag := (doneFlag_of_runs ⟨queueKeys queues, nJobs, specs⟩ hn h).sound hd
  have hsum := jobs_add_up (runDrainTrial_conserved hnd h) hfill hnd hne
  simp only [Trial.fleet, Phase.fleet] at hflag hsum
  refine ⟨by omega, remaining_eq_zero_iff.mp (by omega), List.length_eq_zero_iff.mp (by omega)⟩

theorem completed_of_empty (hnd : queues.Nodup) (hne : queues ≠ [])
    (hfill : Filled serde clock trial queues nJobs db₀)
    (h : Machine.Runs (Trial.step serde hdr)
      ⟨db₀, runDrainTrial hdr ⟨queueKeys queues, nJobs, specs⟩ nWorkers⟩ t)
    (hempty : ∀ key ∈ queueKeys queues, listAt t.db key = [])
    (hcounted : ∀ e ∈ t.phase.hub.ledger.removed, e ∈ t.phase.hub.ledger.counted) :
    nJobs ≤ t.phase.hub.metrics.completed := by
  have hc := runDrainTrial_conserved hnd h
  have hremoved : (t.phase.hub.ledger.removed : Multiset Entry) =
      pushedJobs serde clock trial nJobs := by
    have hstock := hc.drained.stock
    rwa [show queued (queueKeys queues) t.fleet.shared.db = 0 from queued_eq_zero_iff.mpr hempty,
      zero_add, hfill.queued hnd hne] at hstock
  have hperm := Multiset.coe_eq_coe.mp hremoved
  have hnodup := hperm.nodup_iff.mpr (pushedJobs_nodup serde clock trial nJobs)
  calc nJobs = t.phase.hub.ledger.removed.length := by rw [hperm.length_eq, length_pushedJobs]
    _ ≤ t.phase.hub.ledger.counted.length := (hnodup.subperm hcounted).length_le
    _ = t.phase.hub.metrics.completed := hc.balanced.completed.symm

/-- The done signal is sound (a trial that returns without a timeout counted every
job, and its queues stay empty from the flag on) and it is not lost. -/
theorem done_signal_sound_and_kept (hn : 0 < nJobs) (hnd : queues.Nodup) (hne : queues ≠ [])
    (hfill : Filled serde clock trial queues nJobs db₀)
    (h : Machine.Runs (Trial.step serde hdr)
      ⟨db₀, runDrainTrial hdr ⟨queueKeys queues, nJobs, specs⟩ nWorkers⟩ t) :
    (∀ r, t.phase.tasks.returned = some r → r.timedOut = false →
      r.totalJobs = nJobs ∧ t.phase.hub.done.borrow = true) ∧
    (t.phase.hub.done.borrow = true → ∀ t', Machine.Runs (Trial.step serde hdr) t t' →
      t'.phase.hub.metrics.completed = nJobs ∧
      (∀ key ∈ queueKeys queues, listAt t'.db key = []) ∧
      sumLens t'.db (totalQueueLen queues) = some 0 ∧ t'.phase.hub.ledger.lost = []) ∧
    ((∀ key ∈ queueKeys queues, listAt t.db key = []) →
      (∀ e ∈ t.phase.hub.ledger.removed, e ∈ t.phase.hub.ledger.counted) →
      (∀ w ∈ t.phase.workers, ∀ done, w.pc ≠ .counted done) →
      t.phase.hub.done.borrow = true ∧
      ∀ d, t.phase.tasks = .drain ⟨queueKeys queues, nJobs, specs⟩ d → d.orch = .waiting →
        d.step hdr ⟨queueKeys queues, nJobs, specs⟩ t.fleet .doneSeen =
          some (none, { d with orch := .waited false })) := by
  obtain ⟨d, hd, hconc⟩ := concluded_of_runs h
  refine ⟨fun r hr ht => ?_, fun hdone t' h' => ?_, fun hempty hcounted hpc => ?_⟩
  · rw [hd, Tasks.returned_drain] at hr
    have hset : t.phase.hub.done.borrow = true := by
      rcases hconc.settled (by simp [Orchestrator.outcome, hr, ht]) with h0 | hset
      · exact absurd h0 (Nat.pos_iff_ne_zero.mp hn)
      · exact hset
    refine ⟨?_, hset⟩
    rw [(hconc.finished r hr).2.1]
    exact (drained_of_done hn hnd hne hfill h hset).1
  · have hdone' : t'.phase.hub.done.borrow = true :=
      (fleet_invariant (P := fun f => f.shared.hub.done.borrow = true)
        (fun hf hm _ => hm.done_kept hf) h' hdone).2
    obtain ⟨hcompleted, hempty, hlost⟩ := drained_of_done hn hnd hne hfill (h.trans h') hdone'
    have hholds : ∀ key, HoldsList db₀ key → HoldsList t'.db key :=
      (runDrainTrial_conserved hnd (h.trans h')).drained.holds
    have hlens := sumLens_totalQueueLen (fun q hq => hholds _ (hfill.holdsList hq))
    have hzero : (queues.map (fun q => (listAt t'.db ("queue:" ++ q)).length)).sum = 0 := by
      have hr := remaining_eq_zero_iff.mpr hempty
      simpa [remaining, queueKeys, Function.comp_def] using hr
    exact ⟨hcompleted, hempty, by rw [hlens, hzero], hlost⟩
  · have hall := completed_of_empty hnd hne hfill h hempty hcounted
    have hset : t.phase.hub.done.borrow = true := by
      rcases (doneFlag_of_runs ⟨queueKeys queues, nJobs, specs⟩ hn h).kept hall with
        hset | ⟨i, w, done, hw, hwpc, _⟩
      · exact hset
      · exact absurd hwpc (hpc w (List.mem_of_getElem? hw) done)
    refine ⟨hset, fun d _ ho => ?_⟩
    have hfleet : t.fleet.shared.hub.done.borrow = true := hset
    simp [DrainTasks.step, ho, hfleet, Nat.pos_iff_ne_zero.mp hn]

end Filled

/-- One worker drains two jobs, and the trial returns without a timeout. -/
theorem done_signal_two_jobs : ∃ t : Trial (List Nat),
    t.phase.tasks.returned.map TrialResult.timedOut = some false ∧
    t.phase.tasks.returned.map TrialResult.totalJobs = some 2 ∧
    sumLens t.db (totalQueueLen ["default"]) = some 0 := by
  obtain ⟨t, hrun, hout⟩ : ∃ t : Trial (List Nat),
      Machine.Runs (Trial.step (.envelopes [(0, 1000), (1, 1000)]) Hdr.bucketed)
        ⟨twoJobs, runDrainTrial Hdr.bucketed ⟨queueKeys ["default"], 2, []⟩ 1⟩ t ∧
      t.phase.tasks.returned.map TrialResult.timedOut = some false :=
    ⟨_, Machine.runs_get (drainTwoJobs 9000) (by decide +kernel), by decide +kernel⟩
  obtain ⟨hreturned, hdone, _⟩ := done_signal_sound_and_kept (by decide) (by decide)
    (by decide) twoJobs_filled hrun
  obtain ⟨r, hr, ht⟩ := Option.map_eq_some_iff.mp hout
  obtain ⟨htotal, hset⟩ := hreturned r hr ht
  exact ⟨t, hout, by rw [hr, Option.map_some, htotal], (hdone hset t .refl).2.2.1⟩

end ResqueBench
