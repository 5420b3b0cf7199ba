import ResqueBench.Vigilance
import ResqueBench.DoneSignal

/-! The cost of a drain in `LPOP`s. A job of queue `k` is found after `k` empty
answers, so the jobs counted and the sleeps taken determine the number of polls. -/

namespace ResqueBench

open Redis Threads

/-- Each answer with a job names the queue the job was in when the phase began. -/
structure Sourced (keys : List String) (db₀ : Db Entry) (f : Fleet) : Prop where
  replies : ∀ w ∈ f.workers, ∀ k e, w.pc = .replied k (.payload e) →
    ∃ key, keys[k]? = some key ∧ e ∈ listAt db₀ key
  hits : ∀ scan ∈ f.shared.hub.ledger.scans, ∀ k e, hitOf scan = some (k, e) →
    ∃ key, keys[k]? = some key ∧ e ∈ listAt db₀ key

theorem Move.sourced {serde : Serde} {pw : PollWorker} {s s' : Shared} {w w' : Worker}
    {a : WorkerAct} {db₀ : Db Entry} (h : Move serde pw s w a s' w')
    (ho : OpenScan pw.queueKeys.length w) (hs : ∀ key, listAt s.db key <:+ listAt db₀ key)
    (hr : ∀ k e, w.pc = .replied k (.payload e) →
      ∃ key, pw.queueKeys[k]? = some key ∧ e ∈ listAt db₀ key)
    (hh : ∀ scan ∈ s.hub.ledger.scans, ∀ k e, hitOf scan = some (k, e) →
      ∃ key, pw.queueKeys[k]? = some key ∧ e ∈ listAt db₀ key) :
    (∀ k e, w'.pc = .replied k (.payload e) →
      ∃ key, pw.queueKeys[k]? = some key ∧ e ∈ listAt db₀ key) ∧
    ∀ scan ∈ s'.hub.ledger.scans, ∀ k e, hitOf scan = some (k, e) →
      ∃ key, pw.queueKeys[k]? = some key ∧ e ∈ listAt db₀ key := by
  cases h with
  | pop k key e rest hpc hk hl hdb =>
    refine ⟨fun j e' he => ?_, hh⟩
    cases he
    exact ⟨key, hk, (hs key).subset (by simp [hl])⟩
  | empty k key b hpc hk hl hb =>
    refine ⟨fun j e' he => ?_, hh⟩
    cases he
    simp [Answer.jobs] at hb
  | payload k e hpc =>
    refine ⟨by simp, fun scan hscan j e' hhit => ?_⟩
    rcases List.mem_append.mp hscan with hscan | hscan
    · exact hh scan hscan j e' hhit
    · rw [List.mem_singleton.mp hscan, hitOf_payload] at hhit
      cases hhit
      exact hr k e hpc
  | miss k hpc hk =>
    refine ⟨by simp, fun scan hscan j e' hhit => ?_⟩
    simp only [OpenScan, hpc] at ho
    rcases List.mem_append.mp hscan with hscan | hscan
    · exact hh scan hscan j e' hhit
    · rw [List.mem_singleton.mp hscan, ho.2.hitOf] at hhit
      cases hhit
  | abort => exact ⟨hr, hh⟩
  | _ => exact ⟨by simp [failedLpop, droppedTask], by simpa [failedLpop, droppedTask] using hh⟩

theorem Sourced.step {serde : Serde} {pw : PollWorker} {db₀ : Db Entry} {f f' : Fleet}
    {a : FleetAct} (hf : Sourced pw.queueKeys db₀ f) (ho : Scanned pw.queueKeys.length f)
    (hs : ∀ key, listAt f.shared.db key <:+ listAt db₀ key) (h : FleetMove serde pw f a f') :
    Sourced pw.queueKeys db₀ f' := by
  cases h with
  | worker i a w w' s' hw hm =>
    have hmem := List.mem_of_getElem? hw
    have hm' := hm.sourced (ho.workers w hmem) hs (hf.replies w hmem) hf.hits
    exact ⟨forall_set hf.replies hm'.1, hm'.2⟩
  | _ => exact ⟨hf.replies, hf.hits⟩

section Filled

variable {H : Type} {serde : Serde} {hdr : Hdr H} {clock : Nat → Option Nat}
  {trial nJobs nWorkers : Nat} {queues : List String} {specs : List PercentileSpec}
  {db₀ : Db Entry} {t : Trial H}

theorem sourced_of_runs (hnd : queues.Nodup)
    (h : Machine.Runs (Trial.step serde hdr)
      ⟨db₀, runDrainTrial hdr ⟨queueKeys queues, nJobs, specs⟩ nWorkers⟩ t) :
    Sourced (queueKeys queues) db₀ t.fleet := by
  let P : Fleet → Prop := fun f => Scanned (queueKeys queues).length f ∧
    Drained (queueKeys queues) db₀ f ∧ Sourced (queueKeys queues) db₀ f
  have hstep : ∀ {f f' act}, P f → FleetMove serde ⟨some nJobs, queueKeys queues⟩ f act f' →
      P f' := fun hf hm =>
    ⟨hf.1.step hm, hf.2.1.step (queueKeys_nodup hnd) hm, hf.2.2.step hf.1 hf.2.1.suffix hm⟩
  have hnew : Sourced (queueKeys queues) db₀ (.new db₀ nWorkers) := by
    refine ⟨fun w hw k e he => ?_, fun scan hs => by simp [Fleet.new, Hub.new] at hs⟩
    rw [(List.mem_replicate.mp hw).2] at he
    cases he
  exact (fleet_invariant (P := P) (fun hf hm _ => hstep hf hm) h
    ⟨.new _ db₀ nWorkers, .new _ db₀ nWorkers, hnew⟩).2.2.2

/-- The `LPOP`s it takes to find a job: one for each queue up to its own. -/
def lpopCost (nQueues index : Nat) : Nat := index % nQueues + 1

theorem hit_residue (hnd : queues.Nodup) (hfill : Filled serde clock trial queues nJobs db₀)
    {f : Fleet} (hf : Sourced (queueKeys queues) db₀ f) {scan : List (Nat × Answer)} {k : Nat}
    {e : Entry} (hscan : scan ∈ f.shared.hub.ledger.scans) (hhit : hitOf scan = some (k, e)) :
    k + 1 = lpopCost queues.length e.index := by
  obtain ⟨key, hk, he⟩ := hf.hits scan hscan k e hhit
  have hlt : k < queues.length := by
    simpa [queueKeys] using (List.getElem?_eq_some_iff.mp hk).1
  obtain rfl : "queue:" ++ queues[k] = key := by simpa [queueKeys, hlt] using hk
  rw [hfill.listAt_queue hnd hlt] at he
  obtain ⟨index, hi, rfl⟩ := List.mem_map.mp he
  have hres := (RoundRobin.mem_dealt.mp hi).2
  simp [lpopCost, jobEntry, hres]

theorem sum_hits_eq (hnd : queues.Nodup) (hfill : Filled serde clock trial queues nJobs db₀)
    {f : Fleet} (hf : Sourced (queueKeys queues) db₀ f) :
    ((f.shared.hub.ledger.scans.filterMap hitOf).map (fun hit => hit.1 + 1)).sum =
      (((f.shared.hub.ledger.scans.filterMap hitOf).map Prod.snd).map
        (fun e => lpopCost queues.length e.index)).sum := by
  rw [List.map_map]
  refine congrArg List.sum (List.map_congr_left (fun hit hhit => ?_))
  obtain ⟨scan, hscan, he⟩ := List.mem_filterMap.mp hhit
  exact hit_residue hnd hfill hf hscan he

theorem counted_eq_pushedJobs (hnd : queues.Nodup) (hne : queues ≠ [])
    (hfill : Filled serde clock trial queues nJobs db₀)
    (h : Machine.Runs (Trial.step serde hdr)
      ⟨db₀, runDrainTrial hdr ⟨queueKeys queues, nJobs, specs⟩ nWorkers⟩ t)
    (hn : t.phase.hub.metrics.completed = nJobs) :
    (t.phase.hub.ledger.counted : Multiset Entry) = pushedJobs serde clock trial nJobs := by
  have hc := runDrainTrial_conserved hnd h
  have hstock := stock_eq_pushedJobs hc hfill hnd hne
  refine Multiset.eq_of_le_of_card_le ?_ ?_
  · rw [← hstock]
    simp only [Custody.State.stock, Fleet.custody]
    exact (Multiset.le_add_left _ _).trans (Multiset.le_add_right _ _)
  · have hcompleted := hc.balanced.completed
    simp only [Trial.fleet, Phase.fleet] at hcompleted
    simp only [Multiset.coe_card, length_pushedJobs]
    omega

/-- A job of queue `k` that has reached its worker costs `k + 1` `LPOP`s and a sleep one
for each queue. With the `LPOP`s of scans that have not ended that is every `LPOP`
counted; a trial that returns in time with none of its workers aborted has no such scan,
and has paid for every job. -/
theorem lpop_cost (hnd : queues.Nodup) (hne : queues ≠ [])
    (hfill : Filled serde clock trial queues nJobs db₀)
    (h : Machine.Runs (Trial.step serde hdr)
      ⟨db₀, runDrainTrial hdr ⟨queueKeys queues, nJobs, specs⟩ nWorkers⟩ t) :
    t.phase.hub.metrics.polls =
        ((total underway t.phase.workers + (t.phase.hub.ledger.counted : Multiset Entry)).map
          (fun e => lpopCost queues.length e.index)).sum +
        queues.length * sleeps t.phase.hub.ledger.scans + total openPolls t.phase.workers ∧
    ∀ r, t.phase.tasks.returned = some r → r.timedOut = false →
      0 < nJobs → (∀ w ∈ t.phase.workers, w.pc = .returned) →
      t.phase.hub.metrics.polls = ((List.range nJobs).map (lpopCost queues.length)).sum +
        queues.length * sleeps t.phase.hub.ledger.scans := by
  have hatt : Attentive (queueKeys queues) t.fleet := attentive_of_reach (.inl rfl) h
  have hlen : (queueKeys queues).length = queues.length := by simp [queueKeys]
  have hcost : t.phase.hub.metrics.polls =
      ((total underway t.phase.workers + (t.phase.hub.ledger.counted : Multiset Entry)).map
        (fun e => lpopCost queues.length e.index)).sum +
      queues.length * sleeps t.phase.hub.ledger.scans + total openPolls t.phase.workers := by
    have hpolls := (balanced_of_reach nWorkers rfl h).scanned
    have hlengths := sum_lengths hatt.scanned.finished
    rw [hlen, sum_hits_eq hnd hfill (sourced_of_runs hnd h)] at hlengths
    have hhits := hatt.tallied.hits
    simp only [Trial.fleet, Phase.fleet] at hpolls hlengths hhits
    rw [← hhits, Multiset.map_coe, Multiset.sum_coe]
    omega
  refine ⟨hcost, fun r hr ht hn hw => ?_⟩
  have hcompleted : t.phase.hub.metrics.completed = nJobs := by
    obtain ⟨d, hd, hconc⟩ := concluded_of_runs h
    rw [hd, Tasks.returned_drain] at hr
    have hset := (hconc.settled (by simp [Orchestrator.outcome, hr, ht])).resolve_left
      (Nat.pos_iff_ne_zero.mp hn)
    exact (drained_of_done hn hnd hne hfill h hset).1
  have hidle : total underway t.phase.workers = 0 := by
    have hz : Multiset.card (total underway t.phase.workers) = 0 := by
      rw [card_total_underway]
      exact (total_eq_zero_iff _ _).mpr (fun w hm => by simp [inHit, hw w hm])
    exact Multiset.card_eq_zero.mp hz
  have hclosed : total openPolls t.phase.workers = 0 := by
    refine (total_eq_zero_iff _ _).mpr (fun w hm => ?_)
    have hopen := hatt.scanned.workers w hm
    simp only [OpenScan, hw w hm] at hopen
    simp [openPolls, hopen, awaiting, hw w hm]
  rw [hcost, hidle, hclosed, zero_add, counted_eq_pushedJobs hnd hne hfill h hcompleted,
    Multiset.map_coe, Multiset.sum_coe, pushedJobs, List.map_map]
  simp [Function.comp_def, jobEntry]

end Filled

/-- One worker finds two jobs of one queue with two `LPOP`s and never sleeps. -/
theorem lpop_cost_two_jobs : ∃ t : Trial (List Nat),
    t.phase.tasks.returned.map TrialResult.timedOut = some false ∧
    sleeps t.phase.hub.ledger.scans = 0 ∧ t.phase.hub.metrics.polls = 2 := by
  obtain ⟨t, hrun, hout, hsleeps, hw⟩ : ∃ t : Trial (List Nat),
      Machine.Runs (Trial.step (.envelopes [(0, 1000), (1, 1000)]) Hdr.bucketed)
        ⟨twoJobs, runDrainTrial Hdr.bucketed ⟨queueKeys ["default"], 2, []⟩ 1⟩ t ∧
      t.phase.tasks.returned.map TrialResult.timedOut = some false ∧
      sleeps t.phase.hub.ledger.scans = 0 ∧ (∀ w ∈ t.phase.workers, w.pc = .returned) :=
    ⟨_, Machine.runs_get (drainTwoJobs 9000) (by decide +kernel), by decide +kernel⟩
  obtain ⟨r, hr, ht⟩ := Option.map_eq_some_iff.mp hout
  have hcost := (lpop_cost (by decide) (by decide) twoJobs_filled hrun).2 r hr ht (by decide) hw
  rw [hsleeps] at hcost
  exact ⟨t, hout, hsleeps, hcost⟩

end ResqueBench
