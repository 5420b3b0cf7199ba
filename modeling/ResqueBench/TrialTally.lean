import ResqueBench.OwnJobs

/-! What the trials report. Every result in the report was returned by a drain, and
what a drain counts and samples are jobs it pushed itself, each of them once. -/

namespace ResqueBench

open Redis Threads

section World

variable {H : Type} {serde : Serde} {hdr : Hdr H} {clock : Nat → Nat → Option Nat} {cli : Cli}
  {w w' : World H}

/-- A job the phase has counted, or sent a latency sample of. -/
def Phase.tallied (p : Phase H) (e : Entry) : Prop :=
  e ∈ p.hub.ledger.counted ∨ e ∈ p.hub.ledger.sent.map Sample.job

theorem PhaseKept.tallied {keys : List String} {db : Db Entry} {live : Prop} {p : Phase H}
    (h : PhaseKept hdr keys db live p) {e : Entry} (he : p.tallied e) :
    e ∈ (p.fleet db).carried := by
  rcases he with he | he
  · exact Multiset.mem_of_le Balanced.counted_le (Multiset.mem_coe.mpr he)
  · exact Multiset.mem_of_le h.balanced.sent_le (Multiset.mem_coe.mpr he)

theorem Fresh.unique_phase (h : Fresh cli w) {q q' : Nat} {p p' : Phase H} {e : Entry}
    (hq : w.phases[q]? = some p) (hq' : w.phases[q']? = some p') (he : e ∈ p.popped)
    (he' : e ∈ p'.popped) : q = q' := by
  let c : Nat → Multiset Entry := fun i => (w.phases[i]?.map Phase.popped).getD 0
  have hsum : ((List.range w.phases.length).map c).sum = w.removed :=
    sum_range_getElem? Phase.popped w.phases
  have hmem : ∀ {i : Nat} {p : Phase H}, w.phases[i]? = some p → e ∈ p.popped →
      i ∈ List.range w.phases.length ∧ e ∈ c i := fun hi he =>
    ⟨List.mem_range.mpr (List.getElem?_eq_some_iff.mp hi).1, by simpa [c, hi] using he⟩
  have hnd : ((List.range w.phases.length).map c).sum.Nodup := by
    rw [hsum]
    exact (Multiset.nodup_add.mp h.nodup).1
  obtain ⟨i, _, _, huniq⟩ := Custody.unique_place hnd (Custody.mem_sum_map.mpr ⟨q, hmem hq he⟩)
  rw [huniq q (hmem hq he).1 (hmem hq he).2, huniq q' (hmem hq' he').1 (hmem hq' he').2]

theorem Fresh.popped_nodup (h : Fresh cli w) {p : Phase H} (hp : p ∈ w.phases) :
    p.popped.Nodup := by
  have hle : p.popped ≤ w.removed := Custody.place_le_stock hp
  exact Multiset.nodup_of_le hle (Multiset.nodup_add.mp h.nodup).1

theorem PhaseMove.returned {db db' : Db Entry} {p p' : Phase H} {a : PhaseAct} {r : TrialResult}
    (h : PhaseMove serde hdr db p a db' p') (hr : p.tasks.returned = some r) :
    p'.tasks.returned = some r := by
  cases h with
  | worker i a f ha hf => exact hr
  | late j f hf => exact hr
  | idle queueKeys t t' a act f ht hm hf =>
    rw [ht] at hr
    cases hr
  | drain cfg d d' a act f ht hm hf =>
    rw [ht, Tasks.returned_drain] at hr
    rw [Tasks.returned_drain]
    cases hm <;> simp_all

def Activity.result : Activity → Option TrialResult
  | .measuring _ result | .idling _ result => some result
  | _ => none

def Reported (w : World H) : Prop :=
  ∀ r, r ∈ w.main.results ∨ w.main.activity.result = some r →
    ∃ p ∈ w.phases, p.tasks.returned = some r

theorem Reported.mono (h : Reported w)
    (hr : ∀ r, r ∈ w'.main.results ∨ w'.main.activity.result = some r →
      r ∈ w.main.results ∨ w.main.activity.result = some r)
    (hp : ∀ p ∈ w.phases, p ∈ w'.phases) : Reported w' := by
  intro r hr'
  obtain ⟨p, hp', hret⟩ := h r (hr r hr')
  exact ⟨p, hp p hp', hret⟩

theorem Reported.step (h : Reported w) (hm : WorldMove serde hdr clock cli w w') :
    Reported w' := by
  cases hm with
  | phase i a p p' db' hr hp hm =>
    intro r hr'
    obtain ⟨p₀, hp₀, hret⟩ := h r hr'
    obtain ⟨j, hj, rfl⟩ := List.mem_iff_getElem.mp hp₀
    by_cases hij : i = j
    · subst hij
      have hpj : w.phases[i] = p := by simpa [hj] using hp
      exact ⟨p', List.mem_set hj p', hm.returned (hpj ▸ hret)⟩
    · refine ⟨w.phases[j], ?_, hret⟩
      rw [List.mem_iff_getElem]
      exact ⟨j, by simpa using hj, by simp [hij]⟩
  | drained plan p result ha hl hr =>
    unfold World.drained
    split
    · intro r hr'
      rcases hr' with hr' | hr'
      · exact h r (.inl hr')
      · obtain rfl : result = r := by simpa [World.send, Activity.result] using hr'
        exact ⟨p, List.mem_of_getLast? hl, hr⟩
    · exact h.mono (fun r hr' => hr'.imp id (by simp [World.send, Activity.result]))
        (fun _ hp => hp)
  | skip plan result backlog ha hp hs hb =>
    refine h.mono (fun r hr' => ?_) (fun _ hp => hp)
    simpa [World.conclude, Activity.result, ha, eq_comm] using hr'
  | rested plan result p idle ha hl hr =>
    refine h.mono (fun r hr' => ?_) (fun _ hp => hp)
    simpa [World.conclude, Activity.result, ha, eq_comm] using hr'
  | idle plan result ha hp hs =>
    refine h.mono (fun r hr' => ?_) (fun _ hp => List.mem_append_left _ hp)
    simpa [World.launch, World.send, Activity.result, ha] using hr'
  | drain plan ha hp hr =>
    exact h.mono (fun r hr' => hr'.imp id (by simp [World.launch, World.send, Activity.result]))
      (fun _ hp => List.mem_append_left _ hp)
  | exec c pipe hp => exact h
  | begin plan todo ha ht =>
    exact h.mono (fun r hr' => hr'.imp id (by simp [World.send, Activity.result]))
      (fun _ hp => hp)
  | finish ha ht =>
    exact h.mono (fun r hr' => hr'.imp id (by simp [World.send, Activity.result]))
      (fun _ hp => hp)
  | stop ha =>
    exact h.mono (fun r hr' => hr'.imp id (by simp [World.stop, World.send, Activity.result]))
      (fun _ hp => hp)
  | cleared plan pipe rest ha hp hb =>
    exact h.mono (fun r hr' => hr'.imp id (by simp [World.send, Activity.result]))
      (fun _ hp => hp)
  | batch plan pipe rest ha hp hr =>
    exact h.mono (fun r hr' => hr'.imp id (by simp [World.send, Activity.result]))
      (fun _ hp => hp)

theorem reported_of_runs {db₀ : Db Entry}
    (h : Machine.Runs (World.step serde hdr clock cli) (.start cli db₀) w) : Reported w := by
  refine h.invariant (fun hr _ hstep => hr.step (World.step_move hstep)) ?_
  intro r hr
  simp [World.start, Activity.result] at hr

/-- In every run of the program, with whatever backlog a trial finds or leaves: a
drain counts and samples jobs of its own `bulk_enqueue` only, no job twice, and no
job is counted or sampled in two phases. The reported results are the drains'. -/
theorem trials_tally_own_jobs {db₀ : Db Entry}
    (h : Machine.Runs (World.step serde hdr clock cli) (.start cli db₀) w) :
    (∀ q p cfg, w.phases[q]? = some p → p.tasks.config = some cfg →
      (∀ e, p.tallied e → e ∈ pushedJobs serde (clock q) q cfg.jobs) ∧
      p.hub.metrics.completed = p.hub.ledger.counted.length ∧
      p.hub.ledger.counted.Nodup ∧ (p.hub.ledger.sent.map Sample.job).Nodup ∧
      ∀ r, p.tasks.returned = some r → r.totalJobs = p.hub.ledger.counted.length ∧
        ∃ hist, r.latency = .fromHistogram hdr hist ∧
          hdr.samples hist = total (accepted hdr) p.hub.ledger.sent) ∧
    (∀ (q q' : Nat) (p p' : Phase H) (e : Entry), w.phases[q]? = some p →
      w.phases[q']? = some p' → p.tallied e → p'.tallied e → q = q') ∧
    ∀ r ∈ w.main.results, ∃ p ∈ w.phases, p.tasks.returned = some r := by
  have hs := sound_of_runs h
  refine ⟨fun q p cfg hp hcfg => ?_, fun q q' p p' e hp hp' he he' => ?_, fun r hr => ?_⟩
  · have hk := hs.phases q p hp
    have hnd := hs.fresh.popped_nodup (List.mem_of_getElem? hp)
    refine ⟨fun e he => hs.own q p cfg hp hcfg e (hk.tallied he), hk.balanced.completed, ?_, ?_, ?_⟩
    · exact Multiset.coe_nodup.mp
        (Multiset.nodup_of_le (Balanced.counted_le.trans hk.balanced.carried_le) hnd)
    · exact Multiset.coe_nodup.mp
        (Multiset.nodup_of_le (hk.balanced.sent_le.trans hk.balanced.carried_le) hnd)
    · intro r hr
      cases ht : p.tasks with
      | idle queueKeys t => simp [ht, Tasks.config] at hcfg
      | drain cfg' d =>
        rw [ht, Tasks.returned_drain] at hr
        have hc := hk.concluded cfg' d ht
        obtain ⟨hended, hjobs, _, hlatency⟩ := hc.finished r hr
        have hchannel := hk.balanced.channel
        rw [(hc.ended hended).2, List.append_nil] at hchannel
        refine ⟨hjobs.trans hk.balanced.completed, d.collector.hist, hlatency, ?_⟩
        exact (hk.partitioned cfg' d ht).hist.trans (congrArg (total (accepted hdr)) hchannel)
  · have hk := hs.phases q p hp
    have hk' := hs.phases q' p' hp'
    have hpop : e ∈ p.popped := Multiset.mem_of_le hk.balanced.carried_le (hk.tallied he)
    have hpop' : e ∈ p'.popped := Multiset.mem_of_le hk'.balanced.carried_le (hk'.tallied he')
    exact hs.fresh.unique_phase hp hp' hpop hpop'
  · exact reported_of_runs h r (.inl hr)

end World

/-- A drain that times out before its worker looks at a queue. -/
def timedOutDrain (q : Nat) : List WorldAct :=
  [.drain .timeout, .drain .stopMonitor, .drain .shutdown, .worker 0 .start, .worker 0 .check,
    .drain .collectorEnd, .drain .joined, .drain (.readOut 1)].map (.phase q)

/-- The warmup leaves its job behind. The trial counts the job it pushed itself. -/
theorem trials_tally_own_jobs_after_timeout : ∃ (w : World (List Nat)) (p : Phase (List Nat)),
    w.phases[1]? = some p ∧ p.hub.metrics.completed = 1 ∧
    ∀ e, p.tallied e → e ∈ pushedJobs (.envelopes [(0, 1000)]) (fun _ => some 1000) 1 1 := by
  obtain ⟨w, hrun, hw⟩ : ∃ w : World (List Nat),
      Machine.Runs (World.step (.envelopes [(0, 1000)]) Hdr.bucketed (fun _ _ => some 1000)
        oneJobCli) (.start oneJobCli (fun _ => none)) w ∧
      w.phases[1]?.any (fun p => p.hub.metrics.completed == 1 &&
        p.tasks.config.any (fun cfg => cfg.jobs == 1)) = true :=
    Machine.runs_any (List.flatten [fillOneJob, timedOutDrain 0, [.main .proceed], fillOneJob,
      [.worker 0 .start, .worker 0 .check, .worker 0 .issue, .worker 0 .exec, .worker 0 .receive,
        .worker 0 (.record (some 5000)), .worker 0 .count].map (.phase 1)]) (by decide +kernel)
  obtain ⟨p, hp, hw⟩ := (Option.any_eq_true _ _).mp hw
  simp only [Bool.and_eq_true, beq_iff_eq, Option.any_eq_true] at hw
  obtain ⟨hcompleted, cfg, hcfg, hjobs⟩ := hw
  have hown := ((trials_tally_own_jobs hrun).1 1 p cfg hp hcfg).1
  rw [hjobs] at hown
  exact ⟨w, p, hp, hcompleted, hown⟩

end ResqueBench
