import ResqueBench.CounterLedger

/-! The latency report. The collector cuts the message stream into windows, and a
trial's histogram holds every message the histogram did not refuse. -/

namespace ResqueBench

open Redis Threads

/-- What recording one message adds to a histogram. -/
def accepted {H : Type} (hdr : Hdr H) (s : Sample) : Multiset Nat :=
  if max s.us 1 ≤ hdr.trackable then {hdr.round (max s.us 1)} else 0

structure Partitioned {H : Type} (hdr : Hdr H) (received : List Sample) (c : Collector H) :
    Prop where
  stream : c.windows.flatMap Window.taken ++ c.current = received
  hist : hdr.samples c.hist = total (accepted hdr) received
  perSec : hdr.samples c.perSecHist = total (accepted hdr) c.current
  windows : ∀ w ∈ c.windows, hdr.samples w.hist = total (accepted hdr) w.taken

theorem Partitioned.new {H : Type} (hdr : Hdr H) : Partitioned hdr [] (.new hdr) := by
  constructor <;> simp [Collector.new, hdr.samples_new]

theorem total_concat {L M : Type*} [AddCommMonoid M] (m : L → M) (ls : List L) (l : L) :
    total m (ls ++ [l]) = m l + total m ls := by
  rw [total_append, total_cons, total_nil, add_zero, add_comm]

theorem Partitioned.receive {H : Type} {hdr : Hdr H} {received : List Sample} {c : Collector H}
    (h : Partitioned hdr received c) (s : Sample) :
    Partitioned hdr (received ++ [s]) (c.receive hdr s) where
  stream := by simp [Collector.receive, ← h.stream]
  hist := by
    rw [total_concat, ← h.hist]
    exact hdr.samples_recordIgnoring c.hist (Nat.le_max_right _ _)
  perSec := by
    simp only [Collector.receive, total_concat]
    rw [← h.perSec]
    exact hdr.samples_recordIgnoring c.perSecHist (Nat.le_max_right _ _)
  windows := h.windows

theorem Partitioned.snapshot {H : Type} {hdr : Hdr H} {received : List Sample} {c : Collector H}
    (h : Partitioned hdr received c) (tick : Nat) (backlog : List Sample) :
    Partitioned hdr received (c.snapshot hdr tick backlog).2 where
  stream := by simp [Collector.snapshot, ← h.stream]
  hist := h.hist
  perSec := by simp [Collector.snapshot, hdr.samples_reset]
  windows w hw := by
    rcases List.mem_append.mp hw with hw | hw
    · exact h.windows w hw
    · rw [List.mem_singleton.mp hw]
      exact h.perSec

theorem Partitioned.union {H : Type} {hdr : Hdr H} {received : List Sample} {c : Collector H}
    (h : Partitioned hdr received c) : hdr.samples c.hist =
      (c.windows.map (fun w => hdr.samples w.hist)).sum + hdr.samples c.perSecHist := by
  have hwindows : (c.windows.map (fun w => hdr.samples w.hist)).sum =
      total (accepted hdr) (c.windows.flatMap Window.taken) := by
    rw [List.map_congr_left h.windows]
    generalize c.windows = ws
    induction ws with
    | nil => rfl
    | cons w ws ih => simp [total_append, ih]
  rw [h.hist, ← h.stream, total_append, hwindows, h.perSec]

/-- What the collector's loop handles: a message, or a request it answers whether
or not anybody still awaits the answer. -/
inductive CollectorEvent
  | message (s : Sample)
  | request (tick : Nat) (backlog : List Sample)

def CollectorEvent.samples : CollectorEvent → List Sample
  | .message s => [s]
  | .request _ _ => []

def Collector.handle {H : Type} (hdr : Hdr H) (c : Collector H) : CollectorEvent → Collector H
  | .message s => c.receive hdr s
  | .request tick backlog => (c.snapshot hdr tick backlog).2

theorem Partitioned.handleAll {H : Type} {hdr : Hdr H} {received : List Sample} {c : Collector H}
    (h : Partitioned hdr received c) (events : List CollectorEvent) :
    Partitioned hdr (received ++ events.flatMap CollectorEvent.samples)
      (events.foldl (Collector.handle hdr) c) := by
  induction events generalizing received c with
  | nil => simpa using h
  | cons event events ih =>
    cases event with
    | message s => simpa [CollectorEvent.samples, Collector.handle] using ih (h.receive s)
    | request tick backlog =>
      simpa [CollectorEvent.samples, Collector.handle] using ih (h.snapshot tick backlog)

theorem FleetMove.received {serde : Serde} {pw : PollWorker} {f f' : Fleet} {a : FleetAct}
    (h : FleetMove serde pw f a f') (ha : a ≠ .recv) :
    f'.shared.hub.ledger.received = f.shared.hub.ledger.received := by
  cases h with
  | worker i a w w' s' hw hm => cases hm <;> rfl
  | recv sample rest hl => exact absurd rfl ha
  | _ => rfl

theorem Partitioned.fleet {H : Type} {serde : Serde} {pw : PollWorker} {hdr : Hdr H}
    {f f' : Fleet} {c : Collector H} {a : FleetAct}
    (h : Partitioned hdr f.shared.hub.ledger.received c) (hm : FleetMove serde pw f a f')
    (ha : a ≠ .recv) : Partitioned hdr f'.shared.hub.ledger.received c := by
  rw [hm.received ha]
  exact h

theorem Partitioned.drain {H : Type} {serde : Serde} {pw : PollWorker} {hdr : Hdr H}
    {cfg : TrialConfig} {f f' : Fleet} {d d' : DrainTasks H} {a : DrainAct}
    {act : Option FleetAct} (h : Partitioned hdr f.shared.hub.ledger.received d.collector)
    (hm : DrainMove hdr cfg f d a act d') (hf : FleetStutter serde pw f act f') :
    Partitioned hdr f'.shared.hub.ledger.received d'.collector := by
  cases hm with
  | recv sample rest hl he =>
    cases hf with
    | recv sample' rest' hl' =>
      obtain ⟨rfl, rfl⟩ : sample = sample' ∧ rest = rest' := by simpa [hl] using hl'
      exact h.receive sample
  | serve tick rest hr he =>
    obtain rfl : f' = f := hf
    exact h.snapshot tick f'.shared.hub.latency
  | collectorEnd hl hw he =>
    obtain rfl : f' = f := hf
    exact ⟨h.stream, h.hist, h.perSec, h.windows⟩
  | shutdown timedOut ho => exact h.fleet hf (by simp)
  | grace i timedOut ho => exact h.fleet hf (by simp)
  | _ =>
    obtain rfl : f' = f := hf
    exact h

theorem partitioned_of_runs {H : Type} {serde : Serde} {hdr : Hdr H} {cfg : TrialConfig}
    {db₀ : Db Entry} {nWorkers : Nat} {t : Trial H}
    (h : Machine.Runs (Trial.step serde hdr) ⟨db₀, runDrainTrial hdr cfg nWorkers⟩ t) :
    ∃ d, t.phase.tasks = .drain cfg d ∧
      Partitioned hdr t.phase.hub.ledger.received d.collector :=
  drain_invariant (P := fun f d => Partitioned hdr f.shared.hub.ledger.received d.collector)
    (fun hp hm ho => hp.fleet hm ho.ne_recv) (fun hp hm hf => hp.drain hm hf) h rfl (.new hdr)

theorem received_eq_sent {H : Type} {serde : Serde} {hdr : Hdr H} {cfg : TrialConfig}
    {db₀ : Db Entry} {nWorkers : Nat} {t : Trial H} {d : DrainTasks H}
    (h : Machine.Runs (Trial.step serde hdr) ⟨db₀, runDrainTrial hdr cfg nWorkers⟩ t)
    (hd : t.phase.tasks = .drain cfg d) (he : d.collector.ended = true) :
    t.phase.hub.ledger.received = t.phase.hub.ledger.sent := by
  obtain ⟨e, hd', hconc⟩ := concluded_of_runs h
  cases hd'.symm.trans hd
  have hchannel := (balanced_of_reach nWorkers rfl h).channel
  have hempty : t.fleet.shared.hub.latency = [] := (hconc.ended he).2
  rw [hempty, List.append_nil] at hchannel
  exact hchannel

/-- For every sequence of messages and requests, and in every reachable state of a
trial, the windows cut the processed messages into consecutive pieces. The
collector ends with every message processed. -/
theorem collector_partitions {H : Type} {serde : Serde} {hdr : Hdr H} {cfg : TrialConfig}
    {db₀ : Db Entry} {nWorkers : Nat} {t : Trial H} {d : DrainTasks H}
    (h : Machine.Runs (Trial.step serde hdr) ⟨db₀, runDrainTrial hdr cfg nWorkers⟩ t)
    (hd : t.phase.tasks = .drain cfg d) :
    (∀ events : List CollectorEvent,
      let c := events.foldl (Collector.handle hdr) (.new hdr)
      Partitioned hdr (events.flatMap CollectorEvent.samples) c ∧
      hdr.samples c.hist =
        (c.windows.map (fun w => hdr.samples w.hist)).sum + hdr.samples c.perSecHist) ∧
    Partitioned hdr t.phase.hub.ledger.received d.collector ∧
    hdr.samples d.collector.hist = (d.collector.windows.map (fun w => hdr.samples w.hist)).sum +
      hdr.samples d.collector.perSecHist ∧
    t.phase.hub.ledger.received ++ t.phase.hub.latency = t.phase.hub.ledger.sent ∧
    (d.collector.ended = true → t.phase.hub.ledger.received = t.phase.hub.ledger.sent) := by
  obtain ⟨e, he, hp⟩ := partitioned_of_runs h
  cases he.symm.trans hd
  refine ⟨fun events => ?_, hp, hp.union,
    (balanced_of_reach nWorkers rfl h).channel, received_eq_sent h hd⟩
  have hevents := (Partitioned.new hdr).handleAll events
  rw [List.nil_append] at hevents
  exact ⟨hevents, hevents.union⟩

/-- One message in the window handed out, one in the current window. -/
theorem collector_partitions_two_windows : ∃ (t : Trial (List Nat)) (d : DrainTasks (List Nat)),
    t.phase.tasks = .drain ⟨queueKeys ["default"], 2, []⟩ d ∧
    d.collector.windows.map Window.hist = [[4]] ∧ d.collector.perSecHist = [8] ∧
    Hdr.bucketed.samples d.collector.hist =
      (d.collector.windows.map (fun w => Hdr.bucketed.samples w.hist)).sum +
        Hdr.bucketed.samples d.collector.perSecHist := by
  obtain ⟨t, hrun, hout⟩ : ∃ t : Trial (List Nat),
      Machine.Runs (Trial.step (.envelopes [(0, 1000), (1, 1000)]) Hdr.bucketed)
        ⟨twoJobs, runDrainTrial Hdr.bucketed ⟨queueKeys ["default"], 2, []⟩ 1⟩ t ∧
      t.phase.tasks.drainTasks.map (fun d =>
        (d.collector.windows.map Window.hist, d.collector.perSecHist)) = some ([[4]], [8]) :=
    ⟨_, Machine.runs_get ([.worker 0 .start, .worker 0 .check, .worker 0 .issue,
      .worker 0 .exec, .worker 0 .receive, .worker 0 (.record (some 5000)), .worker 0 .count,
      .worker 0 .signal, .drain .recv, .drain .wake, .drain .tick, .drain .tickErrors,
      .drain .request, .drain .serve, .worker 0 .check, .worker 0 .issue, .worker 0 .exec,
      .worker 0 .receive, .worker 0 (.record (some 9000)), .drain .recv]) (by decide +kernel), by decide +kernel⟩
  obtain ⟨d, hd, _⟩ := concluded_of_runs hrun
  simp only [hd, Tasks.drainTasks, Option.map_some, Option.some.injEq, Prod.mk.injEq] at hout
  exact ⟨t, d, hd, hout.1, hout.2, (collector_partitions hrun hd).2.2.1⟩

structure Decoded (serde : Serde) (f : Fleet) : Prop where
  sent : ∀ s ∈ f.shared.hub.ledger.sent, s.us = latencyUs s.nowNs s.enqueuedAtNs ∧
    decodedAtNs serde s.job = some s.enqueuedAtNs
  rejected : ∀ e ∈ f.shared.hub.ledger.rejected, decodedAtNs serde e = none

theorem Decoded.step {serde : Serde} {pw : PollWorker} {f f' : Fleet} {a : FleetAct}
    (hf : Decoded serde f) (h : FleetMove serde pw f a f') : Decoded serde f' := by
  cases h with
  | worker i a w w' s' hw hm =>
    cases hm with
    | record clock e sample hpc hr =>
      refine ⟨fun s hs => ?_, hf.rejected⟩
      rcases List.mem_append.mp hs with hs | hs
      · exact hf.sent s hs
      · obtain ⟨hj, hus, hat⟩ := recordJob_some hr
        rw [List.mem_singleton.mp hs, hj]
        exact ⟨hus, hat⟩
    | reject clock e hpc hr =>
      refine ⟨hf.sent, fun e' he => ?_⟩
      rcases List.mem_append.mp he with he | he
      · exact hf.rejected e' he
      · rw [List.mem_singleton.mp he]
        exact recordJob_none hr
    | _ => exact ⟨hf.sent, hf.rejected⟩
  | _ => exact ⟨hf.sent, hf.rejected⟩

theorem decoded_of_reach {H : Type} {serde : Serde} {hdr : Hdr H} {db₀ : Db Entry} {p₀ : Phase H}
    {t : Trial H} (nWorkers : Nat) (hnew : p₀.fleet db₀ = .new db₀ nWorkers)
    (h : Machine.Runs (Trial.step serde hdr) ⟨db₀, p₀⟩ t) : Decoded serde t.fleet := by
  have hstart : Decoded serde (p₀.fleet db₀) := by
    rw [hnew]
    exact ⟨fun s hs => by simp [Fleet.new, Hub.new] at hs,
      fun e he => by simp [Fleet.new, Hub.new] at he⟩
  exact (fleet_invariant (fun hf hm _ => hf.step hm) h hstart).2

theorem card_accepted_le {H : Type} (hdr : Hdr H) (ss : List Sample) :
    Multiset.card (total (accepted hdr) ss) ≤ ss.length := by
  induction ss with
  | nil => simp
  | cons s ss ih =>
    have hone : Multiset.card (accepted hdr s) ≤ 1 := by
      unfold accepted
      split <;> simp
    simp only [total_cons, Multiset.card_add, List.length_cons]
    omega

theorem card_accepted_eq_iff {H : Type} (hdr : Hdr H) (ss : List Sample) :
    Multiset.card (total (accepted hdr) ss) = ss.length ↔
      ∀ s ∈ ss, max s.us 1 ≤ hdr.trackable := by
  induction ss with
  | nil => simp
  | cons s ss ih =>
    have hle := card_accepted_le hdr ss
    simp only [total_cons, Multiset.card_add, List.length_cons, List.forall_mem_cons, ← ih,
      accepted]
    split <;> rename_i hs <;> simp [hs] <;> omega

theorem mem_accepted {H : Type} {hdr : Hdr H} {ss : List Sample} {s : Sample} (hs : s ∈ ss)
    (hle : max s.us 1 ≤ hdr.trackable) : hdr.round (max s.us 1) ∈ total (accepted hdr) ss := by
  induction ss with
  | nil => simp at hs
  | cons s' ss ih =>
    rw [total_cons, Multiset.mem_add]
    rcases List.mem_cons.mp hs with rfl | hs
    · left
      simp [accepted, hle]
    · exact .inr (ih hs)

/-- The report counts every decoded job, and its maximum bounds every latency,
exactly when no job was decoded later than the histogram can track. -/
theorem latency_report_complete_iff {H : Type} {serde : Serde} {hdr : Hdr H} {cfg : TrialConfig}
    {db₀ : Db Entry} {nWorkers : Nat} {t : Trial H} {r : TrialResult}
    (h : Machine.Runs (Trial.step serde hdr) ⟨db₀, runDrainTrial hdr cfg nWorkers⟩ t)
    (hr : t.phase.tasks.returned = some r) :
    (r.latency.totalCount = r.totalJobs - t.phase.hub.ledger.rejected.length ∧
      ∀ s ∈ t.phase.hub.ledger.sent, s.us ≤ r.latency.max) ↔
    ∀ s ∈ t.phase.hub.ledger.sent,
      s.nowNs < s.enqueuedAtNs + (hdr.trackable + 1) * 1000 := by
  obtain ⟨d, hd, hconc⟩ := concluded_of_runs h
  obtain ⟨d', hd', hpart⟩ := partitioned_of_runs h
  cases hd'.symm.trans hd
  rw [hd, Tasks.returned_drain] at hr
  obtain ⟨he, htotal, _, hlatency⟩ := hconc.finished r hr
  have hjobs : r.totalJobs =
      t.phase.hub.ledger.sent.length + t.phase.hub.ledger.rejected.length :=
    htotal.trans (completed_of_ended (Trial.amid_of_reach h) hd he)
  have hhist : hdr.samples d.collector.hist = total (accepted hdr) t.phase.hub.ledger.sent := by
    rw [← received_eq_sent h hd he]
    exact hpart.hist
  have hdecoded := (decoded_of_reach nWorkers rfl h).sent
  have hcond : ∀ s ∈ t.phase.hub.ledger.sent, max s.us 1 ≤ hdr.trackable ↔
      s.nowNs < s.enqueuedAtNs + (hdr.trackable + 1) * 1000 := by
    intro s hs
    have hpos := latencyUs_pos s.nowNs s.enqueuedAtNs
    have htrack : 1 ≤ hdr.trackable := by have := hdr.trackable_ge; omega
    rw [← latencyUs_le_iff htrack, (hdecoded s hs).1, max_eq_left hpos]
  rw [← forall₂_congr hcond, ← card_accepted_eq_iff, ← hhist, hjobs, Nat.add_sub_cancel, hlatency,
    LatencyStats.totalCount_fromHistogram]
  refine ⟨fun hall => hall.1, fun hcount => ⟨hcount, fun s hs => ?_⟩⟩
  rw [hhist, card_accepted_eq_iff] at hcount
  have hmem := mem_accepted hs (hcount s hs)
  rw [← hhist] at hmem
  calc s.us ≤ max s.us 1 := Nat.le_max_left _ _
    _ ≤ hdr.round (max s.us 1) := hdr.le_round _
    _ ≤ (LatencyStats.fromHistogram hdr d.collector.hist).max :=
      LatencyStats.le_max_fromHistogram hdr hmem

/-- Two jobs decoded within microseconds of their stamps. -/
theorem latency_report_two_jobs : ∃ (t : Trial (List Nat)) (r : TrialResult),
    t.phase.tasks.returned = some r ∧
    r.latency.totalCount = r.totalJobs - t.phase.hub.ledger.rejected.length ∧
    ∀ s ∈ t.phase.hub.ledger.sent, s.us ≤ r.latency.max := by
  obtain ⟨t, hrun, hret, hsent⟩ : ∃ t : Trial (List Nat),
      Machine.Runs (Trial.step (.envelopes [(0, 1000), (1, 1000)]) Hdr.bucketed)
        ⟨twoJobs, runDrainTrial Hdr.bucketed ⟨queueKeys ["default"], 2, []⟩ 1⟩ t ∧
      t.phase.tasks.returned.isSome = true ∧
      ∀ s ∈ t.phase.hub.ledger.sent, s.nowNs < s.enqueuedAtNs + (67108863 + 1) * 1000 :=
    ⟨_, Machine.runs_get (drainTwoJobs 9000) (by decide +kernel), by decide +kernel,
      by decide +kernel⟩
  obtain ⟨r, hr⟩ := Option.isSome_iff_exists.mp hret
  exact ⟨t, r, hr, (latency_report_complete_iff hrun hr).mpr hsent⟩

/-- A job decoded 80 s after its stamp is counted and left out of the report. -/
theorem latency_report_drops_late_job : ∃ (t : Trial (List Nat)) (r : TrialResult),
    Filled (.envelopes [(0, 1000), (1, 1000)]) (fun _ => some 1000) 0 ["default"] 2 twoJobs ∧
    Machine.Runs (Trial.step (.envelopes [(0, 1000), (1, 1000)]) Hdr.bucketed)
      ⟨twoJobs, runDrainTrial Hdr.bucketed ⟨queueKeys ["default"], 2, []⟩ 1⟩ t ∧
    t.phase.tasks.returned = some r ∧ r.timedOut = false ∧
    r.latency.totalCount ≠ r.totalJobs - t.phase.hub.ledger.rejected.length ∧
    ¬ ∀ s ∈ t.phase.hub.ledger.sent, s.us ≤ r.latency.max := by
  obtain ⟨t, hrun, hret, hfalse⟩ : ∃ t : Trial (List Nat),
      Machine.Runs (Trial.step (.envelopes [(0, 1000), (1, 1000)]) Hdr.bucketed)
        ⟨twoJobs, runDrainTrial Hdr.bucketed ⟨queueKeys ["default"], 2, []⟩ 1⟩ t ∧
      t.phase.tasks.returned.isSome = true ∧ ∀ r ∈ t.phase.tasks.returned, r.timedOut = false ∧
        r.latency.totalCount ≠ r.totalJobs - t.phase.hub.ledger.rejected.length ∧
        ¬ ∀ s ∈ t.phase.hub.ledger.sent, s.us ≤ r.latency.max :=
    ⟨_, Machine.runs_get (drainTwoJobs 80000001000) (by decide +kernel), by decide +kernel,
      by decide +kernel⟩
  obtain ⟨r, hr⟩ := Option.isSome_iff_exists.mp hret
  exact ⟨t, r, twoJobs_filled, hrun, hr, hfalse r hr⟩

end ResqueBench
