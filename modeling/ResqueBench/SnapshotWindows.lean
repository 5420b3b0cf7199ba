import ResqueBench.LatencyReport
import ResqueBench.Conservation

/-! Per-second windows against the throughput of the same tick. A window covers
every job its tick counted, except for samples the collector had still queued. A
tick without an answer lacks every sample that the earlier windows do not have. -/

namespace ResqueBench

open Redis Threads

/-- The monitor and the collector exchange one request at a time, so the windows
taken are the windows handed out and are numbered like the ticks. -/
def InStep {H : Type} (d : DrainTasks H) : Prop :=
  match d.monitor.pc, d.monitor.answer with
  | .sleeping, answer | .woken, answer => answer = none ∧ d.monitor.windows = d.collector.windows ∧
      d.collector.windows.length ≤ d.monitor.ticks.length ∧
      (d.collector.ended = false →
        d.requests = [] ∧ d.monitor.ticks.length = d.collector.windows.length)
  | .errors, answer | .request, answer =>
      answer = none ∧ d.monitor.windows = d.collector.windows ∧
      d.collector.windows.length < d.monitor.ticks.length ∧
      (d.collector.ended = false →
        d.requests = [] ∧ d.monitor.ticks.length = d.collector.windows.length + 1)
  | .awaiting, none => d.monitor.windows = d.collector.windows ∧
      d.requests = [d.collector.windows.length] ∧
      d.monitor.ticks.length = d.collector.windows.length + 1
  | .awaiting, some window => d.collector.windows = d.monitor.windows ++ [window] ∧
      d.collector.windows.length ≤ d.monitor.ticks.length ∧
      (d.collector.ended = false →
        d.requests = [] ∧ d.monitor.ticks.length = d.collector.windows.length)
  | .dropped, _ => d.monitor.windows <+: d.collector.windows ∧
      d.collector.windows.length ≤ d.monitor.ticks.length ∧
      (d.collector.ended = false → d.requests = [] ∨
        d.requests = [d.collector.windows.length] ∧
          d.collector.windows.length < d.monitor.ticks.length)

theorem InStep.windows {H : Type} {d : DrainTasks H} (h : InStep d) :
    d.monitor.windows <+: d.collector.windows ∧
      d.collector.windows.length ≤ d.monitor.ticks.length := by
  unfold InStep at h
  split at h
  · exact ⟨h.2.1 ▸ List.prefix_rfl, h.2.2.1⟩
  · exact ⟨h.2.1 ▸ List.prefix_rfl, h.2.2.1⟩
  · exact ⟨h.2.1 ▸ List.prefix_rfl, h.2.2.1.le⟩
  · exact ⟨h.2.1 ▸ List.prefix_rfl, h.2.2.1.le⟩
  · exact ⟨h.1 ▸ List.prefix_rfl, by omega⟩
  · exact ⟨h.1 ▸ List.prefix_append _ _, h.2.1⟩
  · exact ⟨h.1, h.2.1⟩

theorem InStep.served {H : Type} {d : DrainTasks H} (h : InStep d) {tick : Nat} {rest : List Nat}
    (hr : d.requests = tick :: rest) (he : d.collector.ended = false) :
    tick = d.collector.windows.length ∧ rest = [] ∧
      d.collector.windows.length < d.monitor.ticks.length ∧
      (d.monitor.pc = .awaiting ∧ d.monitor.answer = none ∧
          d.monitor.windows = d.collector.windows ∧
          d.monitor.ticks.length = d.collector.windows.length + 1 ∨
        d.monitor.pc = .dropped) := by
  unfold InStep at h
  split at h
  · simp [h.2.2.2 he] at hr
  · simp [h.2.2.2 he] at hr
  · simp [h.2.2.2 he] at hr
  · simp [h.2.2.2 he] at hr
  · rename_i hpc ha
    rw [h.2.1, List.cons.injEq] at hr
    exact ⟨hr.1.symm, hr.2.symm, by omega, .inl ⟨hpc, ha, h.1, h.2.2⟩⟩
  · simp [h.2.2 he] at hr
  · rename_i hpc
    rcases h.2.2 he with h0 | ⟨h1, hlt⟩
    · simp [h0] at hr
    · rw [h1, List.cons.injEq] at hr
      exact ⟨hr.1.symm, hr.2.symm, hlt, .inr hpc⟩

theorem InStep.step {H : Type} {hdr : Hdr H} {cfg : TrialConfig} {f : Fleet} {d d' : DrainTasks H}
    {a : DrainAct} {act : Option FleetAct} (h : InStep d) (hm : DrainMove hdr cfg f d a act d') :
    InStep d' := by
  cases hm with
  | serve tick rest hr he =>
    obtain ⟨rfl, rfl, hlt, hpc⟩ := h.served hr he
    rcases hpc with ⟨hpc, ha, hw, hticks⟩ | hpc
    · simp [InStep, hpc, Collector.snapshot, hw, he, hticks]
    · simp only [InStep, hpc] at h
      simp only [InStep, hpc, Collector.snapshot, he, reduceCtorEq, if_false, List.length_append,
        List.length_singleton]
      exact ⟨h.1.trans (List.prefix_append _ _), hlt, fun _ => .inl trivial⟩
  | collectorEnd hl hw he =>
    unfold InStep at h ⊢
    split at h <;> simp_all
  | wake hpc ha =>
    simp only [InStep, hpc] at h
    exact h
  | tick hpc =>
    simp only [InStep, hpc] at h
    simp only [InStep, List.length_append, List.length_singleton]
    exact ⟨h.1, h.2.1, by omega, fun he => ⟨(h.2.2.2 he).1, by have := (h.2.2.2 he).2; omega⟩⟩
  | tickErrors hpc =>
    simp only [InStep, hpc] at h
    exact h
  | request hpc he =>
    simp only [InStep, hpc] at h
    obtain ⟨hr, hticks⟩ := h.2.2.2 he
    simp [InStep, hr, hticks, h.2.1]
  | requestClosed hpc he =>
    simp only [InStep, hpc] at h
    exact ⟨h.1, h.2.1, h.2.2.1.le, fun hf => by simp [he] at hf⟩
  | answer window hpc ha =>
    simp only [InStep, hpc, ha] at h
    exact ⟨rfl, h.1.symm, h.2.1, h.2.2⟩
  | noAnswer hpc he ha =>
    simp only [InStep, hpc, ha] at h
    exact ⟨ha, h.1, by dsimp only; omega, fun hf => by simp [he] at hf⟩
  | monitorDrop hpc ha =>
    have hw := h.windows
    refine ⟨hw.1, hw.2, fun he => ?_⟩
    rcases hpc with hpc | hpc
    · simp only [InStep, hpc] at h
      exact .inl (h.2.2.2 he).1
    · cases hans : d.monitor.answer with
      | none =>
        simp only [InStep, hpc, hans] at h
        exact .inr ⟨h.2.1, by dsimp only; omega⟩
      | some window =>
        simp only [InStep, hpc, hans] at h
        exact .inl (h.2.2 he).1
  | _ => exact h

theorem FleetMove.grows {serde : Serde} {pw : PollWorker} {f f' : Fleet} {a : FleetAct}
    (h : FleetMove serde pw f a f') :
    f.shared.hub.ledger.counted <+: f'.shared.hub.ledger.counted ∧
      f.shared.hub.ledger.sent <+: f'.shared.hub.ledger.sent := by
  cases h with
  | worker i a w w' s' hw hm =>
    cases hm <;> simp [failedLpop, droppedTask]
  | _ => exact ⟨List.prefix_rfl, List.prefix_rfl⟩

/-- What each tick read, and what the throughput series makes of it. -/
structure TickLog {H : Type} (f : Fleet) (d : DrainTasks H) : Prop where
  ticks : ∀ l ∈ d.monitor.ticks, l <+: f.shared.hub.ledger.counted
  prev : d.monitor.prevCompleted = d.monitor.throughput.sum
  prevLe : d.monitor.prevCompleted ≤ f.shared.hub.ledger.counted.length
  length : d.monitor.throughput.length = d.monitor.ticks.length
  sums : ∀ (i : Nat) (l : List Entry), d.monitor.ticks[i]? = some l →
    (d.monitor.throughput.take (i + 1)).sum = l.length

theorem TickLog.fleet {H : Type} {serde : Serde} {pw : PollWorker} {f f' : Fleet}
    {d : DrainTasks H} {a : FleetAct} (h : TickLog f d) (hm : FleetMove serde pw f a f') :
    TickLog f' d where
  ticks l hl := (h.ticks l hl).trans hm.grows.1
  prev := h.prev
  prevLe := h.prevLe.trans hm.grows.1.length_le
  length := h.length
  sums := h.sums

theorem TickLog.tick {H : Type} {f : Fleet} {d : DrainTasks H} (h : TickLog f d)
    (hc : f.shared.hub.metrics.completed = f.shared.hub.ledger.counted.length) :
    TickLog f { d with monitor := { d.monitor with
      pc := .errors
      prevCompleted := f.shared.hub.metrics.completed
      throughput := d.monitor.throughput ++
        [f.shared.hub.metrics.completed - d.monitor.prevCompleted]
      ticks := d.monitor.ticks ++ [f.shared.hub.ledger.counted] } } := by
  have hprev := h.prev
  have hle := h.prevLe
  have hlen := h.length
  refine ⟨fun l hl => ?_, ?_, hc.le, by simp [hlen], fun i l hl => ?_⟩
  · rcases List.mem_append.mp hl with hl | hl
    · exact h.ticks l hl
    · rw [List.mem_singleton.mp hl]
  · simp only [List.sum_append, List.sum_singleton]
    omega
  · dsimp only at hl ⊢
    by_cases hi : i < d.monitor.ticks.length
    · rw [List.getElem?_append_left hi] at hl
      rw [List.take_append_of_le_length (by omega)]
      exact h.sums i l hl
    · have hi' : i = d.monitor.ticks.length := by
        have hlt := (List.getElem?_eq_some_iff.mp hl).1
        simp only [List.length_append, List.length_singleton] at hlt
        omega
      subst hi'
      obtain rfl : f.shared.hub.ledger.counted = l := by simpa using hl
      rw [List.take_of_length_le (by simp [hlen])]
      simp only [List.sum_append, List.sum_singleton]
      omega

def takenBy {H : Type} (windows : List (Window H)) (i : Nat) : List Sample :=
  (windows.take (i + 1)).flatMap Window.taken

/-- When a window was handed out, the samples taken by then and the queued ones
were all that had been sent, and all jobs its tick counted were among them. -/
def Covered {H : Type} (serde : Serde) (f : Fleet) (d : DrainTasks H) : Prop :=
  ∀ (j : Nat) (w : Window H), d.collector.windows[j]? = some w →
    takenBy d.collector.windows j ++ w.backlog <+: f.shared.hub.ledger.sent ∧
    ∀ l, d.monitor.ticks[j]? = some l → ∀ e ∈ l, decodedAtNs serde e ≠ none →
      ∃ s ∈ takenBy d.collector.windows j ++ w.backlog, s.job = e

theorem Covered.fleet {H : Type} {serde : Serde} {pw : PollWorker} {f f' : Fleet}
    {d : DrainTasks H} {a : FleetAct} (h : Covered serde f d) (hm : FleetMove serde pw f a f') :
    Covered serde f' d :=
  fun j w hw => ⟨(h j w hw).1.trans hm.grows.2, (h j w hw).2⟩

theorem Balanced.decided_of_counted {f : Fleet} (h : Balanced f) {e : Entry}
    (he : e ∈ f.shared.hub.ledger.counted) :
    (∃ s ∈ f.shared.hub.ledger.sent, s.job = e) ∨ e ∈ f.shared.hub.ledger.rejected := by
  have hmem : e ∈ ((f.shared.hub.ledger.sent.map Sample.job : List Entry) : Multiset Entry) +
      f.shared.hub.ledger.rejected := by
    rw [h.recorded]
    exact Multiset.mem_add.mpr (.inr he)
  rcases Multiset.mem_add.mp hmem with hs | hr
  · exact .inl (List.mem_map.mp hs)
  · exact .inr hr

theorem sent_of_counted {serde : Serde} {f : Fleet} (hb : Balanced f) (hdec : Decoded serde f)
    {e : Entry} (he : e ∈ f.shared.hub.ledger.counted) (hv : decodedAtNs serde e ≠ none) :
    ∃ s ∈ f.shared.hub.ledger.sent, s.job = e := by
  rcases hb.decided_of_counted he with hs | hr
  · exact hs
  · exact absurd (hdec.rejected e hr) hv

theorem rejected_of_counted {serde : Serde} {f : Fleet} (hb : Balanced f) (hdec : Decoded serde f)
    {e : Entry} (he : e ∈ f.shared.hub.ledger.counted) (hv : decodedAtNs serde e = none) :
    e ∈ f.shared.hub.ledger.rejected := by
  rcases hb.decided_of_counted he with ⟨s, hsent, rfl⟩ | hr
  · simp [(hdec.sent s hsent).2] at hv
  · exact hr

theorem Covered.serve {H : Type} {serde : Serde} {hdr : Hdr H} {f : Fleet} {d : DrainTasks H}
    {tick : Nat} {rest : List Nat} {m : Monitor H} (h : Covered serde f d)
    (hb : Balanced f) (hdec : Decoded serde f) (hlog : TickLog f d)
    (hp : Partitioned hdr f.shared.hub.ledger.received d.collector)
    (hm : m.ticks = d.monitor.ticks) :
    Covered serde f { d with
      collector := (d.collector.snapshot hdr tick f.shared.hub.latency).2
      requests := rest
      monitor := m } := by
  intro j w hw
  simp only [Collector.snapshot] at hw ⊢
  by_cases hj : j < d.collector.windows.length
  · rw [List.getElem?_append_left hj] at hw
    rw [takenBy, List.take_append_of_le_length hj, hm]
    exact h j w hw
  · have hj' : j = d.collector.windows.length := by
      have hlt := (List.getElem?_eq_some_iff.mp hw).1
      simp only [List.length_append, List.length_singleton] at hlt
      omega
    subst hj'
    have hall : takenBy (d.collector.windows ++ [⟨tick, d.collector.perSecHist,
        d.collector.current, f.shared.hub.latency⟩]) d.collector.windows.length ++
          f.shared.hub.latency = f.shared.hub.ledger.sent := by
      rw [takenBy, List.take_of_length_le (by simp), ← hb.channel, ← hp.stream]
      simp
    obtain rfl : ⟨tick, d.collector.perSecHist, d.collector.current, f.shared.hub.latency⟩ = w := by
      simpa using hw
    rw [hall]
    refine ⟨List.prefix_rfl, fun l hl e he hv => ?_⟩
    rw [hm] at hl
    have hcounted := (hlog.ticks l (List.mem_of_getElem? hl)).subset he
    exact sent_of_counted hb hdec hcounted hv

structure Aligned {H : Type} (serde : Serde) (hdr : Hdr H) (f : Fleet) (d : DrainTasks H) :
    Prop where
  balanced : Balanced f
  decoded : Decoded serde f
  partitioned : Partitioned hdr f.shared.hub.ledger.received d.collector
  inStep : InStep d
  log : TickLog f d
  covered : Covered serde f d

theorem Aligned.fleet {H : Type} {serde : Serde} {pw : PollWorker} {hdr : Hdr H} {f f' : Fleet}
    {d : DrainTasks H} {a : FleetAct} (h : Aligned serde hdr f d)
    (hm : FleetMove serde pw f a f') (ha : a ≠ .recv) : Aligned serde hdr f' d where
  balanced := h.balanced.step hm
  decoded := h.decoded.step hm
  partitioned := h.partitioned.fleet hm ha
  inStep := h.inStep
  log := h.log.fleet hm
  covered := h.covered.fleet hm

theorem TickLog.drain {H : Type} {serde : Serde} {pw : PollWorker} {hdr : Hdr H}
    {cfg : TrialConfig} {f f' : Fleet} {d d' : DrainTasks H} {a : DrainAct}
    {act : Option FleetAct} (h : TickLog f d) (hb : Balanced f)
    (hm : DrainMove hdr cfg f d a act d') (hf : FleetStutter serde pw f act f') :
    TickLog f' d' := by
  have hkeep : TickLog f' d := hf.keep (P := fun f => TickLog f d) h (fun _ hfm => h.fleet hfm)
  cases hm with
  | tick hpc =>
    obtain rfl : f' = f := hf
    exact h.tick hb.completed
  | serve tick rest hr he =>
    dsimp only
    split <;> exact ⟨hkeep.ticks, hkeep.prev, hkeep.prevLe, hkeep.length, hkeep.sums⟩
  | _ => exact ⟨hkeep.ticks, hkeep.prev, hkeep.prevLe, hkeep.length, hkeep.sums⟩

theorem Covered.drain {H : Type} {serde : Serde} {pw : PollWorker} {hdr : Hdr H}
    {cfg : TrialConfig} {f f' : Fleet} {d d' : DrainTasks H} {a : DrainAct}
    {act : Option FleetAct} (h : Aligned serde hdr f d)
    (hm : DrainMove hdr cfg f d a act d') (hf : FleetStutter serde pw f act f') :
    Covered serde f' d' := by
  have hkeep : Covered serde f' d :=
    hf.keep (P := fun f => Covered serde f d) h.covered (fun _ hfm => h.covered.fleet hfm)
  cases hm with
  | tick hpc =>
    intro j w hw
    have hlt : j < d.monitor.ticks.length :=
      (List.getElem?_eq_some_iff.mp hw).1.trans_le h.inStep.windows.2
    refine ⟨(hkeep j w hw).1, fun l hl => (hkeep j w hw).2 l ?_⟩
    rwa [List.getElem?_append_left hlt] at hl
  | serve tick rest hr he =>
    obtain rfl : f' = f := hf
    refine h.covered.serve h.balanced h.decoded h.log h.partitioned ?_
    split <;> rfl
  | _ => exact hkeep

theorem Aligned.drain {H : Type} {serde : Serde} {pw : PollWorker} {hdr : Hdr H}
    {cfg : TrialConfig} {f f' : Fleet} {d d' : DrainTasks H} {a : DrainAct}
    {act : Option FleetAct} (h : Aligned serde hdr f d)
    (hm : DrainMove hdr cfg f d a act d') (hf : FleetStutter serde pw f act f') :
    Aligned serde hdr f' d' where
  balanced := hf.keep h.balanced (fun _ hfm => h.balanced.step hfm)
  decoded := hf.keep h.decoded (fun _ hfm => h.decoded.step hfm)
  partitioned := h.partitioned.drain hm hf
  inStep := h.inStep.step hm
  log := h.log.drain h.balanced hm hf
  covered := Covered.drain h hm hf

theorem aligned_of_runs {H : Type} {serde : Serde} {hdr : Hdr H} {cfg : TrialConfig}
    {db₀ : Db Entry} {nWorkers : Nat} {t : Trial H}
    (h : Machine.Runs (Trial.step serde hdr) ⟨db₀, runDrainTrial hdr cfg nWorkers⟩ t) :
    ∃ d, t.phase.tasks = .drain cfg d ∧ Aligned serde hdr t.fleet d := by
  refine drain_invariant (P := Aligned serde hdr) (fun hp hm ho => hp.fleet hm ho.ne_recv)
    (fun hp hm hf => hp.drain hm hf) h rfl ⟨Balanced.new db₀ nWorkers, ?_, .new hdr, ?_, ?_, ?_⟩
  · exact ⟨fun s hs => by simp [Trial.fleet, Phase.fleet, runDrainTrial, Hub.new] at hs,
      fun e he => by simp [Trial.fleet, Phase.fleet, runDrainTrial, Hub.new] at he⟩
  · simp [InStep, DrainTasks.new, Monitor.new, Collector.new]
  · constructor <;> simp [DrainTasks.new, Monitor.new]
  · intro j w hw
    simp [DrainTasks.new, Collector.new] at hw

theorem ledger_nodup {keys : List String} {db₀ : Db Entry} {f : Fleet} (h : Balanced f)
    (hd : Drained keys db₀ f) (hdistinct : (queued keys db₀).Nodup) :
    (f.shared.hub.ledger.sent.map Sample.job ++ f.shared.hub.ledger.rejected).Nodup ∧
      f.shared.hub.ledger.counted.Nodup := by
  have hremoved : (f.shared.hub.ledger.removed : Multiset Entry).Nodup := by
    have hle : (f.shared.hub.ledger.removed : Multiset Entry) ≤ queued keys db₀ := by
      rw [← hd.stock]
      exact Multiset.le_add_left _ _
    exact Multiset.nodup_of_le hle hdistinct
  have hdecided := h.decided_le.trans h.carried_le
  have hcounted := Balanced.counted_le.trans h.carried_le
  rw [Multiset.coe_add] at hdecided
  exact ⟨Multiset.coe_nodup.mp (Multiset.nodup_of_le hdecided hremoved),
    Multiset.coe_nodup.mp (Multiset.nodup_of_le hcounted hremoved)⟩

/-- A tick's jobs have their samples among the taken ones exactly when none of
them is missed: a missed sample of a covered job would have been sent twice. -/
theorem covered_iff_missed {serde : Serde} {f : Fleet} {taken missed : List Sample}
    {l : List Entry} (hdec : Decoded serde f)
    (hnd : (f.shared.hub.ledger.sent.map Sample.job ++ f.shared.hub.ledger.rejected).Nodup)
    (hsent : taken ++ missed <+: f.shared.hub.ledger.sent)
    (hcover : ∀ e ∈ l, decodedAtNs serde e ≠ none → ∃ s ∈ taken ++ missed, s.job = e) :
    (∀ e ∈ l, decodedAtNs serde e ≠ none → ∃ s ∈ taken, s.job = e) ↔
      ∀ s ∈ missed, s.job ∉ l := by
  refine ⟨fun hall s hs hjob => ?_, fun hno e he hv => ?_⟩
  · have hssent := hsent.subset (List.mem_append_right _ hs)
    obtain ⟨s', hs', hj⟩ := hall s.job hjob (by simp [(hdec.sent s hssent).2])
    have hnd' := (List.nodup_append.mp hnd).1.sublist (hsent.sublist.map Sample.job)
    rw [List.map_append] at hnd'
    exact List.disjoint_of_nodup_append hnd' (List.mem_map.mpr ⟨s', hs', hj⟩)
      (List.mem_map_of_mem hs)
  · obtain ⟨s, hs, hj⟩ := hcover e he hv
    rcases List.mem_append.mp hs with hs | hs
    · exact ⟨s, hs, hj⟩
    · exact absurd (hj ▸ he) (hno s hs)

theorem countP_mem_of_subset {all l : List Entry} (hall : all.Nodup) (hl : l.Nodup)
    (h : l ⊆ all) : all.countP (· ∈ l) = l.length := by
  rw [List.countP_eq_length_filter]
  refine ((List.perm_ext_iff_of_nodup (hall.filter _) hl).mpr fun e => ?_).length_eq
  rw [List.mem_filter, decide_eq_true_eq]
  exact ⟨And.right, fun he => ⟨h he, he⟩⟩

/-- Each counted job is taken, missed or rejected, and only once. So the numbers
alone look right exactly when other jobs make up for the missed ones. -/
theorem length_le_taken_iff {serde : Serde} {f : Fleet} {taken missed : List Sample}
    {l : List Entry} (hb : Balanced f) (hdec : Decoded serde f)
    (hnd : (f.shared.hub.ledger.sent.map Sample.job ++ f.shared.hub.ledger.rejected).Nodup)
    (hcounted : f.shared.hub.ledger.counted.Nodup) (hl : l <+: f.shared.hub.ledger.counted)
    (hsent : taken ++ missed <+: f.shared.hub.ledger.sent)
    (hcover : ∀ e ∈ l, decodedAtNs serde e ≠ none → ∃ s ∈ taken ++ missed, s.job = e) :
    l.length ≤ taken.length + f.shared.hub.ledger.rejected.length ↔
      missed.countP (fun s => s.job ∈ l) ≤ taken.countP (fun s => s.job ∉ l) +
        f.shared.hub.ledger.rejected.countP (· ∉ l) := by
  have hsub : l ⊆ (taken ++ missed).map Sample.job ++ f.shared.hub.ledger.rejected := by
    intro e he
    by_cases hv : decodedAtNs serde e = none
    · exact List.mem_append_right _ (rejected_of_counted hb hdec (hl.subset he) hv)
    · exact List.mem_append_left _ (List.mem_map.mpr (hcover e he hv))
  have honce := hnd.sublist ((hsent.sublist.map Sample.job).append_right _)
  have hlen := countP_mem_of_subset honce (hcounted.sublist hl.sublist) hsub
  rw [List.map_append, List.countP_append, List.countP_append, List.countP_map,
    List.countP_map] at hlen
  have htaken := List.length_eq_countP_add_countP (fun s : Sample => decide (s.job ∈ l))
    (l := taken)
  have hrejected := List.length_eq_countP_add_countP (fun e => decide (e ∈ l))
    (l := f.shared.hub.ledger.rejected)
  simp only [Function.comp_def, decide_eq_true_eq] at hlen htaken hrejected
  omega

/-- The samples of a tick's jobs that its windows lack can only be here: in the
channel when the window of the tick was handed out or, where the monitor has no
such window, among those it has in no window at all. -/
def DrainTasks.missedBy {H : Type} (d : DrainTasks H) (channel : List Sample) (i : Nat) :
    List Sample :=
  match d.monitor.windows[i]? with
  | some w => w.backlog
  | none => (d.collector.windows.drop d.monitor.windows.length).flatMap Window.taken ++
      d.collector.current ++ channel

theorem Aligned.stream {H : Type} {serde : Serde} {hdr : Hdr H} {f : Fleet} {d : DrainTasks H}
    {i : Nat} {l : List Entry} (h : Aligned serde hdr f d) (hl : d.monitor.ticks[i]? = some l) :
    takenBy d.monitor.windows i ++ d.missedBy f.shared.hub.latency i <+:
        f.shared.hub.ledger.sent ∧
      ∀ e ∈ l, decodedAtNs serde e ≠ none →
        ∃ s ∈ takenBy d.monitor.windows i ++ d.missedBy f.shared.hub.latency i, s.job = e := by
  obtain ⟨rest, hrest⟩ := h.inStep.windows.1
  cases hw : d.monitor.windows[i]? with
  | some w =>
    have hlt : i < d.monitor.windows.length := (List.getElem?_eq_some_iff.mp hw).1
    have hwc : d.collector.windows[i]? = some w := by
      rw [← hrest, List.getElem?_append_left hlt, hw]
    obtain ⟨hsent, hcover⟩ := h.covered i w hwc
    have htaken : takenBy d.collector.windows i = takenBy d.monitor.windows i := by
      rw [← hrest, takenBy, List.take_append_of_le_length hlt, takenBy]
    simp only [DrainTasks.missedBy, hw]
    rw [← htaken]
    exact ⟨hsent, hcover l hl⟩
  | none =>
    have hall : takenBy d.monitor.windows i ++ d.missedBy f.shared.hub.latency i =
        f.shared.hub.ledger.sent := by
      have hlen : d.monitor.windows.length ≤ i := List.getElem?_eq_none_iff.mp hw
      rw [← h.balanced.channel, ← h.partitioned.stream, ← hrest, DrainTasks.missedBy, hw, takenBy,
        List.take_of_length_le (by omega), ← hrest]
      simp
    rw [hall]
    exact ⟨List.prefix_rfl, fun e he =>
      sent_of_counted h.balanced h.decoded ((h.log.ticks l (List.mem_of_getElem? hl)).subset he)⟩

/-- Of every tick whose throughput the monitor has pushed, answered or not: its windows
have all valid jobs that the throughput counts exactly when the missed samples are of
none of them, and their number makes up the throughput exactly when the missed ones are
no more than the surplus. Queued elements are told apart by trial and index, whatever
their payloads. -/
theorem window_covers_tick_iff {H : Type} {serde : Serde} {hdr : Hdr H} {cfg : TrialConfig}
    {db₀ : Db Entry} {nWorkers i : Nat} {t : Trial H} {d : DrainTasks H}
    (hnd : cfg.queueKeys.Nodup) (hdistinct : (queued cfg.queueKeys db₀).Nodup)
    (h : Machine.Runs (Trial.step serde hdr) ⟨db₀, runDrainTrial hdr cfg nWorkers⟩ t)
    (hd : t.phase.tasks = .drain cfg d) (hi : i < d.monitor.throughput.length) :
    ∃ l, d.monitor.ticks[i]? = some l ∧ (d.monitor.throughput.take (i + 1)).sum = l.length ∧
      ((∀ e ∈ l, decodedAtNs serde e ≠ none →
          ∃ s ∈ takenBy d.monitor.windows i, s.job = e) ↔
        ∀ s ∈ d.missedBy t.phase.hub.latency i, s.job ∉ l) ∧
      ((d.monitor.throughput.take (i + 1)).sum ≤
          (takenBy d.monitor.windows i).length + t.phase.hub.ledger.rejected.length ↔
        (d.missedBy t.phase.hub.latency i).countP (fun s => s.job ∈ l) ≤
          (takenBy d.monitor.windows i).countP (fun s => s.job ∉ l) +
            t.phase.hub.ledger.rejected.countP (· ∉ l)) := by
  obtain ⟨d', hd', ha⟩ := aligned_of_runs h
  cases hd'.symm.trans hd
  have hdrained : Drained cfg.queueKeys db₀ t.fleet :=
    (conserved_of_reach (runDrainTrial hdr cfg nWorkers) nWorkers hnd rfl h).drained
  obtain ⟨hdecidednd, hcountednd⟩ := ledger_nodup ha.balanced hdrained hdistinct
  obtain ⟨l, hl⟩ : ∃ l, d.monitor.ticks[i]? = some l :=
    ⟨_, List.getElem?_eq_getElem (ha.log.length ▸ hi)⟩
  obtain ⟨hsent, hcover⟩ := ha.stream hl
  have hsum := ha.log.sums i l hl
  refine ⟨l, hl, hsum, covered_iff_missed ha.decoded hdecidednd hsent hcover, ?_⟩
  rw [hsum]
  exact length_le_taken_iff ha.balanced ha.decoded hdecidednd hcountednd
    (ha.log.ticks l (List.mem_of_getElem? hl)) hsent hcover

/-- The collector takes the sample first, so the first window covers the first tick. -/
theorem window_covers_first_tick : ∃ (t : Trial (List Nat)) (d : DrainTasks (List Nat)),
    t.phase.tasks = .drain ⟨queueKeys ["default"], 2, []⟩ d ∧
    (d.monitor.throughput.take 1).sum = 1 ∧
    (d.monitor.throughput.take 1).sum ≤
      (takenBy d.monitor.windows 0).length + t.phase.hub.ledger.rejected.length := by
  obtain ⟨t, hrun, hout⟩ : ∃ t : Trial (List Nat),
      Machine.Runs (Trial.step (.envelopes [(0, 1000), (1, 1000)]) Hdr.bucketed)
        ⟨twoJobs, runDrainTrial Hdr.bucketed ⟨queueKeys ["default"], 2, []⟩ 1⟩ t ∧
      t.phase.tasks.drainTasks.map (fun d =>
        (d.monitor.throughput, d.monitor.windows.map Window.backlog)) = some ([1], [[]]) :=
    ⟨_, Machine.runs_get ([.worker 0 .start, .worker 0 .check, .worker 0 .issue,
      .worker 0 .exec, .worker 0 .receive, .worker 0 (.record (some 5000)), .worker 0 .count,
      .worker 0 .signal, .drain .recv, .drain .wake, .drain .tick, .drain .tickErrors,
      .drain .request, .drain .serve, .drain .answer]) (by decide +kernel), by decide +kernel⟩
  obtain ⟨d, hd, _⟩ := concluded_of_runs hrun
  simp only [hd, Tasks.drainTasks, Option.map_some, Option.some.injEq, Prod.mk.injEq] at hout
  obtain ⟨hthroughput, hwindows⟩ := hout
  obtain ⟨w, hw, hbacklog⟩ := List.map_eq_singleton_iff.mp hwindows
  have hdistinct : (queued (queueKeys ["default"]) twoJobs).Nodup := by
    rw [twoJobs_filled.queued (by decide) (by decide)]
    exact Multiset.coe_nodup.mpr (pushedJobs_nodup _ _ _ _)
  have hnone : d.missedBy t.phase.hub.latency 0 = [] := by
    simp [DrainTasks.missedBy, hw, hbacklog]
  obtain ⟨_, _, _, _, hcount⟩ := window_covers_tick_iff (i := 0) (by decide) hdistinct hrun hd
    (by simp [hthroughput])
  exact ⟨t, d, hd, by simp [hthroughput], hcount.mpr (by simp [hnone])⟩

/-- The collector answers while the sample is queued: the first tick counts a valid
job that the first window lacks. -/
theorem window_lags_first_tick : ∃ (t : Trial (List Nat)) (d : DrainTasks (List Nat)),
    Machine.Runs (Trial.step (.envelopes [(0, 1000), (1, 1000)]) Hdr.bucketed)
      ⟨twoJobs, runDrainTrial Hdr.bucketed ⟨queueKeys ["default"], 2, []⟩ 1⟩ t ∧
    t.phase.tasks = .drain ⟨queueKeys ["default"], 2, []⟩ d ∧
    d.monitor.windows.length = 1 ∧
    (¬ ∀ l, d.monitor.ticks[0]? = some l → ∀ e ∈ l,
      decodedAtNs (.envelopes [(0, 1000), (1, 1000)]) e ≠ none →
      ∃ s ∈ takenBy d.monitor.windows 0, s.job = e) ∧
    ¬ (d.monitor.throughput.take 1).sum ≤
      (takenBy d.monitor.windows 0).length + t.phase.hub.ledger.rejected.length := by
  obtain ⟨t, hrun, hrejected, hout⟩ : ∃ t : Trial (List Nat),
      Machine.Runs (Trial.step (.envelopes [(0, 1000), (1, 1000)]) Hdr.bucketed)
        ⟨twoJobs, runDrainTrial Hdr.bucketed ⟨queueKeys ["default"], 2, []⟩ 1⟩ t ∧
      t.phase.hub.ledger.rejected = [] ∧
      t.phase.tasks.drainTasks.map (fun d =>
        (d.monitor.throughput, d.monitor.windows.map Window.taken, d.monitor.ticks)) =
        some ([1], [[]], [[jobEntry (.envelopes [(0, 1000), (1, 1000)]) (fun _ => some 1000) 0 0]]) :=
    ⟨_, Machine.runs_get ([.worker 0 .start, .worker 0 .check, .worker 0 .issue,
      .worker 0 .exec, .worker 0 .receive, .worker 0 (.record (some 5000)), .worker 0 .count,
      .worker 0 .signal, .drain .wake, .drain .tick, .drain .tickErrors, .drain .request,
      .drain .serve, .drain .answer]) (by decide +kernel), by decide +kernel, by decide +kernel⟩
  obtain ⟨d, hd, _⟩ := concluded_of_runs hrun
  simp only [hd, Tasks.drainTasks, Option.map_some, Option.some.injEq, Prod.mk.injEq] at hout
  obtain ⟨hthroughput, hwindows, hticks⟩ := hout
  obtain ⟨w, hw, htaken⟩ := List.map_eq_singleton_iff.mp hwindows
  have hnone : takenBy d.monitor.windows 0 = [] := by simp [takenBy, hw, htaken]
  refine ⟨t, d, hrun, hd, by simp [hw], fun hall => ?_, by simp [hthroughput, hnone, hrejected]⟩
  obtain ⟨s, hs, _⟩ := hall _ (by rw [hticks]; rfl) _ List.mem_cons_self (by decide +kernel)
  simp [hnone] at hs

end ResqueBench
