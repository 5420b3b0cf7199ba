import ResqueBench.SnapshotWindows
import ResqueBench.Sampling

/-! The monitor's three series. Two of them are the differences of a counter between
its ticks; the third has the snapshot of the same tick, or is one tick short where
the monitor was stopped before the answer. -/

namespace ResqueBench

open Redis Threads Sampling

section Series

variable {H : Type}

theorem pushSeries_of_notMem {map : List (String × List Nat)} {name : String}
    (h : name ∉ map.map Prod.fst) (value : Nat) :
    pushSeries map name value = map ++ [(name, [value])] := by
  induction map with
  | nil => rfl
  | cons entry map ih =>
    obtain ⟨key, series⟩ := entry
    simp only [List.map_cons, List.mem_cons, not_or] at h
    rw [pushSeries, if_neg (Ne.symm h.1), ih h.2, List.cons_append]

theorem pushSeries_of_mem {map rest : List (String × List Nat)} {name : String}
    (h : name ∉ map.map Prod.fst) (series : List Nat) (value : Nat) :
    pushSeries (map ++ (name, series) :: rest) name value =
      map ++ (name, series ++ [value]) :: rest := by
  induction map with
  | nil => simp [pushSeries]
  | cons entry map ih =>
    obtain ⟨key, series'⟩ := entry
    simp only [List.map_cons, List.mem_cons, not_or] at h
    rw [List.cons_append, pushSeries, if_neg (Ne.symm h.1), ih h.2, List.cons_append]

/-- One value of each percentile for each window. -/
def latencySeries (hdr : Hdr H) (specs : List PercentileSpec) (windows : List (Window H)) :
    List (String × List Nat) :=
  if windows.isEmpty then []
  else specs.map (fun spec => (spec.name, windows.map (fun w => spec.value hdr w.hist)))

def pushAll (hdr : Hdr H) (specs : List PercentileSpec) (map : List (String × List Nat)) (hist : H) :
    List (String × List Nat) :=
  specs.foldl (fun map spec => pushSeries map spec.name (spec.value hdr hist)) map

/-- The fold over the percentiles, when pushing each of them turns what is `left` of
the map into its new entry and the rest. -/
theorem pushAll_eq (hdr : Hdr H) (hist : H) (new : PercentileSpec → List Nat)
    (left : List PercentileSpec → List (String × List Nat)) (hnil : left [] = [])
    (hpush : ∀ (map : List (String × List Nat)) (spec : PercentileSpec)
      (specs : List PercentileSpec), spec.name ∉ map.map Prod.fst →
      pushSeries (map ++ left (spec :: specs)) spec.name (spec.value hdr hist) =
        map ++ (spec.name, new spec) :: left specs)
    (done : List PercentileSpec) {specs : List PercentileSpec}
    (hnd : ((done ++ specs).map PercentileSpec.name).Nodup) :
    pushAll hdr specs (done.map (fun spec => (spec.name, new spec)) ++ left specs) hist =
      (done ++ specs).map (fun spec => (spec.name, new spec)) := by
  induction specs generalizing done with
  | nil => simp [pushAll, hnil]
  | cons spec specs ih =>
    have hnot : spec.name ∉ done.map PercentileSpec.name := by
      rw [List.map_append, List.map_cons] at hnd
      exact fun h => List.disjoint_of_nodup_append hnd h List.mem_cons_self
    have hrest := ih (done ++ [spec]) (by simpa using hnd)
    rw [pushAll, List.foldl_cons, hpush _ spec specs (by simpa using hnot)]
    simpa [pushAll] using hrest

theorem pushAll_latencySeries {hdr : Hdr H} {specs : List PercentileSpec}
    (hnd : (specs.map PercentileSpec.name).Nodup) (windows : List (Window H)) (w : Window H) :
    pushAll hdr specs (latencySeries hdr specs windows) w.hist =
      latencySeries hdr specs (windows ++ [w]) := by
  cases windows with
  | nil =>
    have hfirst := pushAll_eq hdr w.hist (fun spec => [spec.value hdr w.hist]) (fun _ => []) rfl
      (fun map spec specs hm => by simp [pushSeries_of_notMem hm]) [] hnd
    simpa [latencySeries] using hfirst
  | cons v windows =>
    let old : PercentileSpec → List Nat :=
      fun spec => (v :: windows).map (fun w => spec.value hdr w.hist)
    have hnext := pushAll_eq hdr w.hist (fun spec => old spec ++ [spec.value hdr w.hist])
      (List.map (fun spec => (spec.name, old spec))) rfl
      (fun map spec specs hm => pushSeries_of_mem hm (old spec) _) [] hnd
    simpa [latencySeries, old] using hnext

end Series

/-- No worker has ended or been told to, and there was no shutdown. -/
structure Calm (f : Fleet) : Prop where
  shutdown : f.shared.hub.shutdown = Watch.channel false
  workers : ∀ w ∈ f.workers, w.pc.isTerminal = false ∧ w.abortRequested = false ∧ w.seen = 0

theorem Calm.worker {serde : Serde} {pw : PollWorker} {f : Fleet} {i : Nat} {w w' : Worker}
    {s' : Shared} {a : WorkerAct} (h : Calm f) (hw : f.workers[i]? = some w) (ha : a ≠ .abort)
    (hm : Move serde pw f.shared w a s' w') : Calm ⟨s', f.workers.set i w'⟩ := by
  have hs := h.shutdown
  obtain ⟨ht, hab, hseen⟩ := h.workers w (List.mem_of_getElem? hw)
  have hset : ∀ {v : Worker}, v.pc.isTerminal = false → v.abortRequested = w.abortRequested →
      v.seen = w.seen → ∀ u ∈ f.workers.set i v,
        u.pc.isTerminal = false ∧ u.abortRequested = false ∧ u.seen = 0 :=
    fun hpc hb hn => forall_set h.workers ⟨hpc, hb.trans hab, hn.trans hseen⟩
  cases hm with
  | stop hpc hb => simp [hs] at hb
  | notice hpc hc => simp [hs, hseen, Watch.changed, Watch.channel] at hc
  | abort => exact absurd rfl ha
  | dropSent k hpc hb => simp [hab] at hb
  | dropReplied k b hpc hb => simp [hab] at hb
  | dropSpawned hpc hb => simp [hab] at hb
  | dropSelect hpc hb => simp [hab] at hb
  | _ => exact ⟨hs, hset rfl rfl rfl⟩

theorem Calm.step {serde : Serde} {pw : PollWorker} {f f' : Fleet} {act : FleetAct} (h : Calm f)
    (hm : FleetMove serde pw f act f') (ho : act.own ∨ act = .recv) : Calm f' := by
  cases hm with
  | worker i a w w' s' hw hm =>
    have ha : a ≠ .abort := ho.resolve_right (by simp)
    exact h.worker hw ha hm
  | shutdown => simp [FleetAct.own] at ho
  | _ => exact ⟨h.shutdown, h.workers⟩

def Orchestrator.stopped : Orchestrator → Bool
  | .waiting | .waited _ => false
  | .stopping _ | .joining _ | .collecting _ | .finished _ => true

/-- The workers live until the monitor has been aborted. -/
structure Halting {H : Type} (f : Fleet) (d : DrainTasks H) : Prop where
  calm : d.monitor.abortRequested = false → Calm f
  stopped : d.orch.stopped = true → d.monitor.abortRequested = true
  manned : f.workers ≠ []

theorem Halting.ended {H : Type} {hdr : Hdr H} {cfg : TrialConfig} {f : Fleet} {d : DrainTasks H}
    (h : Halting f d) (hc : Concluded hdr cfg f d) (he : d.collector.ended = true) :
    d.monitor.abortRequested = true := by
  by_contra hb
  obtain ⟨w, hw⟩ := List.exists_mem_of_ne_nil _ h.manned
  have hlive := ((h.calm (Bool.eq_false_iff.mpr hb)).workers w hw).1
  have hdone := (hc.ended he).1 w hw
  rw [hlive] at hdone
  cases hdone

theorem Halting.fleet {H : Type} {serde : Serde} {pw : PollWorker} {f f' : Fleet}
    {d : DrainTasks H} {act : FleetAct} (h : Halting f d) (hm : FleetMove serde pw f act f')
    (ho : act.own) : Halting f' d where
  calm ha := (h.calm ha).step hm (.inl ho)
  stopped := h.stopped
  manned := by
    have hlen := List.length_pos_iff.mpr h.manned
    rw [← hm.length_workers] at hlen
    exact List.length_pos_iff.mp hlen

theorem Halting.drain {H : Type} {serde : Serde} {pw : PollWorker} {hdr : Hdr H}
    {cfg : TrialConfig} {f f' : Fleet} {d d' : DrainTasks H} {a : DrainAct}
    {act : Option FleetAct} (h : Halting f d) (hm : DrainMove hdr cfg f d a act d')
    (hf : FleetStutter serde pw f act f') : Halting f' d' := by
  have hmanned : f'.workers ≠ [] := by
    have hlen : f'.workers.length = f.workers.length :=
      hf.keep (P := fun g => g.workers.length = f.workers.length) rfl
        (fun _ hf => hf.length_workers)
    exact List.length_pos_iff.mp (hlen ▸ List.length_pos_iff.mpr h.manned)
  cases hm with
  | recv sample rest hl he => exact ⟨fun ha => (h.calm ha).step hf (.inr rfl), h.stopped, hmanned⟩
  | serve tick rest hr he =>
    obtain rfl : f' = f := hf
    dsimp only
    split <;> exact ⟨h.calm, h.stopped, hmanned⟩
  | noWait ho hj | doneSeen ho hj hd | timeout ho hj =>
    obtain rfl : f' = f := hf
    exact ⟨h.calm, fun hs => by simp [Orchestrator.stopped] at hs, hmanned⟩
  | stopMonitor timedOut ho => exact ⟨fun ha => (by cases ha), fun _ => rfl, hmanned⟩
  | shutdown timedOut ho | grace i timedOut ho | joined timedOut ho hw
  | readOut elapsed timedOut ho he =>
    have ha := h.stopped (by simp [ho, Orchestrator.stopped])
    exact ⟨fun hb => by simp [ha] at hb, fun _ => ha, hmanned⟩
  | _ =>
    obtain rfl : f' = f := hf
    exact ⟨h.calm, h.stopped, hmanned⟩

/-- How far the snapshots taken may lag behind the ticks. A monitor that sleeps one
short has been aborted. -/
def Pace {H : Type} (m : Monitor H) : Prop :=
  match m.pc with
  | .sleeping => m.windows.length ≤ m.ticks.length ∧ m.ticks.length ≤ m.windows.length + 1 ∧
      (m.abortRequested = false → m.ticks.length = m.windows.length)
  | .woken => m.ticks.length = m.windows.length
  | .errors | .request | .awaiting => m.ticks.length = m.windows.length + 1
  | .dropped => m.windows.length ≤ m.ticks.length ∧ m.ticks.length ≤ m.windows.length + 1

theorem Pace.bounds {H : Type} {m : Monitor H} (h : Pace m) :
    m.windows.length ≤ m.ticks.length ∧ m.ticks.length ≤ m.windows.length + 1 := by
  unfold Pace at h
  split at h <;> omega

structure Paced {H : Type} (hdr : Hdr H) (specs : List PercentileSpec) (d : DrainTasks H) :
    Prop where
  pace : Pace d.monitor
  errors : d.monitor.errors.length + (if d.monitor.pc = .errors then 1 else 0) =
    d.monitor.ticks.length
  latency : d.monitor.latency = latencySeries hdr specs d.monitor.windows
  numbered : ∀ (i : Nat) (w : Window H), d.collector.windows[i]? = some w → w.tick = i

theorem Paced.monitor {H : Type} {hdr : Hdr H} {specs : List PercentileSpec} {d d' : DrainTasks H}
    (h : Paced hdr specs d) (hpace : Pace d'.monitor)
    (hticks : d'.monitor.ticks = d.monitor.ticks) (herrors : d'.monitor.errors = d.monitor.errors)
    (hpc : d.monitor.pc ≠ .errors) (hpc' : d'.monitor.pc ≠ .errors)
    (hlatency : d'.monitor.latency = d.monitor.latency)
    (hwindows : d'.monitor.windows = d.monitor.windows) (hc : d'.collector = d.collector) :
    Paced hdr specs d' where
  pace := hpace
  errors := by
    have he := h.errors
    rw [if_neg hpc] at he
    rw [if_neg hpc', hticks, herrors, he]
  latency := by rw [hlatency, hwindows, h.latency]
  numbered := by rw [hc]; exact h.numbered

theorem Paced.step {H : Type} {hdr : Hdr H} {cfg : TrialConfig} {f : Fleet} {d d' : DrainTasks H}
    {a : DrainAct} {act : Option FleetAct} (h : Paced hdr cfg.percentileSpecs d) (hi : InStep d)
    (hnd : (cfg.percentileSpecs.map PercentileSpec.name).Nodup)
    (hended : d.collector.ended = true → d.monitor.abortRequested = true)
    (hm : DrainMove hdr cfg f d a act d') : Paced hdr cfg.percentileSpecs d' := by
  have hpace := h.pace
  have herrors := h.errors
  cases hm with
  | recv sample rest hl he => exact ⟨hpace, herrors, h.latency, h.numbered⟩
  | collectorEnd hl hw he => exact ⟨hpace, herrors, h.latency, h.numbered⟩
  | serve tick rest hr he =>
    have htick := (hi.served hr he).1
    have hnumbered : ∀ (i : Nat) (w : Window H),
        (d.collector.snapshot hdr tick f.shared.hub.latency).2.windows[i]? = some w →
        w.tick = i := by
      intro i w hw
      rcases getElem?_concat hw with hw | ⟨rfl, rfl⟩
      · exact h.numbered i w hw
      · exact htick
    dsimp only
    split
    · exact ⟨by simpa [Pace] using hpace, herrors, h.latency, hnumbered⟩
    · exact ⟨hpace, herrors, h.latency, hnumbered⟩
  | wake hpc ha =>
    refine h.monitor ?_ rfl rfl (by simp [hpc]) (by simp) rfl rfl rfl
    simp only [Pace, hpc] at hpace
    exact hpace.2.2 ha
  | tick hpc =>
    simp only [Pace, hpc] at hpace
    simp only [hpc, reduceCtorEq, if_false, Nat.add_zero] at herrors
    refine ⟨?_, ?_, h.latency, h.numbered⟩
    · simp only [Pace, List.length_append, List.length_singleton]
      omega
    · simp [herrors]
  | tickErrors hpc =>
    simp only [Pace, hpc] at hpace
    refine ⟨hpace, ?_, h.latency, h.numbered⟩
    simpa [hpc] using herrors
  | request hpc he =>
    refine h.monitor ?_ rfl rfl (by simp [hpc]) (by simp) rfl rfl rfl
    simp only [Pace, hpc] at hpace
    exact hpace
  | requestClosed hpc he =>
    refine h.monitor ?_ rfl rfl (by simp [hpc]) (by simp) rfl rfl rfl
    simp only [Pace, hpc] at hpace ⊢
    exact ⟨by omega, by omega, fun ha => by simp [hended he] at ha⟩
  | answer window hpc ha =>
    simp only [Pace, hpc] at hpace
    refine ⟨?_, ?_, ?_, h.numbered⟩
    · simp only [Pace, List.length_append, List.length_singleton]
      omega
    · simpa [hpc] using herrors
    · rw [h.latency]
      exact pushAll_latencySeries hnd d.monitor.windows window
  | noAnswer hpc he ha =>
    refine h.monitor ?_ rfl rfl (by simp [hpc]) (by simp) rfl rfl rfl
    simp only [Pace, hpc] at hpace ⊢
    exact ⟨by omega, by omega, fun hb => by simp [hended he] at hb⟩
  | monitorDrop hpc ha =>
    have hpc' : d.monitor.pc ≠ .errors := by rcases hpc with hpc | hpc <;> simp [hpc]
    exact h.monitor hpace.bounds rfl rfl hpc' (by simp) rfl rfl rfl
  | stopMonitor timedOut ho =>
    refine ⟨?_, herrors, h.latency, h.numbered⟩
    have hbounds := hpace.bounds
    unfold Pace at hpace ⊢
    split at hpace <;> simp_all
  | _ => exact ⟨hpace, herrors, h.latency, h.numbered⟩

def Tasks.monitor {H : Type} (tasks : Tasks H) : Option (Monitor H) :=
  tasks.drainTasks.map DrainTasks.monitor

def PhaseAct.ofMonitor (reads : DrainAct → Bool) : PhaseAct → Bool
  | .drain a => reads a
  | _ => false

def DrainAct.isTick : DrainAct → Bool
  | .tick => true
  | _ => false

def DrainAct.isTickErrors : DrainAct → Bool
  | .tickErrors => true
  | _ => false

/-- A counter that the monitor reads, with its variable and its series. -/
def monitorSampler {H : Type} (counter : Metrics → Nat) (prev : Monitor H → Nat)
    (series : Monitor H → List Nat) (reads : DrainAct → Bool) :
    Sampler (Trial H) PhaseAct where
  counter t := counter t.phase.hub.metrics
  prev t := (t.phase.tasks.monitor.map prev).getD 0
  series t := (t.phase.tasks.monitor.map series).getD []
  reads := PhaseAct.ofMonitor reads

theorem monitorSampler_lawful {H : Type} (serde : Serde) (hdr : Hdr H) {counter : Metrics → Nat}
    {prev : Monitor H → Nat} {series : Monitor H → List Nat} {reads : DrainAct → Bool}
    (hmono : ∀ {m m' : Metrics}, m.Le m' → counter m ≤ counter m')
    (hread : ∀ {cfg f} {d d' : DrainTasks H} {a act}, reads a = true →
      DrainMove hdr cfg f d a act d' →
      series d'.monitor = series d.monitor ++ [counter f.shared.hub.metrics - prev d.monitor] ∧
        prev d'.monitor = counter f.shared.hub.metrics)
    (hkeep : ∀ {cfg f} {d d' : DrainTasks H} {a act}, reads a = false →
      DrainMove hdr cfg f d a act d' →
      series d'.monitor = series d.monitor ∧ prev d'.monitor = prev d.monitor) :
    (monitorSampler counter prev series reads).Lawful (Trial.step serde hdr) where
  mono hs := hmono (Trial.step_move hs).metrics_le
  read {s a t} ha hs := by
    have hm := Trial.step_move hs
    obtain ⟨db, p⟩ := s
    obtain ⟨db', p'⟩ := t
    cases hm with
    | worker i a f hne hf => cases ha
    | late j f hf => cases ha
    | idle queueKeys e e' a act f ht hm hf => cases ha
    | drain cfg d d' a act f ht hm hf =>
      have ht' : p.tasks = .drain cfg d := ht
      simp only [monitorSampler, Tasks.monitor, Tasks.drainTasks, ht', Option.map_some,
        Option.getD_some]
      exact hread ha hm
  keep {s a t} ha hs := by
    have hm := Trial.step_move hs
    obtain ⟨db, p⟩ := s
    obtain ⟨db', p'⟩ := t
    cases hm with
    | worker i a f hne hf => exact ⟨rfl, rfl⟩
    | late j f hf => exact ⟨rfl, rfl⟩
    | idle queueKeys e e' a act f ht hm hf =>
      have ht' : p.tasks = .idle queueKeys e := ht
      simp [monitorSampler, Tasks.monitor, Tasks.drainTasks, ht']
    | drain cfg d d' a act f ht hm hf =>
      have ht' : p.tasks = .drain cfg d := ht
      simp only [monitorSampler, Tasks.monitor, Tasks.drainTasks, ht', Option.map_some,
        Option.getD_some]
      exact hkeep ha hm

def throughputSampler (H : Type) : Sampler (Trial H) PhaseAct :=
  monitorSampler Metrics.completed Monitor.prevCompleted Monitor.throughput DrainAct.isTick

def errorsSampler (H : Type) : Sampler (Trial H) PhaseAct :=
  monitorSampler Metrics.errors Monitor.prevErrors Monitor.errors DrainAct.isTickErrors

theorem throughputSampler_lawful {H : Type} (serde : Serde) (hdr : Hdr H) :
    (throughputSampler H).Lawful (Trial.step serde hdr) := by
  refine monitorSampler_lawful serde hdr (fun hle => hle.completed) (fun ha hm => ?_) (fun ha hm => ?_)
  · cases hm with
    | tick hpc => exact ⟨rfl, rfl⟩
    | _ => cases ha
  · cases hm with
    | tick hpc => cases ha
    | serve tick rest hr he => dsimp only; split <;> exact ⟨rfl, rfl⟩
    | _ => exact ⟨rfl, rfl⟩

theorem errorsSampler_lawful {H : Type} (serde : Serde) (hdr : Hdr H) :
    (errorsSampler H).Lawful (Trial.step serde hdr) := by
  refine monitorSampler_lawful serde hdr (fun hle => hle.errors) (fun ha hm => ?_) (fun ha hm => ?_)
  · cases hm with
    | tickErrors hpc => exact ⟨rfl, rfl⟩
    | _ => cases ha
  · cases hm with
    | tickErrors hpc => cases ha
    | serve tick rest hr he => dsimp only; split <;> exact ⟨rfl, rfl⟩
    | _ => exact ⟨rfl, rfl⟩

section Run

variable {H : Type} {serde : Serde} {hdr : Hdr H} {cfg : TrialConfig} {db₀ : Db Entry}
  {nWorkers : Nat} {acts : List PhaseAct} {t : Trial H} {d : DrainTasks H}

/-- What the monitor's tasks keep over a run of a trial with workers. -/
structure Steady (hdr : Hdr H) (cfg : TrialConfig) (f : Fleet) (d : DrainTasks H) : Prop where
  concluded : Concluded hdr cfg f d
  inStep : InStep d
  halting : Halting f d
  paced : Paced hdr cfg.percentileSpecs d

theorem steady_of_runs (hworkers : 0 < nWorkers)
    (hnames : (cfg.percentileSpecs.map PercentileSpec.name).Nodup)
    (h : Machine.Runs (Trial.step serde hdr) ⟨db₀, runDrainTrial hdr cfg nWorkers⟩ t) :
    ∃ d, t.phase.tasks = .drain cfg d ∧ Steady hdr cfg t.fleet d := by
  refine drain_invariant (P := Steady hdr cfg) (fun hs hm ho => ?_) (fun hs hm hf => ?_) h rfl ?_
  · exact ⟨hs.concluded.fleet hm, hs.inStep, hs.halting.fleet hm ho, hs.paced⟩
  · exact ⟨hs.concluded.drain hm hf, hs.inStep.step hm, hs.halting.drain hm hf,
      hs.paced.step hs.inStep hnames (hs.halting.ended hs.concluded) hm⟩
  · refine ⟨.new hdr cfg _, ?_, ⟨fun _ => ⟨rfl, fun w hw => ?_⟩, fun hs => ?_, ?_⟩, ?_⟩
    · simp [InStep, DrainTasks.new, Monitor.new, Collector.new]
    · simp only [Trial.fleet, Phase.fleet, runDrainTrial, List.mem_replicate] at hw
      rw [hw.2]
      exact ⟨rfl, rfl, rfl⟩
    · simp [DrainTasks.new, Orchestrator.stopped] at hs
    · simp only [Trial.fleet, Phase.fleet, runDrainTrial, ne_eq, List.replicate_eq_nil_iff]
      omega
    · refine ⟨?_, ?_, ?_, fun i w hw => ?_⟩
      · simp [Pace, DrainTasks.new, Monitor.new]
      · simp [DrainTasks.new, Monitor.new]
      · simp [DrainTasks.new, Monitor.new, latencySeries]
      · simp [DrainTasks.new, Collector.new] at hw

/-- What a report says about the series when `windows` are the snapshots they came
from. -/
structure SeriesAligned (hdr : Hdr H) (specs : List PercentileSpec) (windows : List (Window H))
    (r : TrialResult) : Prop where
  errors : r.errorsPerSec.length = r.throughputPerSec.length
  atMost : windows.length ≤ r.throughputPerSec.length
  atLeast : r.throughputPerSec.length ≤ windows.length + 1
  latency : r.latencyPerSec = latencySeries hdr specs windows
  ticks : ∀ (i : Nat) (w : Window H), windows[i]? = some w → w.tick = i

theorem seriesAligned_of_dropped (hworkers : 0 < nWorkers)
    (hnames : (cfg.percentileSpecs.map PercentileSpec.name).Nodup)
    (h : Machine.Runs (Trial.step serde hdr) ⟨db₀, runDrainTrial hdr cfg nWorkers⟩ t)
    (hd : t.phase.tasks = .drain cfg d) (hpc : d.monitor.pc = .dropped) (elapsed : Rat)
    (timedOut : Bool) :
    SeriesAligned hdr cfg.percentileSpecs d.monitor.windows
      (trialResult hdr t.fleet d elapsed timedOut) := by
  obtain ⟨e, he, hs⟩ := steady_of_runs hworkers hnames h
  cases he.symm.trans hd
  obtain ⟨e', he', ha⟩ := aligned_of_runs h
  cases he'.symm.trans hd
  have hlen := ha.log.length
  have hbounds := hs.paced.pace.bounds
  have herrors := hs.paced.errors
  rw [hpc, if_neg (by simp)] at herrors
  refine ⟨?_, ?_, ?_, hs.paced.latency, fun i w hw => ?_⟩
  · exact (herrors.trans hlen.symm : d.monitor.errors.length = d.monitor.throughput.length)
  · exact hbounds.1.trans hlen.ge
  · exact hlen.le.trans hbounds.2
  · obtain ⟨rest, hrest⟩ := hs.inStep.windows.1
    refine hs.paced.numbered i w ?_
    rw [← hrest, List.getElem?_append_left (List.getElem?_eq_some_iff.mp hw).1, hw]

/-- `r` was read out in the state `u` of a run. -/
structure ReadOut (serde : Serde) (hdr : Hdr H) (cfg : TrialConfig) (s : Trial H)
    (acts : List PhaseAct) (r : TrialResult) (u : Trial H) (d : DrainTasks H) : Prop where
  step : ∃ pre elapsed timedOut, pre ++ [.drain (.readOut elapsed)] <+: acts ∧
    Machine.run (Trial.step serde hdr) s pre = some u ∧
    r = trialResult hdr u.fleet d elapsed timedOut
  tasks : u.phase.tasks = .drain cfg d

theorem readOut_of_run
    (h : Machine.run (Trial.step serde hdr) ⟨db₀, runDrainTrial hdr cfg nWorkers⟩ acts = some t)
    {r : TrialResult} (hr : t.phase.tasks.returned = some r) :
    ∃ u d, ReadOut serde hdr cfg ⟨db₀, runDrainTrial hdr cfg nWorkers⟩ acts r u d := by
  refine Machine.run_induction (P := fun acts t => ∀ r, t.phase.tasks.returned = some r →
    ∃ u d, ReadOut serde hdr cfg ⟨db₀, runDrainTrial hdr cfg nWorkers⟩ acts r u d)
    (fun r hr => by cases hr) ?_ h r hr
  intro acts t a t' hrun ih hstep r hr
  have hold : t.phase.tasks.returned = some r →
      ∃ u d, ReadOut serde hdr cfg ⟨db₀, runDrainTrial hdr cfg nWorkers⟩ (acts ++ [a]) r u d := by
    intro hr
    obtain ⟨u, d, ⟨pre, elapsed, timedOut, hpre, hu⟩, hd⟩ := ih r hr
    exact ⟨u, d, ⟨pre, elapsed, timedOut, hpre.trans (List.prefix_append _ _), hu⟩, hd⟩
  obtain ⟨e, he, _⟩ := concluded_of_runs (Machine.runs_of_run hrun)
  have hm := Trial.step_move hstep
  obtain ⟨db, p⟩ := t
  obtain ⟨db', p'⟩ := t'
  cases hm with
  | worker i a f hne hf => exact hold hr
  | late j f hf => exact hold hr
  | idle queueKeys t t' a act f ht hm hf => cases hr
  | drain cfg' d d' a act f ht hm hf =>
    cases he.symm.trans ht
    rw [Tasks.returned_drain] at hr
    rw [show p.tasks = .drain cfg e from ht, Tasks.returned_drain] at hold
    cases hm with
    | readOut elapsed timedOut ho hend =>
      cases hr
      exact ⟨_, e, ⟨acts, elapsed, timedOut, List.prefix_rfl, hrun, rfl⟩, ht⟩
    | _ => simp_all

theorem sampled_monitor {counter : Metrics → Nat} {prev : Monitor H → Nat}
    {series : Monitor H → List Nat} {reads : DrainAct → Bool}
    (hl : (monitorSampler counter prev series reads).Lawful (Trial.step serde hdr))
    (hseries : series .new = []) (hprev : prev .new = 0)
    (h : Machine.run (Trial.step serde hdr) ⟨db₀, runDrainTrial hdr cfg nWorkers⟩ acts = some t)
    (hd : t.phase.tasks = .drain cfg d) :
    prev d.monitor ≤ counter t.phase.hub.metrics ∧ (series d.monitor).sum = prev d.monitor ∧
    (series d.monitor).length = acts.countP (PhaseAct.ofMonitor reads) ∧
    ∀ pre a u, pre ++ [.drain a] <+: acts → reads a = true →
      Machine.run (Trial.step serde hdr) ⟨db₀, runDrainTrial hdr cfg nWorkers⟩ pre = some u →
      ((series d.monitor).take (pre.countP (PhaseAct.ofMonitor reads) + 1)).sum =
        counter u.phase.hub.metrics := by
  have hs := sampled_of_run (s := (⟨db₀, runDrainTrial hdr cfg nWorkers⟩ : Trial H)) hl hseries
    hprev h
  have hprev' : (monitorSampler counter prev series reads).prev t = prev d.monitor := by
    simp [monitorSampler, Tasks.monitor, Tasks.drainTasks, hd]
  have hseries' : (monitorSampler counter prev series reads).series t = series d.monitor := by
    simp [monitorSampler, Tasks.monitor, Tasks.drainTasks, hd]
  rw [← hprev', ← hseries']
  exact ⟨hs.prevLe, hs.sum, hs.length, fun pre a u hpre ha hu => hs.readings pre _ u hpre ha hu⟩

/-- In every run of a trial with workers the monitor's differences do not underflow.
The first `k` of them add up to what tick `k` read, so never to more than the report
says. Where the monitor has stopped before the read-out, the series are aligned. -/
theorem monitor_series_exact (hworkers : 0 < nWorkers)
    (hnames : (cfg.percentileSpecs.map PercentileSpec.name).Nodup)
    (h : Machine.run (Trial.step serde hdr) ⟨db₀, runDrainTrial hdr cfg nWorkers⟩ acts = some t)
    (hd : t.phase.tasks = .drain cfg d) :
    d.monitor.prevCompleted ≤ t.phase.hub.metrics.completed ∧
    d.monitor.prevErrors ≤ t.phase.hub.metrics.errors ∧
    d.monitor.throughput.length = acts.countP (PhaseAct.ofMonitor DrainAct.isTick) ∧
    d.monitor.errors.length = acts.countP (PhaseAct.ofMonitor DrainAct.isTickErrors) ∧
    (∀ pre u, pre ++ [.drain .tick] <+: acts →
      Machine.run (Trial.step serde hdr) ⟨db₀, runDrainTrial hdr cfg nWorkers⟩ pre = some u →
      (d.monitor.throughput.take
        (pre.countP (PhaseAct.ofMonitor DrainAct.isTick) + 1)).sum =
          u.phase.hub.metrics.completed) ∧
    (∀ pre u, pre ++ [.drain .tickErrors] <+: acts →
      Machine.run (Trial.step serde hdr) ⟨db₀, runDrainTrial hdr cfg nWorkers⟩ pre = some u →
      (d.monitor.errors.take
        (pre.countP (PhaseAct.ofMonitor DrainAct.isTickErrors) + 1)).sum =
          u.phase.hub.metrics.errors) ∧
    ∀ r, t.phase.tasks.returned = some r →
      ∃ u d', ReadOut serde hdr cfg ⟨db₀, runDrainTrial hdr cfg nWorkers⟩ acts r u d' ∧
        r.throughputPerSec.sum ≤ r.totalJobs ∧ r.errorsPerSec.sum ≤ r.errors ∧
        (d'.monitor.pc = .dropped →
          SeriesAligned hdr cfg.percentileSpecs d'.monitor.windows r) := by
  obtain ⟨hprev, _, hlength, hticks⟩ :=
    sampled_monitor (throughputSampler_lawful serde hdr) rfl rfl h hd
  obtain ⟨hprevErrors, _, hlengthErrors, hticksErrors⟩ :=
    sampled_monitor (errorsSampler_lawful serde hdr) rfl rfl h hd
  refine ⟨hprev, hprevErrors, hlength, hlengthErrors,
    fun pre u hpre hu => hticks pre .tick u hpre rfl hu,
    fun pre u hpre hu => hticksErrors pre .tickErrors u hpre rfl hu, fun r hr => ?_⟩
  obtain ⟨u, d', hread⟩ := readOut_of_run h hr
  obtain ⟨pre, elapsed, timedOut, _, hu, rfl⟩ := hread.step
  have hd' := hread.tasks
  obtain ⟨hle, hsum, _⟩ := sampled_monitor (throughputSampler_lawful serde hdr) rfl rfl hu hd'
  obtain ⟨hleErrors, hsumErrors, _⟩ :=
    sampled_monitor (errorsSampler_lawful serde hdr) rfl rfl hu hd'
  exact ⟨u, d', hread, hsum.trans_le hle, hsumErrors.trans_le hleErrors, fun hpc =>
    seriesAligned_of_dropped hworkers hnames (Machine.runs_of_run hu) hd' hpc elapsed timedOut⟩

end Run

/-- Two ticks, and the monitor is stopped while it awaits the second snapshot. -/
def stoppedMonitor : List PhaseAct :=
  [.drain .wake, .drain .tick, .drain .tickErrors, .drain .request, .drain .serve, .drain .answer,
    .drain .wake, .drain .tick, .drain .tickErrors, .drain .request, .drain .timeout,
    .drain .stopMonitor, .drain .monitorDrop, .drain .shutdown, .worker 0 .start,
    .worker 0 .check, .drain .collectorEnd, .drain .joined]

theorem monitor_series_exact_stopped : ∃ (r : TrialResult) (windows : List (Window (List Nat))),
    r.throughputPerSec.length = 2 ∧ windows.length = 1 ∧
    r.throughputPerSec.sum ≤ r.totalJobs ∧
    SeriesAligned Hdr.bucketed [.max, .mean] windows r := by
  let cfg : TrialConfig := ⟨queueKeys ["default"], 2, [.max, .mean]⟩
  let start : Trial (List Nat) := ⟨twoJobs, runDrainTrial Hdr.bucketed cfg 1⟩
  obtain ⟨t, hrun, hreturned⟩ : ∃ t, Machine.run (Trial.step (.envelopes [(0, 1000), (1, 1000)])
      Hdr.bucketed) start (stoppedMonitor ++ [.drain (.readOut 1)]) = some t ∧
      t.phase.tasks.returned.any (fun r => r.throughputPerSec.length == 2) = true :=
    Machine.run_any _ (by decide +kernel)
  obtain ⟨v, hv, hstopped⟩ : ∃ v, Machine.run (Trial.step (.envelopes [(0, 1000), (1, 1000)])
      Hdr.bucketed) start stoppedMonitor = some v ∧
      v.phase.tasks.monitor.any (fun m => m.pc == .dropped && m.windows.length == 1) = true :=
    Machine.run_any _ (by decide +kernel)
  obtain ⟨d, hd, _⟩ := concluded_of_runs (Machine.runs_of_run hrun)
  obtain ⟨r, hr, hticks⟩ := (Option.any_eq_true _ _).mp hreturned
  obtain ⟨u, d', hread, hsum, _, haligned⟩ :=
    (monitor_series_exact (by decide) (by decide) hrun hd).2.2.2.2.2.2 r hr
  obtain ⟨pre, elapsed, timedOut, hpre, hu, _⟩ := hread.step
  have hinit : pre = stoppedMonitor := by
    rcases List.prefix_concat_iff.mp hpre with he | hpre
    · exact (List.append_inj' he rfl).1
    · have hmem := hpre.subset (List.mem_append_right _ (List.mem_singleton_self _))
      simp [stoppedMonitor] at hmem
  subst hinit
  obtain rfl : v = u := Option.some.inj (hv.symm.trans hu)
  rw [hread.tasks] at hstopped
  simp only [Tasks.monitor, Tasks.drainTasks, Option.map_some, Option.any_some, Bool.and_eq_true,
    beq_iff_eq] at hstopped
  exact ⟨r, d'.monitor.windows, by simpa using hticks, hstopped.2, hsum, haligned hstopped.1⟩

end ResqueBench
