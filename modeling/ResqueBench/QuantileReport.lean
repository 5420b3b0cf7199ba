import ResqueBench.SnapshotWindows
import ResqueBench.LatencySeries
import ResqueBench.Quantile

/-! What the percentiles of a report say about the latencies that were sent. A value
of the histogram stands for all latencies of its bucket, at three significant digits. -/

namespace Hdr

theorem highestEquivalent_lt {v k : Nat} (hv : v < 2 ^ (k + 1)) (hk : Nat.log2 v ≤ k) :
    highestEquivalent v < 2 ^ (k + 1) := by
  have hb : 0 < 2 ^ (Nat.log2 v - 10) := Nat.two_pow_pos _
  obtain ⟨m, hm⟩ : 2 ^ (Nat.log2 v - 10) ∣ 2 ^ (k + 1) := Nat.pow_dvd_pow 2 (by omega)
  have hdiv : v / 2 ^ (Nat.log2 v - 10) < m := by
    rw [Nat.div_lt_iff_lt_mul hb, Nat.mul_comm, ← hm]
    exact hv
  calc highestEquivalent v
      < (v / 2 ^ (Nat.log2 v - 10) + 1) * 2 ^ (Nat.log2 v - 10) := by
        rw [highestEquivalent, Nat.add_mul, Nat.one_mul]
        omega
    _ ≤ m * 2 ^ (Nat.log2 v - 10) := Nat.mul_le_mul_right _ hdiv
    _ = 2 ^ (k + 1) := by rw [hm, Nat.mul_comm]

theorem highestEquivalent_mono : Monotone highestEquivalent := by
  intro v w hvw
  by_cases hlog : Nat.log2 v = Nat.log2 w
  · have hdiv : v / 2 ^ (Nat.log2 v - 10) ≤ w / 2 ^ (Nat.log2 v - 10) := Nat.div_le_div_right hvw
    simp only [highestEquivalent, ← hlog]
    exact Nat.add_le_add_right (Nat.mul_le_mul_right _ hdiv) _
  · by_cases hv : v = 0
    · subst hv
      exact (Nat.zero_le _)
    have hle : Nat.log2 v < Nat.log2 w := by
      have hpow : 2 ^ Nat.log2 v ≤ w := (Nat.log2_self_le hv).trans hvw
      have hlog' := (Nat.le_log2 (by omega)).mpr hpow
      omega
    calc highestEquivalent v
        ≤ 2 ^ (Nat.log2 v + 1) := (highestEquivalent_lt Nat.lt_log2_self le_rfl).le
      _ ≤ 2 ^ Nat.log2 w := Nat.pow_le_pow_right (by omega) hle
      _ ≤ w := Nat.log2_self_le (by omega)
      _ ≤ highestEquivalent w := le_highestEquivalent w

theorem highestEquivalent_le (v : Nat) : 1000 * highestEquivalent v ≤ 1001 * v := by
  have hb : 0 < 2 ^ (Nat.log2 v - 10) := Nat.two_pow_pos _
  have hwidth : 1000 * (2 ^ (Nat.log2 v - 10) - 1) ≤ v := by
    by_cases hlog : Nat.log2 v ≤ 10
    · rw [Nat.sub_eq_zero_of_le hlog]
      omega
    · have hv : v ≠ 0 := by
        rintro rfl
        simp at hlog
      have hpow : 2 ^ Nat.log2 v = 2 ^ (Nat.log2 v - 10) * 2 ^ 10 := by
        rw [← Nat.pow_add]
        congr 1
        omega
      have hself := Nat.log2_self_le hv
      omega
  have hdiv := Nat.div_mul_le_self v (2 ^ (Nat.log2 v - 10))
  rw [highestEquivalent]
  omega

theorem foldr_max_mem {h : List Nat} (hne : h ≠ []) : h.foldr Nat.max 0 ∈ h := by
  induction h with
  | nil => exact absurd rfl hne
  | cons x h ih =>
    by_cases hrest : h = []
    · simp [hrest]
    · rcases Nat.le_total x (h.foldr Nat.max 0) with hle | hle
      · have hmax : (x :: h).foldr Nat.max 0 = h.foldr Nat.max 0 := Nat.max_eq_right hle
        rw [hmax]
        exact List.mem_cons_of_mem x (ih hrest)
      · have hmax : (x :: h).foldr Nat.max 0 = x := Nat.max_eq_left hle
        rw [hmax]
        exact List.mem_cons_self

end Hdr

namespace ResqueBench

open Redis Threads

namespace LatencyStats

def quantiles : List Rat :=
  [50 / 100, 75 / 100, 90 / 100, 95 / 100, 99 / 100, 999 / 1000, 9999 / 10000]

def percentiles (s : LatencyStats) : List Nat :=
  [s.p50, s.p75, s.p90, s.p95, s.p99, s.p999, s.p9999]

theorem quantiles_range : ∀ q ∈ quantiles, 0 < q ∧ q ≤ 1 := by
  intro q hq
  simp only [quantiles, List.mem_cons, List.not_mem_nil, or_false] at hq
  rcases hq with rfl | rfl | rfl | rfl | rfl | rfl | rfl <;> norm_num

theorem quantiles_sorted : quantiles.Pairwise (· ≤ ·) := by
  simp only [quantiles, List.pairwise_cons, List.mem_cons, List.not_mem_nil, or_false]
  norm_num

variable {H : Type} {hdr : Hdr H} {hist : H}

theorem fromHistogram_empty (h : hdr.samples hist = 0) : fromHistogram hdr hist = .default := by
  rw [fromHistogram, if_pos]
  simp [Hdr.isEmpty, hdr.len_eq, h]

theorem isEmpty_of_samples (h : hdr.samples hist ≠ 0) : hdr.isEmpty hist = false := by
  have hcard := Multiset.card_pos.mpr h
  simp only [Hdr.isEmpty, beq_eq_false_iff_ne, hdr.len_eq]
  omega

theorem percentiles_fromHistogram (h : hdr.samples hist ≠ 0) :
    (fromHistogram hdr hist).percentiles = quantiles.map (hdr.valueAtQuantile hist) := by
  simp [fromHistogram, isEmpty_of_samples h, percentiles, quantiles]

theorem max_fromHistogram (h : hdr.samples hist ≠ 0) :
    (fromHistogram hdr hist).max = hdr.max hist := by
  simp [fromHistogram, isEmpty_of_samples h]

end LatencyStats

/-- A histogram of three significant digits. The quantiles are those the program
passes to it: their products with a count are exact in `f64` where they are whole. -/
structure Precise {H : Type} (hdr : Hdr H) : Prop where
  round_mono : Monotone hdr.round
  round_le : ∀ v, 1000 * hdr.round v ≤ 1001 * v
  max_mem : ∀ h, hdr.samples h ≠ 0 → hdr.max h ∈ hdr.samples h
  quantile : ∀ q ∈ LatencyStats.quantiles, ∀ h, hdr.samples h ≠ 0 →
    Quantile.Is q (hdr.samples h) (hdr.valueAtQuantile h q)

theorem precise_bucketed : Precise Hdr.bucketed where
  round_mono := Hdr.highestEquivalent_mono
  round_le := Hdr.highestEquivalent_le
  max_mem h hne := Hdr.foldr_max_mem (by simpa [Hdr.bucketed] using hne)
  quantile q hq h hne := by
    obtain ⟨hpos, hle⟩ := LatencyStats.quantiles_range q hq
    have hsorted : (h.mergeSort (· ≤ ·)).Pairwise (· ≤ ·) := by
      simpa using @List.pairwise_mergeSort Nat (· ≤ ·) (by simp; omega) (by simp; omega) h
    have hlen : 0 < (h.mergeSort (· ≤ ·)).length := by
      rw [List.length_mergeSort]
      exact List.length_pos_iff.mpr (by simpa [Hdr.bucketed] using hne)
    have hrank := Quantile.rank_lt hpos hle hlen
    have hvalue : Hdr.bucketed.valueAtQuantile h q =
        (h.mergeSort (· ≤ ·))[Quantile.rank q (h.mergeSort (· ≤ ·)).length] := by
      have hceil : (q * h.length).ceil = ⌈q * h.length⌉ := Rat.ceil_eq_neg_floor_neg _
      simp only [Hdr.bucketed, hceil, Quantile.rank, List.length_mergeSort]
      exact (List.getElem_eq_getD 0).symm
    have hperm : ((h.mergeSort (· ≤ ·) : List Nat) : Multiset Nat) = Hdr.bucketed.samples h :=
      Multiset.coe_eq_coe.mpr (List.mergeSort_perm h _)
    rw [hvalue, ← hperm]
    exact Quantile.of_sorted hsorted hpos hrank

section Tracked

variable {H : Type} {hdr : Hdr H}

/-- The recorded latencies before the histogram rounds them. -/
def tracked (hdr : Hdr H) (ss : List Sample) : Multiset Nat :=
  (((ss.map (fun s => max s.us 1)).filter (· ≤ hdr.trackable) : List Nat) : Multiset Nat)

theorem map_round_tracked (ss : List Sample) :
    (tracked hdr ss).map hdr.round = total (accepted hdr) ss := by
  induction ss with
  | nil => rfl
  | cons s ss ih =>
    rw [total_cons, ← ih, accepted, tracked, List.map_cons, List.filter_cons]
    by_cases hle : max s.us 1 ≤ hdr.trackable
    · simp [hle, tracked]
    · simp [hle, tracked]

/-- A value of the histogram for the latency `us`. -/
structure Approximates (hdr : Hdr H) (v us : Nat) : Prop where
  eq : v = hdr.round us
  ge : us ≤ v
  le : 1000 * v ≤ 1001 * us

theorem Precise.approximates (hp : Precise hdr) (us : Nat) : Approximates hdr (hdr.round us) us :=
  ⟨rfl, hdr.le_round us, hp.round_le us⟩

theorem Precise.valueAtQuantile (hp : Precise hdr) {q : Rat} (hq : q ∈ LatencyStats.quantiles)
    {hist : H} {raw : Multiset Nat} (hraw : hdr.samples hist = raw.map hdr.round) (hne : raw ≠ 0) :
    ∃ us, Quantile.Is q raw us ∧ Approximates hdr (hdr.valueAtQuantile hist q) us := by
  obtain ⟨hpos, hle⟩ := LatencyStats.quantiles_range q hq
  obtain ⟨us, hus⟩ := Quantile.exists_of_pos hne hpos hle
  have hsamples : hdr.samples hist ≠ 0 := by simpa [hraw] using hne
  have hvalue := hp.quantile q hq hist hsamples
  rw [hraw] at hvalue
  rw [hvalue.unique (hus.map hp.round_mono)]
  exact ⟨us, hus, hp.approximates us⟩

theorem Precise.max (hp : Precise hdr) {hist : H} {raw : Multiset Nat}
    (hraw : hdr.samples hist = raw.map hdr.round) (hne : raw ≠ 0) :
    ∃ us ∈ raw, (∀ us' ∈ raw, us' ≤ us) ∧ Approximates hdr (hdr.max hist) us := by
  have hsamples : hdr.samples hist ≠ 0 := by simpa [hraw] using hne
  obtain ⟨us, hus, hgreatest⟩ := raw.toFinset.exists_max_image id (by simpa using hne)
  have hmem := hp.max_mem hist hsamples
  rw [hraw] at hmem
  obtain ⟨us', hus', hround⟩ := Multiset.mem_map.mp hmem
  have hge := hdr.le_max hist (hdr.round us)
    (by rw [hraw]; exact Multiset.mem_map_of_mem _ (Multiset.mem_toFinset.mp hus))
  have hle := hp.round_mono (hgreatest us' (Multiset.mem_toFinset.mpr hus'))
  have heq : hdr.max hist = hdr.round us := le_antisymm (hround ▸ hle) hge
  rw [heq]
  exact ⟨us, Multiset.mem_toFinset.mp hus,
    fun x hx => hgreatest x (Multiset.mem_toFinset.mpr hx), hp.approximates us⟩

/-- What is reported for the quantile `q` of the samples: zero where none was recorded. -/
def Reads (hdr : Hdr H) (q : Rat) (ss : List Sample) (v : Nat) : Prop :=
  if tracked hdr ss = 0 then v = 0
  else ∃ us, Quantile.Is q (tracked hdr ss) us ∧ Approximates hdr v us

theorem Precise.reads (hp : Precise hdr) {q : Rat} (hq : q ∈ LatencyStats.quantiles) {hist : H}
    {ss : List Sample} (hss : hdr.samples hist = total (accepted hdr) ss) (name : String) :
    Reads hdr q ss ((PercentileSpec.quantile name q).value hdr hist) := by
  rw [← map_round_tracked] at hss
  by_cases hne : tracked hdr ss = 0
  · rw [Reads, if_pos hne, PercentileSpec.value, if_pos]
    simp [Hdr.isEmpty, hdr.len_eq, hss, hne]
  · have hsamples : hdr.samples hist ≠ 0 := by simpa [hss] using hne
    rw [Reads, if_neg hne, PercentileSpec.value, LatencyStats.isEmpty_of_samples hsamples]
    exact hp.valueAtQuantile hq hss hne

/-- A report over the samples: it counts the recorded ones, reads each quantile off
them, in order, and bounds them by its maximum. -/
structure Summarizes (hdr : Hdr H) (ss : List Sample) (r : LatencyStats) : Prop where
  count : r.totalCount = Multiset.card (tracked hdr ss)
  empty : tracked hdr ss = 0 → r = .default
  percentiles : List.Forall₂ (fun q v => Reads hdr q ss v) LatencyStats.quantiles r.percentiles
  ordered : (r.percentiles ++ [r.max]).Pairwise (· ≤ ·)
  max : tracked hdr ss ≠ 0 → ∃ us ∈ tracked hdr ss, (∀ us' ∈ tracked hdr ss, us' ≤ us) ∧
    Approximates hdr r.max us

theorem Precise.ordered (hp : Precise hdr) {hist : H} (hne : hdr.samples hist ≠ 0) :
    (LatencyStats.quantiles.map (hdr.valueAtQuantile hist) ++ [hdr.max hist]).Pairwise
      (· ≤ ·) := by
  rw [List.pairwise_append, List.pairwise_map]
  refine ⟨?_, List.pairwise_singleton _ _, ?_⟩
  · refine LatencyStats.quantiles_sorted.imp_of_mem (fun {p q} hmp hmq hle => ?_)
    exact (hp.quantile p hmp hist hne).mono hle (hp.quantile q hmq hist hne)
  · intro v hv m hm
    obtain ⟨q, hq, rfl⟩ := List.mem_map.mp hv
    rw [List.mem_singleton.mp hm]
    exact hdr.le_max hist _ (hp.quantile q hq hist hne).mem

theorem Precise.summarizes (hp : Precise hdr) {hist : H} {ss : List Sample}
    (hss : hdr.samples hist = total (accepted hdr) ss) :
    Summarizes hdr ss (.fromHistogram hdr hist) := by
  have hround := hss
  rw [← map_round_tracked] at hround
  by_cases hne : tracked hdr ss = 0
  · have hempty : LatencyStats.fromHistogram hdr hist = .default :=
      LatencyStats.fromHistogram_empty (by rw [hround, hne, Multiset.map_zero])
    have hreads : ∀ q, Reads hdr q ss 0 := fun q => by rw [Reads, if_pos hne]
    rw [hempty]
    refine ⟨by rw [hne]; rfl, fun _ => rfl, ?_, by decide, fun h => absurd hne h⟩
    simp [LatencyStats.quantiles, LatencyStats.percentiles, LatencyStats.default, hreads]
  · have hsamples : hdr.samples hist ≠ 0 := by simpa [hround] using hne
    refine ⟨?_, fun h => absurd h hne, ?_, ?_, fun _ => ?_⟩
    · rw [LatencyStats.totalCount_fromHistogram, hround, Multiset.card_map]
    · rw [LatencyStats.percentiles_fromHistogram hsamples, List.forall₂_map_right_iff,
        List.forall₂_same]
      intro q hq
      rw [Reads, if_neg hne]
      exact hp.valueAtQuantile hq hround hne
    · rw [LatencyStats.percentiles_fromHistogram hsamples, LatencyStats.max_fromHistogram hsamples]
      exact hp.ordered hsamples
    · rw [LatencyStats.max_fromHistogram hsamples]
      exact hp.max hround hne

end Tracked

section Run

variable {H : Type} {serde : Serde} {hdr : Hdr H} {cfg : TrialConfig} {db₀ : Db Entry}
  {nWorkers : Nat} {t : Trial H} {d : DrainTasks H}

theorem summarizes_of_returned (hp : Precise hdr)
    (h : Machine.Runs (Trial.step serde hdr) ⟨db₀, runDrainTrial hdr cfg nWorkers⟩ t)
    {r : TrialResult} (hr : t.phase.tasks.returned = some r) :
    Summarizes hdr t.phase.hub.ledger.sent r.latency := by
  obtain ⟨d, hd, hconc⟩ := concluded_of_runs h
  obtain ⟨d', hd', hpart⟩ := partitioned_of_runs h
  cases hd'.symm.trans hd
  rw [hd, Tasks.returned_drain] at hr
  obtain ⟨he, _, _, hlatency⟩ := hconc.finished r hr
  rw [hlatency, ← received_eq_sent h hd he]
  exact hp.summarizes hpart.hist

theorem Collected.seriesOf_eq {specs : List PercentileSpec} {hists : List H}
    {map : List (String × List Nat)} (h : Collected hdr specs hists map)
    (hnodup : (specs.map PercentileSpec.name).Nodup) {spec : PercentileSpec} (hspec : spec ∈ specs) :
    seriesOf map spec.name = hists.map (fun hist => spec.value hdr hist) := by
  by_cases hne : hists = []
  · rw [h.series, hne]
    rfl
  · rw [seriesOf, h.lookup hnodup hspec hne, Option.getD_some]

theorem monitor_windows (h : Machine.Runs (Trial.step serde hdr)
      ⟨db₀, runDrainTrial hdr cfg nWorkers⟩ t) (hd : t.phase.tasks = .drain cfg d) :
    (∀ w ∈ d.monitor.windows, hdr.samples w.hist = total (accepted hdr) w.taken) ∧
      d.monitor.windows.flatMap Window.taken <+: t.phase.hub.ledger.sent := by
  obtain ⟨d', hd', ha⟩ := aligned_of_runs h
  cases hd'.symm.trans hd
  obtain ⟨rest, hrest⟩ := ha.inStep.windows.1
  have hstream := ha.partitioned.stream
  refine ⟨fun w hw => ha.partitioned.windows w (hrest ▸ List.mem_append_left rest hw), ?_⟩
  rw [← hrest, List.flatMap_append, List.append_assoc] at hstream
  have hchannel : t.fleet.shared.hub.ledger.received <+: t.fleet.shared.hub.ledger.sent :=
    ha.balanced.channel ▸ List.prefix_append _ _
  exact (hstream ▸ List.prefix_append _ _).trans hchannel

/-- The report summarizes all latencies the workers sent. In every state of a trial
the series of a quantile reads it off the windows of the ticks, one after another. -/
theorem report_summarizes_latencies (hp : Precise hdr)
    (hnames : (cfg.percentileSpecs.map PercentileSpec.name).Nodup)
    (h : Machine.Runs (Trial.step serde hdr) ⟨db₀, runDrainTrial hdr cfg nWorkers⟩ t)
    (hd : t.phase.tasks = .drain cfg d) :
    (∀ s ∈ t.phase.hub.ledger.sent, s.us = latencyUs s.nowNs s.enqueuedAtNs ∧
      decodedAtNs serde s.job = some s.enqueuedAtNs) ∧
    (∀ r, t.phase.tasks.returned = some r →
      Summarizes hdr t.phase.hub.ledger.sent r.latency) ∧
    d.monitor.windows.flatMap Window.taken <+: t.phase.hub.ledger.sent ∧
    ∀ name q, .quantile name q ∈ cfg.percentileSpecs → q ∈ LatencyStats.quantiles →
      List.Forall₂ (fun w v => Reads hdr q w.taken v) d.monitor.windows
        (seriesOf d.monitor.latency name) := by
  obtain ⟨hwindows, hprefix⟩ := monitor_windows h hd
  refine ⟨(decoded_of_reach nWorkers rfl h).sent, fun r hr => summarizes_of_returned hp h hr,
    hprefix, fun name q hspec hq => ?_⟩
  have hseries := (collected_of_runs h hd).seriesOf_eq hnames hspec
  rw [show name = (PercentileSpec.quantile name q).name from rfl, hseries, List.map_map,
    List.forall₂_map_right_iff, List.forall₂_same]
  intro w hw
  exact hp.reads hq (hwindows w hw) name

/-- Two jobs, both within the range of the histogram. -/
theorem report_summarizes_two_jobs : ∃ (t : Trial (List Nat)) (r : TrialResult),
    t.phase.tasks.returned = some r ∧ r.latency.totalCount = 2 ∧
    Summarizes Hdr.bucketed t.phase.hub.ledger.sent r.latency := by
  let cfg : TrialConfig := ⟨queueKeys ["default"], 2, [.quantile "p50" (50 / 100)]⟩
  obtain ⟨t, hrun, hret, hsent⟩ : ∃ t : Trial (List Nat),
      Machine.Runs (Trial.step (.envelopes [(0, 1000), (1, 1000)]) Hdr.bucketed)
        ⟨twoJobs, runDrainTrial Hdr.bucketed cfg 1⟩ t ∧
      t.phase.tasks.returned.isSome = true ∧ (t.phase.hub.ledger.sent.map Sample.us) = [4, 8] :=
    ⟨_, Machine.runs_get (drainTwoJobs 9000) (by decide +kernel), by decide +kernel,
      by decide +kernel⟩
  obtain ⟨r, hr⟩ := Option.isSome_iff_exists.mp hret
  obtain ⟨d, hd, _⟩ := concluded_of_runs hrun
  have hsummary := (report_summarizes_latencies precise_bucketed (by decide) hrun hd).2.1 r hr
  have htracked : tracked Hdr.bucketed t.phase.hub.ledger.sent = {4, 8} := by
    have hmax : t.phase.hub.ledger.sent.map (fun s => max s.us 1) = [4, 8] := by
      have hmap := congrArg (List.map (fun us => max us 1)) hsent
      rw [List.map_map] at hmap
      exact hmap
    rw [tracked, hmax]
    decide
  refine ⟨t, r, hr, ?_, hsummary⟩
  rw [hsummary.count, htracked]
  rfl

end Run

end ResqueBench
