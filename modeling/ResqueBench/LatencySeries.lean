import ResqueBench.MonitorSeries
import ResqueBench.Percentiles

/-! The per-second latency map for the percentiles that were asked for. The monitor
pushes once for each spec, so a name that is given twice gets two values a tick, and
one tick must have been answered before there is any key. -/

namespace ResqueBench

open Redis

def seriesOf (map : List (String × List Nat)) (key : String) : List Nat := (map.lookup key).getD []

section PushSeries

variable (map : List (String × List Nat)) (name key : String) (value : Nat)

theorem seriesOf_pushSeries :
    seriesOf (pushSeries map name value) key =
      seriesOf map key ++ if name = key then [value] else [] := by
  induction map with
  | nil =>
    by_cases hkey : name = key
    · simp [pushSeries, seriesOf, List.lookup, hkey]
    · simp [pushSeries, seriesOf, List.lookup, hkey, beq_false_of_ne (Ne.symm hkey)]
  | cons entry map ih =>
    obtain ⟨name', series⟩ := entry
    rw [pushSeries]
    by_cases hname : name' = name
    · subst hname
      rw [if_pos rfl]
      by_cases hkey : name' = key
      · simp [seriesOf, List.lookup, hkey]
      · simp [seriesOf, List.lookup, hkey, beq_false_of_ne (Ne.symm hkey)]
    · rw [if_neg hname]
      by_cases hkey : name' = key
      · subst hkey
        simp [seriesOf, List.lookup, Ne.symm hname]
      · simp only [seriesOf, List.lookup, beq_false_of_ne (Ne.symm hkey)]
        exact ih

theorem mem_keys_pushSeries : key ∈ (pushSeries map name value).map Prod.fst ↔
    key ∈ map.map Prod.fst ∨ name = key := by
  induction map with
  | nil => simp [pushSeries, eq_comm]
  | cons entry map ih =>
    obtain ⟨name', series⟩ := entry
    rw [pushSeries]
    by_cases hname : name' = name
    · subst hname
      rw [if_pos rfl, List.map_cons, List.map_cons, List.mem_cons]
      constructor
      · exact .inl
      · rintro (h | rfl)
        · exact h
        · exact .inl rfl
    · rw [if_neg hname, List.map_cons, List.map_cons, List.mem_cons, List.mem_cons, ih, or_assoc]

theorem nodup_keys_pushSeries (h : (map.map Prod.fst).Nodup) :
    ((pushSeries map name value).map Prod.fst).Nodup := by
  induction map with
  | nil => simp [pushSeries]
  | cons entry map ih =>
    obtain ⟨name', series⟩ := entry
    rw [List.map_cons, List.nodup_cons] at h
    rw [pushSeries]
    by_cases hname : name' = name
    · rw [if_pos hname, List.map_cons, List.nodup_cons]
      exact h
    · rw [if_neg hname, List.map_cons, List.nodup_cons, mem_keys_pushSeries]
      exact ⟨fun hm => hm.elim h.1 (fun he => hname he.symm), ih h.2⟩

end PushSeries

section PushAll

variable {H : Type} {hdr : Hdr H} {specs : List PercentileSpec} {hists : List H}
  {map : List (String × List Nat)} {key : String}

theorem pushAll_cons (hdr : Hdr H) (spec : PercentileSpec) (specs : List PercentileSpec)
    (map : List (String × List Nat)) (hist : H) :
    pushAll hdr (spec :: specs) map hist =
      pushAll hdr specs (pushSeries map spec.name (spec.value hdr hist)) hist := rfl

theorem seriesOf_pushAll (hist : H) : seriesOf (pushAll hdr specs map hist) key =
    seriesOf map key ++
      (specs.filter (fun spec => spec.name = key)).map (fun spec => spec.value hdr hist) := by
  induction specs generalizing map with
  | nil => simp [pushAll]
  | cons spec specs ih =>
    rw [pushAll_cons, ih, seriesOf_pushSeries, List.append_assoc, List.filter_cons]
    by_cases hkey : spec.name = key
    · simp [hkey]
    · simp [hkey]

theorem mem_keys_pushAll (hist : H) : key ∈ (pushAll hdr specs map hist).map Prod.fst ↔
    key ∈ map.map Prod.fst ∨ key ∈ specs.map PercentileSpec.name := by
  induction specs generalizing map with
  | nil => simp [pushAll]
  | cons spec specs ih =>
    rw [pushAll_cons, ih, mem_keys_pushSeries, List.map_cons, List.mem_cons, or_assoc,
      eq_comm (a := key)]

theorem nodup_keys_pushAll (hist : H) (h : (map.map Prod.fst).Nodup) :
    ((pushAll hdr specs map hist).map Prod.fst).Nodup := by
  induction specs generalizing map with
  | nil => exact h
  | cons spec specs ih => exact ih (nodup_keys_pushSeries map spec.name _ h)

/-- What the monitor has pushed for the snapshots `hists`. -/
structure Collected (hdr : Hdr H) (specs : List PercentileSpec) (hists : List H)
    (map : List (String × List Nat)) : Prop where
  unique : (map.map Prod.fst).Nodup
  keys : ∀ key, key ∈ map.map Prod.fst ↔ hists ≠ [] ∧ key ∈ specs.map PercentileSpec.name
  series : ∀ key, seriesOf map key = hists.flatMap (fun hist =>
    (specs.filter (fun spec => spec.name = key)).map (fun spec => spec.value hdr hist))

theorem Collected.nil (hdr : Hdr H) (specs : List PercentileSpec) :
    Collected hdr specs [] [] := ⟨by simp, by simp, fun _ => rfl⟩

theorem Collected.push (h : Collected hdr specs hists map) (hist : H) :
    Collected hdr specs (hists ++ [hist]) (pushAll hdr specs map hist) where
  unique := nodup_keys_pushAll hist h.unique
  keys key := by
    rw [mem_keys_pushAll, h.keys]
    simp only [ne_eq, List.append_eq_nil_iff, List.cons_ne_nil, and_false, not_false_eq_true,
      true_and]
    exact ⟨fun hk => hk.elim And.right id, .inr⟩
  series key := by
    rw [seriesOf_pushAll, h.series, List.flatMap_append, List.flatMap_singleton]

theorem lookup_of_mem_keys (h : key ∈ map.map Prod.fst) :
    map.lookup key = some (seriesOf map key) := by
  obtain ⟨entry, hentry, rfl⟩ := List.mem_map.mp h
  have hsome : (map.lookup entry.1).isSome = true :=
    List.lookup_isSome_iff.mpr ⟨entry, hentry, beq_self_eq_true _⟩
  obtain ⟨series, hseries⟩ := Option.isSome_iff_exists.mp hsome
  rw [seriesOf, hseries, Option.getD_some]

/-- One value in each tick under each of the names that were asked for, and no other
name. -/
structure OneValuePerTick (hdr : Hdr H) (names : List String) (hists : List H)
    (map : List (String × List Nat)) : Prop where
  unique : (map.map Prod.fst).Nodup
  keys : ∀ key, key ∈ map.map Prod.fst ↔ key ∈ names
  series : ∀ name ∈ names, ∀ spec, parsePercentileSpec name = .ok spec →
    map.lookup name = some (hists.map (fun hist => spec.value hdr hist))

theorem parsed_specs {names : List String} (h : names.mapM parsePercentileSpec = .ok specs) :
    specs.map PercentileSpec.name = names ∧
      ∀ name ∈ names, ∃ spec ∈ specs, parsePercentileSpec name = .ok spec := by
  induction names generalizing specs with
  | nil =>
    cases h
    exact ⟨rfl, by simp⟩
  | cons name names ih =>
    rw [List.mapM_cons] at h
    cases hname : parsePercentileSpec name with
    | error failure => simp [hname, bind, Except.bind] at h
    | ok spec =>
      cases hrest : names.mapM parsePercentileSpec with
      | error failure => simp [hname, hrest, bind, Except.bind] at h
      | ok rest =>
        simp only [hname, hrest, bind, Except.bind, pure, Except.pure, Except.ok.injEq] at h
        subst h
        obtain ⟨hnames, hparsed⟩ := ih hrest
        refine ⟨by rw [List.map_cons, hnames, name_of_parsed hname], fun other hother => ?_⟩
        rcases List.mem_cons.mp hother with rfl | hother
        · exact ⟨spec, List.mem_cons_self, hname⟩
        · obtain ⟨found, hfound, hspec⟩ := hparsed other hother
          exact ⟨found, List.mem_cons_of_mem _ hfound, hspec⟩

theorem length_filter_name (specs : List PercentileSpec) (key : String) :
    (specs.filter (fun spec => spec.name = key)).length =
      (specs.map PercentileSpec.name).count key := by
  induction specs with
  | nil => rfl
  | cons spec specs ih =>
    rw [List.filter_cons, List.map_cons, List.count_cons]
    by_cases hkey : spec.name = key
    · simp [hkey, ih]
    · simp [hkey, ih]

theorem Collected.length_series (h : Collected hdr specs hists map) (key : String) :
    (seriesOf map key).length = hists.length * (specs.map PercentileSpec.name).count key := by
  rw [h.series, List.length_flatMap]
  simp [length_filter_name]

theorem Collected.lookup (h : Collected hdr specs hists map)
    (hnodup : (specs.map PercentileSpec.name).Nodup) {spec : PercentileSpec} (hspec : spec ∈ specs)
    (hne : hists ≠ []) :
    map.lookup spec.name = some (hists.map (fun hist => spec.value hdr hist)) := by
  have hname : spec.name ∈ specs.map PercentileSpec.name := List.mem_map_of_mem hspec
  have hcount := List.count_eq_one_of_mem hnodup hname
  rw [← length_filter_name] at hcount
  obtain ⟨only, honly⟩ := List.length_eq_one_iff.mp hcount
  have hmem : spec ∈ specs.filter (fun other => other.name = spec.name) := by simp [hspec]
  rw [honly, List.mem_singleton] at hmem
  subst hmem
  have hseries := h.series spec.name
  rw [honly] at hseries
  rw [lookup_of_mem_keys ((h.keys spec.name).mpr ⟨hne, hname⟩), hseries]
  simp [List.map_eq_flatMap]

theorem Collected.oneValuePerTick_iff {names : List String} (h : Collected hdr specs hists map)
    (hparse : names.mapM parsePercentileSpec = .ok specs) :
    OneValuePerTick hdr names hists map ↔ names = [] ∨ hists ≠ [] ∧ names.Nodup := by
  obtain ⟨rfl, hparsed⟩ := parsed_specs hparse
  constructor
  · intro hone
    by_cases hnames : specs.map PercentileSpec.name = []
    · exact .inl hnames
    obtain ⟨name, hname⟩ := List.exists_mem_of_ne_nil _ hnames
    have hne := ((h.keys name).mp ((hone.keys name).mpr hname)).1
    refine .inr ⟨hne, List.nodup_iff_count_le_one.mpr (fun key => ?_)⟩
    by_cases hkey : key ∈ specs.map PercentileSpec.name
    · obtain ⟨spec, _, hspec⟩ := hparsed key hkey
      have hlen := h.length_series key
      rw [seriesOf, hone.series key hkey spec hspec, Option.getD_some, List.length_map] at hlen
      have hpos := List.length_pos_iff.mpr hne
      exact (Nat.eq_of_mul_eq_mul_left hpos ((Nat.mul_one _).trans hlen)).ge
    · rw [List.count_eq_zero_of_not_mem hkey]
      omega
  · rintro (hnil | ⟨hne, hnodup⟩)
    · refine ⟨h.unique, fun key => ?_, fun name hname => ?_⟩
      · rw [h.keys, hnil]
        simp
      · rw [hnil] at hname
        cases hname
    · refine ⟨h.unique, fun key => ?_, fun name hname spec hspec => ?_⟩
      · rw [h.keys]
        exact and_iff_right hne
      · obtain ⟨found, hfound, hfound'⟩ := hparsed name hname
        cases hspec.symm.trans hfound'
        rw [← name_of_parsed hspec]
        exact h.lookup hnodup hfound hne

end PushAll

section Run

variable {H : Type} {serde : Serde} {hdr : Hdr H} {cfg : TrialConfig} {db₀ : Db Entry}
  {nWorkers : Nat} {acts : List PhaseAct} {t : Trial H} {d : DrainTasks H}

theorem collected_of_runs
    (h : Machine.Runs (Trial.step serde hdr) ⟨db₀, runDrainTrial hdr cfg nWorkers⟩ t)
    (hd : t.phase.tasks = .drain cfg d) :
    Collected hdr cfg.percentileSpecs (d.monitor.windows.map Window.hist) d.monitor.latency := by
  obtain ⟨e, he, hcollected⟩ : ∃ e, t.phase.tasks = .drain cfg e ∧
      Collected hdr cfg.percentileSpecs (e.monitor.windows.map Window.hist) e.monitor.latency := by
    refine drain_invariant (P := fun _ e => Collected hdr cfg.percentileSpecs
      (e.monitor.windows.map Window.hist) e.monitor.latency) (fun hs _ _ => hs)
      (fun hs hm _ => ?_) h rfl (.nil hdr _)
    cases hm with
    | answer window hpc ha =>
      rw [List.map_append]
      exact hs.push window.hist
    | serve tick rest hr he =>
      dsimp only
      split <;> exact hs
    | _ => exact hs
  cases he.symm.trans hd
  exact hcollected

/-- In every state of a trial, and in its report, the latency map has one value for
each answered tick under each name that was given where no name was given twice and
one tick has been answered. -/
theorem one_value_per_tick_iff {names : List String}
    (hparse : names.mapM parsePercentileSpec = .ok cfg.percentileSpecs)
    (h : Machine.run (Trial.step serde hdr) ⟨db₀, runDrainTrial hdr cfg nWorkers⟩ acts = some t)
    (hd : t.phase.tasks = .drain cfg d) :
    (OneValuePerTick hdr names (d.monitor.windows.map Window.hist) d.monitor.latency ↔
      names = [] ∨ d.monitor.windows ≠ [] ∧ names.Nodup) ∧
    ∀ r, t.phase.tasks.returned = some r →
      ∃ u d', ReadOut serde hdr cfg ⟨db₀, runDrainTrial hdr cfg nWorkers⟩ acts r u d' ∧
        (OneValuePerTick hdr names (d'.monitor.windows.map Window.hist) r.latencyPerSec ↔
          names = [] ∨ d'.monitor.windows ≠ [] ∧ names.Nodup) := by
  have hiff {u : Trial H} {d : DrainTasks H}
      (hu : Machine.Runs (Trial.step serde hdr) ⟨db₀, runDrainTrial hdr cfg nWorkers⟩ u)
      (hd : u.phase.tasks = .drain cfg d) :
      OneValuePerTick hdr names (d.monitor.windows.map Window.hist) d.monitor.latency ↔
        names = [] ∨ d.monitor.windows ≠ [] ∧ names.Nodup := by
    rw [(collected_of_runs hu hd).oneValuePerTick_iff hparse, Ne, List.map_eq_nil_iff]
  refine ⟨hiff (Machine.runs_of_run h) hd, fun r hr => ?_⟩
  obtain ⟨u, d', hread⟩ := readOut_of_run h hr
  obtain ⟨pre, elapsed, timedOut, _, hu, rfl⟩ := hread.step
  exact ⟨u, d', hread, hiff (Machine.runs_of_run hu) hread.tasks⟩

end Run

def oneTick : List PhaseAct :=
  [.drain .wake, .drain .tick, .drain .tickErrors, .drain .request, .drain .serve, .drain .answer]

theorem one_value_per_tick_max_mean : ∃ (t : Trial (List Nat)) (d : DrainTasks (List Nat)),
    t.phase.tasks = .drain ⟨queueKeys ["default"], 2, [.max, .mean]⟩ d ∧
    d.monitor.windows.length = 1 ∧
    OneValuePerTick Hdr.bucketed ["max", "mean"] (d.monitor.windows.map Window.hist)
      d.monitor.latency := by
  let cfg : TrialConfig := ⟨queueKeys ["default"], 2, [.max, .mean]⟩
  let start : Trial (List Nat) := ⟨twoJobs, runDrainTrial Hdr.bucketed cfg 1⟩
  obtain ⟨t, hrun, hone⟩ : ∃ t, Machine.run (Trial.step (.envelopes [(0, 1000), (1, 1000)])
      Hdr.bucketed) start oneTick = some t ∧
      t.phase.tasks.monitor.any (fun m => m.windows.length == 1) = true :=
    Machine.run_any _ (by decide +kernel)
  obtain ⟨d, hd, _⟩ := concluded_of_runs (Machine.runs_of_run hrun)
  have hlen : d.monitor.windows.length = 1 := by
    rw [hd] at hone
    simpa [Tasks.monitor, Tasks.drainTasks] using hone
  have hne : d.monitor.windows ≠ [] := by
    rw [← List.length_pos_iff]
    omega
  have hparse : ["max", "mean"].mapM parsePercentileSpec = .ok cfg.percentileSpecs := rfl
  exact ⟨t, d, hd, hlen, (one_value_per_tick_iff hparse hrun hd).1.mpr (.inr ⟨hne, by decide⟩)⟩

/-- A job is recorded before the tick. -/
def recordedTick : List PhaseAct :=
  [.worker 0 .start, .worker 0 .check, .worker 0 .issue, .worker 0 .exec, .worker 0 .receive,
    .worker 0 (.record (some 8000)), .drain .recv] ++ oneTick

theorem one_value_per_tick_repeated : ∃ (specs : List PercentileSpec) (t : Trial (List Nat))
    (d : DrainTasks (List Nat)),
    ["p50", "p50"].mapM parsePercentileSpec = .ok specs ∧
    Machine.Runs (Trial.step (.envelopes [(0, 1000), (1, 1000)]) Hdr.bucketed)
      ⟨twoJobs, runDrainTrial Hdr.bucketed ⟨queueKeys ["default"], 2, specs⟩ 1⟩ t ∧
    t.phase.tasks = .drain ⟨queueKeys ["default"], 2, specs⟩ d ∧
    d.monitor.windows.length = 1 ∧ d.monitor.latency.lookup "p50" = some [7, 7] ∧
    ¬ OneValuePerTick Hdr.bucketed ["p50", "p50"] (d.monitor.windows.map Window.hist)
      d.monitor.latency := by
  let specs : List PercentileSpec := [.quantile "p50" (1 / 2), .quantile "p50" (1 / 2)]
  let cfg : TrialConfig := ⟨queueKeys ["default"], 2, specs⟩
  let start : Trial (List Nat) := ⟨twoJobs, runDrainTrial Hdr.bucketed cfg 1⟩
  have hparse : ["p50", "p50"].mapM parsePercentileSpec = .ok specs := by
    have hvalue : Decimal.fraction ['5', '0'] = 1 / 2 := by
      rw [Decimal.fraction_eq, show Nat.ofDigitChars 10 ['5', '0'] 0 = 50 from rfl]
      norm_num
    have hp50 : parsePercentileSpec "p50" = .ok (.quantile "p50" (1 / 2)) := by
      rw [← hvalue]
      exact parsePercentileSpec_digits (by decide)
        ⟨by decide, by decide, by simp [Char.isDigit], '5', by simp⟩
    simp [hp50, specs, bind, Except.bind, pure, Except.pure]
  obtain ⟨t, hruns, hone⟩ : ∃ t, Machine.Runs (Trial.step (.envelopes [(0, 1000), (1, 1000)])
      Hdr.bucketed) start t ∧
      t.phase.tasks.monitor.any
        (fun m => m.windows.length == 1 && m.latency.lookup "p50" == some [7, 7]) = true :=
    Machine.runs_any recordedTick (by decide +kernel)
  obtain ⟨d, hd, _⟩ := concluded_of_runs hruns
  simp only [hd, Tasks.monitor, Tasks.drainTasks, Option.map_some, Option.any_some,
    Bool.and_eq_true, beq_iff_eq] at hone
  refine ⟨specs, t, d, hparse, hruns, hd, hone.1, hone.2, fun h => ?_⟩
  have hiff := (collected_of_runs hruns hd).oneValuePerTick_iff hparse
  rcases hiff.mp h with hnil | ⟨_, hnodup⟩
  · cases hnil
  · exact absurd hnodup (by decide)

end ResqueBench
