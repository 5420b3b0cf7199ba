import ResqueBench.QueueContents
import ResqueBench.PriorityLine

/-! The global priority order. A worker standing at a key has found all earlier
keys empty, and without pushes an empty queue stays empty. -/

namespace ResqueBench

open Redis

def EmptyBelow (keys : List String) (db : Db Entry) (k : Nat) : Prop :=
  ∀ j < k, ∀ key, keys[j]? = some key → listAt db key = []

theorem EmptyBelow.mono {keys : List String} {db db' : Db Entry} {k : Nat}
    (h : EmptyBelow keys db k) (hs : ∀ key, listAt db' key <:+ listAt db key) :
    EmptyBelow keys db' k := fun j hj key hk =>
  List.eq_nil_of_suffix_nil (h j hj key hk ▸ hs key)

theorem EmptyBelow.succ {keys : List String} {db : Db Entry} {k : Nat} {key : String}
    (h : EmptyBelow keys db k) (hk : keys[k]? = some key) (hl : listAt db key = []) :
    EmptyBelow keys db (k + 1) := by
  intro j hj key' hj'
  by_cases he : j = k
  · subst he
    obtain rfl : key = key' := Option.some.inj (hk.symm.trans hj')
    exact hl
  · exact h j (by omega) key' hj'

/-- What a worker's place in its scan says about the queues it has passed. -/
def Passed (keys : List String) (db : Db Entry) (w : Worker) : Prop :=
  match w.pc with
  | .scan k | .sent k => EmptyBelow keys db k
  | .replied k a => EmptyBelow keys db k ∧ (a.jobs = [] → EmptyBelow keys db (k + 1))
  | _ => True

theorem Passed.mono {keys : List String} {db db' : Db Entry} {w : Worker}
    (h : Passed keys db w) (hs : ∀ key, listAt db' key <:+ listAt db key) :
    Passed keys db' w := by
  unfold Passed at h ⊢
  split
  · rename_i k hpc
    simp only [hpc] at h
    exact h.mono hs
  · rename_i k hpc
    simp only [hpc] at h
    exact h.mono hs
  · rename_i k a hpc
    simp only [hpc] at h
    exact ⟨h.1.mono hs, fun ha => (h.2 ha).mono hs⟩
  · trivial

structure InOrder (keys : List String) (f : Fleet) : Prop where
  workers : ∀ w ∈ f.workers, Passed keys f.shared.db w
  late : ∀ k ∈ f.shared.hub.late, EmptyBelow keys f.shared.db k

/-- A step that is no failure keeps a worker's place; an aborted `LPOP` stays at
the key its worker stood at. -/
theorem Move.passed {serde : Serde} {pw : PollWorker} {s s' : Shared} {w w' : Worker}
    {a : WorkerAct} (h : Move serde pw s w a s' w') (ha : a ≠ .fail)
    (hp : Passed pw.queueKeys s.db w) (hs : ∀ key, listAt s'.db key <:+ listAt s.db key)
    (hlate : ∀ k ∈ s.hub.late, EmptyBelow pw.queueKeys s.db k) :
    Passed pw.queueKeys s'.db w' ∧ ∀ k ∈ s'.hub.late, EmptyBelow pw.queueKeys s.db k := by
  cases h with
  | enter hpc hsh => exact ⟨fun j hj => absurd hj (Nat.not_lt_zero j), hlate⟩
  | issue k hpc hk => exact ⟨by simpa [Passed, hpc] using hp, hlate⟩
  | pop k key e rest hpc hk hl hdb =>
    have hp' : EmptyBelow pw.queueKeys s.db k := by simpa [Passed, hpc] using hp
    exact ⟨⟨hp'.mono hs, fun hj => by simp [Answer.jobs] at hj⟩, hlate⟩
  | empty k key b hpc hk hl hb =>
    have hp' : EmptyBelow pw.queueKeys s.db k := by simpa [Passed, hpc] using hp
    exact ⟨⟨hp', fun _ => hp'.succ hk hl⟩, hlate⟩
  | failSent k hpc => exact absurd rfl ha
  | failReplied k b hpc => exact absurd rfl ha
  | nil k hpc =>
    simp only [Passed, hpc] at hp
    exact ⟨hp.2 rfl, hlate⟩
  | error k hpc =>
    simp only [Passed, hpc] at hp
    exact ⟨hp.2 rfl, by simpa [failedLpop] using hlate⟩
  | abort => exact ⟨hp, hlate⟩
  | dropSent k hpc hab =>
    have hp' : EmptyBelow pw.queueKeys s.db k := by simpa [Passed, hpc] using hp
    refine ⟨trivial, fun j hj => ?_⟩
    rcases List.mem_append.mp hj with hj | hj
    · exact hlate j hj
    · rw [List.mem_singleton.mp hj]
      exact hp'
  | dropReplied k b hpc hab => exact ⟨trivial, by simpa [droppedTask] using hlate⟩
  | dropSpawned hpc hab => exact ⟨trivial, by simpa [droppedTask] using hlate⟩
  | dropSelect hpc hab => exact ⟨trivial, by simpa [droppedTask] using hlate⟩
  | _ => exact ⟨trivial, hlate⟩

theorem FleetMove.suffix {serde : Serde} {pw : PollWorker} {f f' : Fleet} {a : FleetAct}
    (h : FleetMove serde pw f a f') (key : String) :
    listAt f'.shared.db key <:+ listAt f.shared.db key := by
  rcases h.server with ⟨hdb, _⟩ | ⟨k, key₀, e, rest, _, hl, _, _, hdb⟩
  · rw [hdb]
  · rw [hdb]
    by_cases hk : key = key₀
    · rw [if_pos hk, hk, hl]
      exact List.suffix_cons e rest
    · rw [if_neg hk]

theorem InOrder.step {serde : Serde} {pw : PollWorker} {f f' : Fleet} {a : FleetAct}
    (hf : InOrder pw.queueKeys f) (h : FleetMove serde pw f a f')
    (ha : ∀ i, a ≠ .worker i .fail) : InOrder pw.queueKeys f' := by
  have hs := h.suffix
  cases h with
  | worker i a w w' s' hw hm =>
    have hm' := hm.passed (fun he => ha i (he ▸ rfl)) (hf.workers w (List.mem_of_getElem? hw)) hs
      hf.late
    exact ⟨Threads.forall_set (fun v hv => (hf.workers v hv).mono hs) hm'.1,
      fun k hk => (hm'.2 k hk).mono hs⟩
  | latePop j k key e rest hj hk hl hdb =>
    exact ⟨fun w hw => (hf.workers w hw).mono hs,
      fun k hk => (hf.late k (List.mem_of_mem_eraseIdx hk)).mono hs⟩
  | lateEmpty j k key hj hk hl =>
    exact ⟨hf.workers, fun k hk => hf.late k (List.mem_of_mem_eraseIdx hk)⟩
  | shutdown => exact ⟨hf.workers, hf.late⟩
  | recv sample rest hl => exact ⟨hf.workers, hf.late⟩

def Fleet.lines (keys : List String) (f : Fleet) : PriorityLine.State Entry :=
  ⟨f.shared.hub.ledger.removed, keys.map (listAt f.shared.db)⟩

theorem lines_pop {keys : List String} (hnd : keys.Nodup) {db db' : Db Entry} {k : Nat}
    {key : String} {rest : List Entry} (hk : keys[k]? = some key)
    (hdb : ∀ key', listAt db' key' = if key' = key then rest else listAt db key') :
    keys.map (listAt db') = (keys.map (listAt db)).set k rest := by
  obtain ⟨hklt, hkey⟩ := List.getElem?_eq_some_iff.mp hk
  apply List.ext_getElem (by simp)
  intro j h₁ h₂
  have hj : j < keys.length := by simpa using h₁
  rw [List.getElem_map, List.getElem_set, hdb]
  have hiff : keys[j] = key ↔ k = j := by
    rw [← hkey, hnd.getElem_inj_iff]
    exact eq_comm
  by_cases hkj : k = j
  · rw [if_pos (hiff.mpr hkj), if_pos hkj]
  · rw [if_neg (fun he => hkj (hiff.mp he)), if_neg hkj, List.getElem_map]

theorem FleetMove.popped_below {serde : Serde} {pw : PollWorker} {f f' : Fleet} {a : FleetAct}
    (h : FleetMove serde pw f a f') (hf : InOrder pw.queueKeys f) :
    (f'.shared.db = f.shared.db ∧ f'.shared.hub.ledger.removed = f.shared.hub.ledger.removed) ∨
    ∃ (k : Nat) (key : String) (e : Entry) (rest : List Entry),
      EmptyBelow pw.queueKeys f.shared.db k ∧ pw.queueKeys[k]? = some key ∧
      listAt f.shared.db key = e :: rest ∧
      f'.shared.hub.ledger.removed = f.shared.hub.ledger.removed ++ [e] ∧
      ∀ key', listAt f'.shared.db key' = if key' = key then rest else listAt f.shared.db key' := by
  cases h with
  | worker i a w w' s' hw hm =>
    have hp := hf.workers w (List.mem_of_getElem? hw)
    cases hm with
    | pop k key e rest hpc hk hl hdb =>
      exact .inr ⟨k, key, e, rest, by simpa [Passed, hpc] using hp, hk, hl, rfl, hdb⟩
    | _ => exact .inl ⟨rfl, rfl⟩
  | latePop j k key e rest hj hk hl hdb =>
    exact .inr ⟨k, key, e, rest, hf.late k (List.mem_of_getElem? hj), hk, hl, rfl, hdb⟩
  | lateEmpty j k key hj hk hl => exact .inl ⟨rfl, rfl⟩
  | shutdown => exact .inl ⟨rfl, rfl⟩
  | recv sample rest hl => exact .inl ⟨rfl, rfl⟩

theorem FleetMove.lines {serde : Serde} {pw : PollWorker} {f f' : Fleet} {a : FleetAct}
    (hnd : pw.queueKeys.Nodup) (hf : InOrder pw.queueKeys f) (h : FleetMove serde pw f a f') :
    Relation.ReflTransGen PriorityLine.Step (f.lines pw.queueKeys) (f'.lines pw.queueKeys) := by
  rcases h.popped_below hf with ⟨hdb, hr⟩ | ⟨k, key, e, rest, hbelow, hk, hl, hr, hdb⟩
  · simp only [Fleet.lines, hdb, hr]
    exact .refl
  · refine .single ⟨k, e, rest, fun j hj => ?_, by simp [Fleet.lines, hk, hl], hr,
      lines_pop hnd hk hdb⟩
    have hjlt : j < pw.queueKeys.length := hj.trans (List.getElem?_eq_some_iff.mp hk).1
    have hempty := hbelow j hj _ (List.getElem?_eq_getElem hjlt)
    simp [Fleet.lines, List.getElem?_eq_getElem hjlt, hempty]

theorem lines_of_reach {H : Type} {serde : Serde} {hdr : Hdr H} {cfg : TrialConfig}
    {db₀ : Db Entry} {nWorkers : Nat} {t : Trial H} (hnd : cfg.queueKeys.Nodup)
    (h : Machine.Reach (Trial.step serde hdr) (fun a => a.isFail = false)
      ⟨db₀, runDrainTrial hdr cfg nWorkers⟩ t) :
    Relation.ReflTransGen PriorityLine.Step ⟨[], cfg.queueKeys.map (listAt db₀)⟩
      (t.fleet.lines cfg.queueKeys) := by
  have hh := fleet_invariant (P := fun f => InOrder cfg.queueKeys f ∧
      Relation.ReflTransGen PriorityLine.Step ⟨[], cfg.queueKeys.map (listAt db₀)⟩
        (f.lines cfg.queueKeys))
    (fun {f f' act} hf hm hfail => ?_) h ⟨?_, .refl⟩
  · exact hh.2.2
  · have hact : ∀ i, act ≠ .worker i .fail := fun i he => by
      have := hfail i he
      simp [PhaseAct.isFail] at this
    exact ⟨hf.1.step hm hact, hf.2.trans (hm.lines hnd hf.1)⟩
  · refine ⟨fun w hw => ?_, fun k hk => by simp [Trial.fleet, Phase.fleet, runDrainTrial,
      Hub.new] at hk⟩
    simp only [Trial.fleet, Phase.fleet, runDrainTrial, List.mem_replicate] at hw
    rw [hw.2]
    trivial

theorem Filled.flatMap_listAt {serde : Serde} {clock : Nat → Option Nat} {trial nJobs : Nat}
    {queues : List String} {db : Db Entry} (h : Filled serde clock trial queues nJobs db)
    (hnd : queues.Nodup) :
    (queueKeys queues).flatMap (listAt db) =
      ((List.range queues.length).flatMap (RoundRobin.dealt queues.length nJobs)).map
        (jobEntry serde clock trial) := by
  have hlines : (queueKeys queues).map (listAt db) = (List.range queues.length).map
      (fun line => (RoundRobin.dealt queues.length nJobs line).map (jobEntry serde clock trial)) := by
    apply List.ext_getElem (by simp [queueKeys])
    intro line h₁ h₂
    have hline : line < queues.length := by simpa [queueKeys] using h₁
    simp [queueKeys, h.listAt_queue hnd hline]
  rw [List.flatMap_def, hlines, List.flatMap_def, List.map_flatten, List.map_map]
  rfl

/-- Without failed `LPOP`s the removed jobs are, in server order, a prefix of the
queues laid end to end. A queue gives up jobs from its head, and only once all
queues before it are empty. For a filled server that is residue order. -/
theorem global_priority_order {H : Type} {serde : Serde} {hdr : Hdr H} {cfg : TrialConfig}
    {db₀ : Db Entry} {nWorkers : Nat} {t : Trial H} (hnd : cfg.queueKeys.Nodup)
    (h : Machine.Reach (Trial.step serde hdr) (fun a => a.isFail = false)
      ⟨db₀, runDrainTrial hdr cfg nWorkers⟩ t) :
    t.phase.hub.ledger.removed <+: cfg.queueKeys.flatMap (listAt db₀) ∧
    (∀ (k : Nat) (key : String), cfg.queueKeys[k]? = some key →
      listAt t.db key <:+ listAt db₀ key ∧
      (listAt t.db key ≠ listAt db₀ key → EmptyBelow cfg.queueKeys t.db k)) ∧
    ∀ clock trial queues nJobs, cfg.queueKeys = queueKeys queues →
      Filled serde clock trial queues nJobs db₀ →
      t.phase.hub.ledger.removed <+:
        ((List.range queues.length).flatMap (RoundRobin.dealt queues.length nJobs)).map
          (jobEntry serde clock trial) := by
  have hlines := lines_of_reach hnd h
  have hpre : t.phase.hub.ledger.removed <+: cfg.queueKeys.flatMap (listAt db₀) :=
    PriorityLine.left_prefix_of_reach hlines rfl
  have hserved := PriorityLine.served_of_reach hlines
  refine ⟨hpre, fun k key hk => ⟨?_, fun hne j hj key' hj' => ?_⟩, ?_⟩
  · exact hserved.suffix k _ _ (by simp [hk]) (by simp [Fleet.lines, hk, Trial.fleet, Phase.fleet])
  · have hempty := hserved.before k
      (by simpa [Fleet.lines, hk, Trial.fleet, Phase.fleet] using hne) j hj
    simpa [Fleet.lines, hj', Trial.fleet, Phase.fleet] using hempty
  · intro clock trial queues nJobs hkeys hfill
    have hnd' : queues.Nodup := by
      rw [hkeys] at hnd
      exact hnd.of_map _
    rw [← hfill.flatMap_listAt hnd', ← hkeys]
    exact hpre

/-- Two workers on two queues of three jobs: the second queue is served last. -/
theorem global_priority_order_two_queues : ∃ (db₀ : Db Entry) (t : Trial (List Nat)),
    Filled (.envelopes []) (fun _ => some 1000) 0 ["a", "b"] 3 db₀ ∧
    t.phase.hub.ledger.removed.map Entry.index = [0, 2, 1] ∧
    t.phase.hub.ledger.removed <+: ((List.range 2).flatMap (RoundRobin.dealt 2 3)).map
      (jobEntry (.envelopes []) (fun _ => some 1000) 0) := by
  obtain ⟨db₀, t, hdb, hrun, hout⟩ : ∃ (db₀ : Db Entry) (t : Trial (List Nat)),
      Filled (.envelopes []) (fun _ => some 1000) 0 ["a", "b"] 3 db₀ ∧
      Machine.Reach (Trial.step (.envelopes []) Hdr.bucketed) (fun a => a.isFail = false)
        ⟨db₀, runDrainTrial Hdr.bucketed ⟨queueKeys ["a", "b"], 3, []⟩ 2⟩ t ∧
      t.phase.hub.ledger.removed.map Entry.index = [0, 2, 1] :=
    ⟨(clearAndFill (.envelopes []) (fun _ => some 1000) 0 ["a", "b"] 3 false
        (fun _ => none)).get (by decide +kernel), _, ⟨false, fun _ => none, (Option.some_get _).symm⟩,
      Machine.reach_get ([.worker 0 .start, .worker 1 .start, .worker 0 .check, .worker 1 .check,
        .worker 0 .issue, .worker 1 .issue, .worker 1 .exec, .worker 0 .exec, .worker 0 .receive,
        .worker 0 (.record none), .worker 0 .count, .worker 0 .signal, .worker 0 .check,
        .worker 0 .issue, .worker 0 .exec, .worker 0 .receive, .worker 0 .issue, .worker 0 .exec])
        (by decide) (by decide +kernel), by decide +kernel⟩
  exact ⟨db₀, t, hdb, hout, (global_priority_order (by decide) hrun).2.2 _ _ ["a", "b"] 3 rfl hdb⟩

end ResqueBench
