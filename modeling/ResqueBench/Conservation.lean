import ResqueBench.QueueContents
import ResqueBench.Custody

/-! Job conservation. A phase is a custody of its pushed jobs: a pop takes a job,
a count delivers it, a failed or aborted `LPOP` drops it. -/

namespace ResqueBench

open Redis Threads

def Fleet.custody (keys : List String) (f : Fleet) : Custody.State Entry where
  waiting := queued keys f.shared.db
  held := total heldBy f.workers
  delivered := f.shared.hub.ledger.counted
  lost := f.shared.hub.ledger.lost

section Move

variable {serde : Serde} {pw : PollWorker} {w w' : Worker} {s s' : Shared} {a : WorkerAct}

/-- A worker step pops one job into the worker's hands, counts the job it holds,
loses it, or moves no job. -/
theorem Move.jobs (h : Move serde pw s w a s' w') :
    (∃ (k : Nat) (key : String) (e : Entry) (rest : List Entry),
      pw.queueKeys[k]? = some key ∧ listAt s.db key = e :: rest ∧
      (∀ key', listAt s'.db key' = if key' = key then rest else listAt s.db key') ∧
      heldBy w = 0 ∧ heldBy w' = {e} ∧
      s'.hub.ledger.counted = s.hub.ledger.counted ∧ s'.hub.ledger.lost = s.hub.ledger.lost) ∨
    (∃ e, s'.db = s.db ∧ heldBy w = {e} ∧ heldBy w' = 0 ∧
      s'.hub.ledger.counted = s.hub.ledger.counted ++ [e] ∧
      s'.hub.ledger.lost = s.hub.ledger.lost) ∨
    (∃ e, s'.db = s.db ∧ heldBy w = {e} ∧ heldBy w' = 0 ∧
      s'.hub.ledger.counted = s.hub.ledger.counted ∧
      s'.hub.ledger.lost = s.hub.ledger.lost ++ [e]) ∨
    (s'.db = s.db ∧ heldBy w' = heldBy w ∧
      s'.hub.ledger.counted = s.hub.ledger.counted ∧ s'.hub.ledger.lost = s.hub.ledger.lost) := by
  cases h with
  | pop k key e rest hpc hk hl hdb =>
    exact .inl ⟨k, key, e, rest, hk, hl, hdb, by simp [heldBy, hpc], rfl, rfl, rfl⟩
  | count e hpc => exact .inr (.inl ⟨e, rfl, by simp [heldBy, hpc], rfl, rfl, rfl⟩)
  | failReplied k b hpc =>
    cases b with
    | payload e => exact .inr (.inr (.inl ⟨e, rfl, by simp [heldBy, hpc], rfl, rfl, rfl⟩))
    | nil => exact .inr (.inr (.inr ⟨rfl, by simp [heldBy, hpc, failedLpop], rfl,
        by simp [failedLpop, Answer.jobs]⟩))
    | error => exact .inr (.inr (.inr ⟨rfl, by simp [heldBy, hpc, failedLpop], rfl,
        by simp [failedLpop, Answer.jobs]⟩))
  | dropReplied k b hpc ha =>
    cases b with
    | payload e => exact .inr (.inr (.inl ⟨e, rfl, by simp [heldBy, hpc], rfl, rfl, rfl⟩))
    | nil => exact .inr (.inr (.inr ⟨rfl, by simp [heldBy, hpc, droppedTask], rfl,
        by simp [droppedTask, Answer.jobs]⟩))
    | error => exact .inr (.inr (.inr ⟨rfl, by simp [heldBy, hpc, droppedTask], rfl,
        by simp [droppedTask, Answer.jobs]⟩))
  | empty k key b hpc hk hl hb =>
    refine .inr (.inr (.inr ⟨rfl, ?_, rfl, rfl⟩))
    cases b <;> simp_all [heldBy, Answer.jobs]
  | _ => exact .inr (.inr (.inr ⟨rfl, by simp [heldBy, failedLpop, droppedTask, *], rfl,
      by simp [failedLpop, droppedTask]⟩))

end Move

theorem Move.custody {serde : Serde} {pw : PollWorker} {f : Fleet} {i : Nat} {w w' : Worker}
    {s' : Shared} {a : WorkerAct} (hnd : pw.queueKeys.Nodup) (hw : f.workers[i]? = some w)
    (h : Move serde pw f.shared w a s' w') :
    Relation.ReflTransGen Custody.Step (f.custody pw.queueKeys)
      (Fleet.custody pw.queueKeys ⟨s', f.workers.set i w'⟩) := by
  have ht := total_set heldBy w' hw
  have happ : ∀ (l : List Entry) (e : Entry), ((l ++ [e] : List Entry) : Multiset Entry) =
      e ::ₘ (l : Multiset Entry) := by
    intro l e
    rw [← Multiset.coe_add, add_comm, Multiset.coe_singleton, Multiset.singleton_add]
  rcases h.jobs with ⟨k, key, e, rest, hk, hl, hdb, hh, hh', hc, hlo⟩ | ⟨e, hdb, hh, hh', hc, hlo⟩ |
    ⟨e, hdb, hh, hh', hc, hlo⟩ | ⟨hdb, hh, hc, hlo⟩
  · rw [hh, hh', add_zero, add_comm, Multiset.singleton_add] at ht
    exact .single (.take e (queued_pop hnd (List.mem_of_getElem? hk) hl hdb) ht
      (by simp [Fleet.custody, hc]) (by simp [Fleet.custody, hlo]))
  · rw [hh, hh', add_zero, add_comm, Multiset.singleton_add] at ht
    exact .single (.deliver e (by simp [Fleet.custody, hdb]) ht.symm
      (by simp only [Fleet.custody, hc, happ]) (by simp [Fleet.custody, hlo]))
  · rw [hh, hh', add_zero, add_comm, Multiset.singleton_add] at ht
    exact .single (.drop e (by simp [Fleet.custody, hdb]) ht.symm
      (by simp [Fleet.custody, hc]) (by simp only [Fleet.custody, hlo, happ]))
  · rw [hh] at ht
    have hheld := add_right_cancel ht
    have heq : Fleet.custody pw.queueKeys ⟨s', f.workers.set i w'⟩ = f.custody pw.queueKeys := by
      simp only [Fleet.custody, hdb, hc, hlo, hheld]
    rw [heq]

/-- A fleet step is at most two custody steps: a late `LPOP` pops and loses at once. -/
theorem FleetMove.custody {serde : Serde} {pw : PollWorker} {f f' : Fleet} {a : FleetAct}
    (hnd : pw.queueKeys.Nodup) (h : FleetMove serde pw f a f') :
    Relation.ReflTransGen Custody.Step (f.custody pw.queueKeys) (f'.custody pw.queueKeys) := by
  cases h with
  | worker i a w w' s' hw hm => exact hm.custody hnd hw
  | latePop j k key e rest hj hk hl hdb =>
    have hpop := queued_pop hnd (List.mem_of_getElem? hk) hl hdb
    have htake : Custody.Step (f.custody pw.queueKeys)
        ⟨queued pw.queueKeys (exec f.shared.db (.lpop key)).1, e ::ₘ total heldBy f.workers,
          f.shared.hub.ledger.counted, f.shared.hub.ledger.lost⟩ := .take e hpop rfl rfl rfl
    refine .tail (.single htake) (.drop e rfl rfl rfl ?_)
    simp only [Fleet.custody, ← Multiset.coe_add, Multiset.coe_singleton]
    rw [add_comm, Multiset.singleton_add]
  | lateEmpty j k key hj hk hl => exact .refl
  | shutdown => exact .refl
  | recv sample rest hl => exact .refl

/-- What the workers of a fleet hold or have counted. -/
def Fleet.carried (f : Fleet) : Multiset Entry :=
  total heldBy f.workers + (f.shared.hub.ledger.counted : Multiset Entry)

theorem Balanced.carried_le {f : Fleet} (h : Balanced f) :
    f.carried ≤ f.shared.hub.ledger.removed := by
  rw [h.removed, ← add_assoc]
  exact Multiset.le_add_right _ _

theorem Balanced.counted_le {f : Fleet} :
    (f.shared.hub.ledger.counted : Multiset Entry) ≤ f.carried := Multiset.le_add_left _ _

theorem Balanced.decided_le {f : Fleet} (h : Balanced f) :
    ((f.shared.hub.ledger.sent.map Sample.job : List Entry) : Multiset Entry) +
      f.shared.hub.ledger.rejected ≤ f.carried := by
  have hle : total recordedBy f.workers ≤ total heldBy f.workers :=
    List.sum_le_sum (fun v _ => recordedBy_le_heldBy v)
  rw [h.recorded]
  exact add_le_add_left hle _

theorem Balanced.sent_le {f : Fleet} (h : Balanced f) :
    ((f.shared.hub.ledger.sent.map Sample.job : List Entry) : Multiset Entry) ≤ f.carried :=
  (Multiset.le_add_right _ _).trans h.decided_le

/-- Only a worker's pop adds to what the workers carry. -/
theorem FleetMove.carried {serde : Serde} {pw : PollWorker} {f f' : Fleet} {a : FleetAct}
    (h : FleetMove serde pw f a f') : f'.carried ≤ f.carried ∨
    ∃ key e rest, key ∈ pw.queueKeys ∧ listAt f.shared.db key = e :: rest ∧
      f'.carried = e ::ₘ f.carried := by
  cases h with
  | worker i a w w' s' hw hm =>
    have ht := total_set heldBy w' hw
    unfold Fleet.carried
    rcases hm.jobs with ⟨k, key, e, rest, hk, hl, _, hh, hh', hc, _⟩ | ⟨e, _, hh, hh', hc, _⟩ |
      ⟨e, _, hh, hh', hc, _⟩ | ⟨_, hh, hc, _⟩
    · rw [hh, hh', add_zero] at ht
      refine .inr ⟨key, e, rest, List.mem_of_getElem? hk, hl, ?_⟩
      rw [ht, hc, ← Multiset.singleton_add]
      ac_rfl
    · rw [hh, hh', add_zero] at ht
      refine .inl (le_of_eq ?_)
      rw [hc, ← ht, ← Multiset.coe_add, Multiset.coe_singleton]
      ac_rfl
    · rw [hh, hh', add_zero] at ht
      refine .inl ?_
      rw [hc, ← ht]
      exact add_le_add_left (Multiset.le_add_right _ _) _
    · rw [hh] at ht
      refine .inl (le_of_eq ?_)
      rw [hc, add_right_cancel ht]
  | _ => exact .inl (le_refl _)

structure Conserved (keys : List String) (db₀ : Db Entry) (f : Fleet) : Prop where
  balanced : Balanced f
  drained : Drained keys db₀ f
  custody : (f.custody keys).stock = queued keys db₀

theorem Conserved.new (keys : List String) (db₀ : Db Entry) (nWorkers : Nat) :
    Conserved keys db₀ (.new db₀ nWorkers) where
  balanced := .new db₀ nWorkers
  drained := .new keys db₀ nWorkers
  custody := by simp [Fleet.custody, Fleet.new, Hub.new, Custody.State.stock, heldBy, Worker.new]

theorem Conserved.step {serde : Serde} {pw : PollWorker} {db₀ : Db Entry} {f f' : Fleet}
    {a : FleetAct} (hnd : pw.queueKeys.Nodup) (hf : Conserved pw.queueKeys db₀ f)
    (h : FleetMove serde pw f a f') : Conserved pw.queueKeys db₀ f' where
  balanced := hf.balanced.step h
  drained := hf.drained.step hnd h
  custody := (Custody.stock_eq_of_reach (h.custody hnd)).trans hf.custody

theorem conserved_of_reach {H : Type} {serde : Serde} {hdr : Hdr H} {ok : PhaseAct → Prop}
    {db₀ : Db Entry} {t : Trial H} (p₀ : Phase H) (nWorkers : Nat)
    (hnd : p₀.tasks.pollWorker.queueKeys.Nodup) (hnew : p₀.fleet db₀ = .new db₀ nWorkers)
    (h : Machine.Reach (Trial.step serde hdr) ok ⟨db₀, p₀⟩ t) :
    Conserved p₀.tasks.pollWorker.queueKeys db₀ t.fleet := by
  have hstart : Conserved p₀.tasks.pollWorker.queueKeys db₀ (p₀.fleet db₀) := by
    rw [hnew]
    exact .new _ db₀ nWorkers
  exact (fleet_invariant (fun hf hm _ => hf.step hnd hm) h hstart).2

theorem runDrainTrial_conserved {H : Type} {serde : Serde} {hdr : Hdr H} {ok : PhaseAct → Prop}
    {db₀ : Db Entry} {queues : List String} {nJobs nWorkers : Nat} {specs : List PercentileSpec}
    {t : Trial H} (hnd : queues.Nodup) (h : Machine.Reach (Trial.step serde hdr) ok
      ⟨db₀, runDrainTrial hdr ⟨queueKeys queues, nJobs, specs⟩ nWorkers⟩ t) :
    Conserved (queueKeys queues) db₀ t.fleet :=
  conserved_of_reach (runDrainTrial hdr ⟨queueKeys queues, nJobs, specs⟩ nWorkers) nWorkers
    (queueKeys_nodup hnd) rfl h

inductive Place
  | queue (line : Nat)
  | worker (i : Nat)
  | counted
  | lost
deriving DecidableEq, Repr

def Place.jobs (keys : List String) (f : Fleet) : Place → Multiset Entry
  | .queue line => ((keys[line]?.map (listAt f.shared.db)).getD [] : List Entry)
  | .worker i => (f.workers[i]?.map heldBy).getD 0
  | .counted => f.shared.hub.ledger.counted
  | .lost => f.shared.hub.ledger.lost

def places (keys : List String) (f : Fleet) : List Place :=
  (List.range keys.length).map .queue ++ (List.range f.workers.length).map .worker ++
    [.counted, .lost]

theorem mem_places {keys : List String} {f : Fleet} {p : Place} {e : Entry}
    (h : e ∈ p.jobs keys f) : p ∈ places keys f := by
  cases p with
  | queue line =>
    by_cases hl : line < keys.length
    · simp [places, hl]
    · simp [Place.jobs, List.getElem?_eq_none (Nat.le_of_not_lt hl)] at h
  | worker i =>
    by_cases hi : i < f.workers.length
    · simp [places, hi]
    · simp [Place.jobs, List.getElem?_eq_none (Nat.le_of_not_lt hi)] at h
  | counted => simp [places]
  | lost => simp [places]

theorem sum_range_getElem? {α M : Type*} [AddCommMonoid M] (m : α → M) (l : List α) :
    ((List.range l.length).map (fun i => (l[i]?.map m).getD 0)).sum = total m l := by
  rw [total]
  congr 1
  apply List.ext_getElem (by simp)
  intro i h₁ h₂
  have hi : i < l.length := by simpa using h₁
  simp [hi]

theorem sum_places (keys : List String) (f : Fleet) :
    ((places keys f).map (Place.jobs keys f)).sum = (f.custody keys).stock := by
  have hq : ((List.range keys.length).map (fun line => Place.jobs keys f (.queue line))).sum =
      queued keys f.shared.db := by
    rw [queued, ← sum_range_getElem?]
    congr 1
    apply List.map_congr_left
    intro line _
    cases hk : keys[line]? <;> simp [Place.jobs, hk]
  have hw : ((List.range f.workers.length).map (fun i => Place.jobs keys f (.worker i))).sum =
      total heldBy f.workers := sum_range_getElem? heldBy f.workers
  have hrest : ([Place.counted, .lost].map (Place.jobs keys f)).sum =
      (f.shared.hub.ledger.counted : Multiset Entry) + f.shared.hub.ledger.lost := by
    simp [Place.jobs]
  simp only [places, List.map_append, List.sum_append, List.map_map, Function.comp_def, hq, hw,
    hrest, Fleet.custody, Custody.State.stock, add_assoc]

/-- The job count of the queues, as `total_queue_len` sums it. -/
def remaining (keys : List String) (db : Db Entry) : Nat :=
  (keys.map (fun key => (listAt db key).length)).sum

/-- Jobs popped by a worker and not counted yet. -/
def uncounted (workers : List Worker) : Nat := total (fun w => Multiset.card (heldBy w)) workers

theorem remaining_eq_zero_iff {keys : List String} {db : Db Entry} :
    remaining keys db = 0 ↔ ∀ key ∈ keys, listAt db key = [] := by
  rw [remaining, ← card_queued, Multiset.card_eq_zero, queued_eq_zero_iff]

theorem card_total_heldBy (ws : List Worker) : Multiset.card (total heldBy ws) = uncounted ws := by
  induction ws with
  | nil => rfl
  | cons w ws ih => simp [uncounted, ih]

theorem card_stock {keys : List String} {f : Fleet} (hf : Balanced f) :
    Multiset.card (f.custody keys).stock = remaining keys f.shared.db + uncounted f.workers +
      f.shared.hub.metrics.completed + f.shared.hub.ledger.lost.length := by
  simp only [Custody.State.stock, Fleet.custody, Multiset.card_add, card_queued,
    card_total_heldBy, Multiset.coe_card, hf.completed, remaining]

theorem stock_eq_pushedJobs {serde : Serde} {clock : Nat → Option Nat} {trial nJobs : Nat}
    {queues : List String} {db₀ : Db Entry} {f : Fleet} (hc : Conserved (queueKeys queues) db₀ f)
    (hfill : Filled serde clock trial queues nJobs db₀) (hnd : queues.Nodup) (hne : queues ≠ []) :
    (f.custody (queueKeys queues)).stock = pushedJobs serde clock trial nJobs :=
  hc.custody.trans (hfill.queued hnd hne)

theorem jobs_add_up {serde : Serde} {clock : Nat → Option Nat} {trial nJobs : Nat}
    {queues : List String} {db₀ : Db Entry} {f : Fleet} (hc : Conserved (queueKeys queues) db₀ f)
    (hfill : Filled serde clock trial queues nJobs db₀) (hnd : queues.Nodup) (hne : queues ≠ []) :
    remaining (queueKeys queues) f.shared.db + uncounted f.workers +
      f.shared.hub.metrics.completed + f.shared.hub.ledger.lost.length = nJobs := by
  rw [← card_stock hc.balanced, stock_eq_pushedJobs hc hfill hnd hne, Multiset.coe_card,
    length_pushedJobs]

theorem queue_residue {serde : Serde} {clock : Nat → Option Nat} {trial nJobs line index : Nat}
    {queues : List String} {db₀ : Db Entry} {f : Fleet}
    (hfill : Filled serde clock trial queues nJobs db₀) (hnd : queues.Nodup)
    (hs : ∀ key, listAt f.shared.db key <:+ listAt db₀ key)
    (hj : jobEntry serde clock trial index ∈ Place.jobs (queueKeys queues) f (.queue line)) :
    line = index % queues.length := by
  by_cases hl : line < queues.length
  · have hmem : jobEntry serde clock trial index ∈ listAt f.shared.db ("queue:" ++ queues[line]) := by
      simpa [Place.jobs, queueKeys, hl] using hj
    have hmem₀ := (hs _).subset hmem
    rw [hfill.listAt_queue hnd hl] at hmem₀
    obtain ⟨i, hi, he⟩ := List.mem_map.mp hmem₀
    have hidx : i = index := congrArg Entry.index he
    exact (hidx ▸ (RoundRobin.mem_dealt.mp hi).2).symm
  · simp [Place.jobs, queueKeys, hl] at hj

/-- In every reachable state of a drain trial each pushed job is in exactly one
place, the four kinds of place add up, and only failed or aborted `LPOP`s lose
jobs. -/
theorem job_conservation {H : Type} {serde : Serde} {hdr : Hdr H} {clock : Nat → Option Nat}
    {trial nJobs nWorkers : Nat} {queues : List String} {specs : List PercentileSpec}
    {db₀ : Db Entry} {t : Trial H} (hnd : queues.Nodup) (hne : queues ≠ [])
    (hfill : Filled serde clock trial queues nJobs db₀)
    (h : Machine.Runs (Trial.step serde hdr)
      ⟨db₀, runDrainTrial hdr ⟨queueKeys queues, nJobs, specs⟩ nWorkers⟩ t) :
    (∀ index < nJobs, ∃ p : Place,
      (p.jobs (queueKeys queues) t.fleet).count (jobEntry serde clock trial index) = 1 ∧
      (∀ p', jobEntry serde clock trial index ∈ p'.jobs (queueKeys queues) t.fleet → p' = p) ∧
      (∀ line, p = .queue line → line = index % queues.length)) ∧
    remaining (queueKeys queues) t.db + uncounted t.phase.workers +
      t.phase.hub.metrics.completed + t.phase.hub.ledger.lost.length = nJobs ∧
    t.phase.hub.metrics.completed ≤ nJobs ∧
    t.phase.hub.ledger.lost.length ≤
      t.phase.hub.ledger.errs + total droppedInFlight t.phase.workers := by
  have hc := runDrainTrial_conserved hnd h
  have hstock := stock_eq_pushedJobs hc hfill hnd hne
  have hsum := jobs_add_up hc hfill hnd hne
  simp only [Trial.fleet, Phase.fleet] at hsum
  refine ⟨fun index hi => ?_, hsum, by omega, ?_⟩
  · have hnodup : ((places (queueKeys queues) t.fleet).map
        (Place.jobs (queueKeys queues) t.fleet)).sum.Nodup := by
      rw [sum_places, hstock]
      exact pushedJobs_nodup serde clock trial nJobs
    have hmem : jobEntry serde clock trial index ∈ ((places (queueKeys queues) t.fleet).map
        (Place.jobs (queueKeys queues) t.fleet)).sum := by
      rw [sum_places, hstock]
      exact mem_pushedJobs.mpr ⟨index, hi, rfl⟩
    obtain ⟨p, hp, hjp, huniq⟩ := Custody.unique_place hnodup hmem
    refine ⟨p, ?_, fun p' hp' => huniq p' (mem_places hp') hp', ?_⟩
    · exact Multiset.count_eq_one_of_mem
        (Multiset.nodup_of_le (Custody.place_le_stock hp) hnodup) hjp
    · rintro line rfl
      exact queue_residue hfill hnd hc.drained.suffix hjp
  · have hl := hc.balanced.losses
    simp only [Trial.fleet, Phase.fleet] at hl
    omega

/-- One job counted, the other popped by a worker that has no reply yet. -/
theorem job_conservation_in_flight : ∃ t : Trial (List Nat),
    t.phase.hub.metrics.completed = 1 ∧ uncounted t.phase.workers = 1 ∧
    remaining (queueKeys ["default"]) t.db + uncounted t.phase.workers +
      t.phase.hub.metrics.completed + t.phase.hub.ledger.lost.length = 2 := by
  obtain ⟨t, hrun, hcompleted, huncounted⟩ : ∃ t : Trial (List Nat),
      Machine.Runs (Trial.step (.envelopes [(0, 1000), (1, 1000)]) Hdr.bucketed)
        ⟨twoJobs, runDrainTrial Hdr.bucketed ⟨queueKeys ["default"], 2, []⟩ 1⟩ t ∧
      t.phase.hub.metrics.completed = 1 ∧ uncounted t.phase.workers = 1 :=
    ⟨_, Machine.runs_get ([.worker 0 .start, .worker 0 .check, .worker 0 .issue,
      .worker 0 .exec, .worker 0 .receive, .worker 0 (.record (some 5000)), .worker 0 .count,
      .worker 0 .signal, .worker 0 .check, .worker 0 .issue, .worker 0 .exec])
      (by decide +kernel), by decide +kernel, by decide +kernel⟩
  exact ⟨t, hcompleted, huncounted,
    (job_conservation (by decide) (by decide) twoJobs_filled hrun).2.1⟩

end ResqueBench
