import ResqueBench.PriorityOrder
import ResqueBench.CounterLedger

/-! Vigilance of the fleet. A scan answered by nil throughout has found every queue
empty, so while a job is queued only a failed `LPOP` sends a worker to sleep. -/

namespace ResqueBench

open Redis Threads

/-- No `LPOP` of the scan failed. -/
def Answered (scan : List (Nat × Answer)) : Prop := ∀ p ∈ scan, p.2 ≠ .error

theorem Answered.of_concat {scan : List (Nat × Answer)} {p : Nat × Answer}
    (h : Answered (scan ++ [p])) : Answered scan := fun q hq => h q (by simp [hq])

theorem not_answered_error {scan : List (Nat × Answer)} {k : Nat} :
    ¬ Answered (scan ++ [(k, .error)]) := fun h => h (k, .error) (by simp) rfl

/-- A finished scan that was answered and hit no job. -/
def Fruitless (scan : List (Nat × Answer)) : Prop := ∀ p ∈ scan, p.2 = .nil

theorem Fruitless.answered {scan : List (Nat × Answer)} (h : Fruitless scan) : Answered scan :=
  fun p hp he => by rw [h p hp] at he; cases he

/-- What the scans say about the queues. -/
structure Vigilant (keys : List String) (f : Fleet) : Prop where
  workers : ∀ w ∈ f.workers, Answered w.scan → Passed keys f.shared.db w
  finished : ∀ scan ∈ f.shared.hub.ledger.scans, Fruitless scan →
    EmptyBelow keys f.shared.db keys.length

section Move

variable {serde : Serde} {pw : PollWorker} {s s' : Shared} {w w' : Worker} {a : WorkerAct}

/-- A worker that fails an `LPOP` claims nothing about its queue; otherwise a scan
goes on as `Passed` says. -/
theorem Move.vigilant (h : Move serde pw s w a s' w')
    (hp : Answered w.scan → Passed pw.queueKeys s.db w)
    (hs : ∀ key, listAt s'.db key <:+ listAt s.db key)
    (hf : ∀ scan ∈ s.hub.ledger.scans, Fruitless scan →
      EmptyBelow pw.queueKeys s.db pw.queueKeys.length) :
    (Answered w'.scan → Passed pw.queueKeys s'.db w') ∧
      ∀ scan ∈ s'.hub.ledger.scans, Fruitless scan →
        EmptyBelow pw.queueKeys s.db pw.queueKeys.length := by
  have hadd : ∀ {scan}, (Fruitless scan → EmptyBelow pw.queueKeys s.db pw.queueKeys.length) →
      ∀ scan' ∈ s.hub.ledger.scans ++ [scan], Fruitless scan' →
        EmptyBelow pw.queueKeys s.db pw.queueKeys.length := by
    intro scan hscan scan' hm
    rcases List.mem_append.mp hm with hm | hm
    · exact hf scan' hm
    · rw [List.mem_singleton.mp hm]
      exact hscan
  cases h with
  | enter hpc hb => exact ⟨fun _ j hj => absurd hj (Nat.not_lt_zero j), hf⟩
  | issue k hpc hk => exact ⟨fun ha => by simpa [Passed, hpc] using hp ha, hf⟩
  | pop k key e rest hpc hk hl hdb =>
    refine ⟨fun ha => ?_, hf⟩
    have hp' : EmptyBelow pw.queueKeys s.db k := by simpa [Passed, hpc] using hp ha
    exact ⟨hp'.mono hs, fun hj => by simp [Answer.jobs] at hj⟩
  | empty k key b hpc hk hl hb =>
    refine ⟨fun ha => ?_, hf⟩
    have hp' : EmptyBelow pw.queueKeys s.db k := by simpa [Passed, hpc] using hp ha
    exact ⟨hp', fun _ => hp'.succ hk hl⟩
  | failSent k hpc => exact ⟨fun ha => absurd ha not_answered_error, hf⟩
  | failReplied k b hpc => exact ⟨fun ha => absurd ha not_answered_error, hf⟩
  | error k hpc => exact ⟨fun ha => absurd ha not_answered_error, hf⟩
  | payload k e hpc =>
    refine ⟨fun _ => trivial, hadd (fun hfruit => ?_)⟩
    have hnil := hfruit (k, .payload e) (by simp)
    cases hnil
  | nil k hpc =>
    refine ⟨fun ha => ?_, hf⟩
    have hp' := hp ha.of_concat
    simp only [Passed, hpc] at hp'
    exact hp'.2 rfl
  | miss k hpc hk =>
    refine ⟨fun _ => trivial, hadd (fun hfruit => ?_)⟩
    have hp' : EmptyBelow pw.queueKeys s.db k := by simpa [Passed, hpc] using hp hfruit.answered
    exact fun j hj => hp' j (by omega)
  | abort => exact ⟨hp, hf⟩
  | _ => exact ⟨fun _ => trivial, hf⟩

end Move

theorem Vigilant.step {serde : Serde} {pw : PollWorker} {f f' : Fleet} {a : FleetAct}
    (hf : Vigilant pw.queueKeys f)
    (h : FleetMove serde pw f a f') : Vigilant pw.queueKeys f' := by
  have hs := h.suffix
  cases h with
  | worker i a w w' s' hw hm =>
    have hmem := List.mem_of_getElem? hw
    have hm' := hm.vigilant (hf.workers w hmem) hs hf.finished
    exact ⟨forall_set (fun v hv ha => (hf.workers v hv ha).mono hs) hm'.1,
      fun scan hscan hfruit => (hm'.2 scan hscan hfruit).mono hs⟩
  | latePop j k key e rest hj hk hl hdb =>
    exact ⟨fun w hw ha => (hf.workers w hw ha).mono hs,
      fun scan hscan hfruit => (hf.finished scan hscan hfruit).mono hs⟩
  | lateEmpty j k key hj hk hl => exact ⟨hf.workers, hf.finished⟩
  | shutdown => exact ⟨hf.workers, hf.finished⟩
  | recv sample rest hl => exact ⟨hf.workers, hf.finished⟩

theorem Vigilant.new (keys : List String) (db : Db Entry) (nWorkers : Nat) :
    Vigilant keys (.new db nWorkers) := by
  refine ⟨fun w hw _ => ?_, fun scan hs => by simp [Fleet.new, Hub.new] at hs⟩
  simp only [Fleet.new, List.mem_replicate] at hw
  rw [hw.2]
  trivial

def errorsIn (scan : List (Nat × Answer)) : Nat := scan.countP (fun p => p.2 = .error)

/-- The key and the job at which a scan ended, if it hit. -/
def hitOf (scan : List (Nat × Answer)) : Option (Nat × Entry) :=
  match scan.getLast? with
  | some (k, .payload e) => some (k, e)
  | _ => none

theorem hitOf_payload (pre : List (Nat × Answer)) (k : Nat) (e : Entry) :
    hitOf (pre ++ [(k, .payload e)]) = some (k, e) := by
  simp [hitOf]

theorem Misses.hitOf {k : Nat} {scan : List (Nat × Answer)} (h : Misses k scan) :
    hitOf scan = none := by
  cases hl : scan.getLast? with
  | none => simp [ResqueBench.hitOf, hl]
  | some p =>
    have hjobs := h.2 p (List.mem_of_getLast? hl)
    obtain ⟨j, a⟩ := p
    cases a with
    | payload e => simp [Answer.jobs] at hjobs
    | nil => simp [ResqueBench.hitOf, hl]
    | error => simp [ResqueBench.hitOf, hl]

/-- A finished scan without a hit and without a failure was answered by nil throughout. -/
theorem FinishedScan.fruitless {nKeys : Nat} {scan : List (Nat × Answer)}
    (h : FinishedScan nKeys scan) (hhit : hitOf scan = none) (herr : errorsIn scan = 0) :
    Fruitless scan := by
  rcases h with ⟨k, _, e, pre, rfl, _⟩ | hm
  · rw [hitOf_payload] at hhit
    cases hhit
  · intro p hp
    have hjobs := hm.2 p hp
    have hne : p.2 ≠ .error := by
      simpa using List.countP_eq_zero.mp herr p hp
    cases ha : p.2 with
    | payload e => simp [ha, Answer.jobs] at hjobs
    | nil => rfl
    | error => exact absurd ha hne

/-- The job whose hit branch a worker is in. -/
def underway (w : Worker) : Multiset Entry :=
  match w.pc with
  | .hit e | .recorded e => {e}
  | _ => 0

/-- The accounts of the finished scans: their hits are the jobs counted or underway,
and each failed `LPOP` is in one scan. -/
structure Tallied (nKeys : Nat) (f : Fleet) : Prop where
  hits : (((f.shared.hub.ledger.scans.filterMap hitOf).map Prod.snd : List Entry) : Multiset Entry) =
    total underway f.workers + (f.shared.hub.ledger.counted : Multiset Entry)
  errs : f.shared.hub.ledger.errs = total (fun w => errorsIn w.scan) f.workers +
    (f.shared.hub.ledger.scans.map errorsIn).sum
  opened : ∀ w ∈ f.workers, openPolls w ≤ nKeys

section Move

variable {serde : Serde} {pw : PollWorker} {s s' : Shared} {w w' : Worker} {a : WorkerAct}

theorem Move.hits (h : Move serde pw s w a s' w') (ho : OpenScan pw.queueKeys.length w) :
    ((((s'.hub.ledger.scans.filterMap hitOf).map Prod.snd : List Entry)) : Multiset Entry) +
      (underway w + (s.hub.ledger.counted : Multiset Entry)) =
    (((s.hub.ledger.scans.filterMap hitOf).map Prod.snd : List Entry) : Multiset Entry) +
      (underway w' + (s'.hub.ledger.counted : Multiset Entry)) := by
  cases h with
  | payload k e hpc =>
    simp [underway, hpc, hitOf_payload]
  | miss k hpc hk =>
    simp only [OpenScan, hpc] at ho
    simp [underway, hpc, ho.2.hitOf]
  | count e hpc =>
    simp [underway, hpc, List.perm_iff_count, List.count_cons]
  | _ => simp [underway, failedLpop, droppedTask, *]

theorem Move.errs_scanned (h : Move serde pw s w a s' w') :
    s'.hub.ledger.errs + (errorsIn w.scan + (s.hub.ledger.scans.map errorsIn).sum) =
      s.hub.ledger.errs + (errorsIn w'.scan + (s'.hub.ledger.scans.map errorsIn).sum) := by
  cases h <;> simp [errorsIn, failedLpop, droppedTask, List.countP_append] <;> omega

theorem Move.openPolls_le (h : Move serde pw s w a s' w') (ho : OpenScan pw.queueKeys.length w)
    (hle : openPolls w ≤ pw.queueKeys.length) : openPolls w' ≤ pw.queueKeys.length := by
  cases h with
  | issue k hpc hk =>
    simp only [OpenScan, hpc] at ho
    simp [openPolls, awaiting, ho.2.length, hk]
  | abort => exact hle
  | _ =>
    simp_all [OpenScan, openPolls, awaiting, failedLpop, droppedTask]
    try omega

end Move

theorem Tallied.step {serde : Serde} {pw : PollWorker} {f f' : Fleet} {a : FleetAct}
    (hf : Tallied pw.queueKeys.length f) (ho : Scanned pw.queueKeys.length f)
    (h : FleetMove serde pw f a f') : Tallied pw.queueKeys.length f' := by
  cases h with
  | worker i a w w' s' hw hm =>
    have hmem := List.mem_of_getElem? hw
    have hopen := ho.workers w hmem
    exact ⟨total_balance hw hf.hits (hm.hits hopen), total_balance hw hf.errs hm.errs_scanned,
      forall_set hf.opened (hm.openPolls_le hopen (hf.opened w hmem))⟩
  | _ => exact ⟨hf.hits, hf.errs, hf.opened⟩

theorem Tallied.new (nKeys : Nat) (db : Db Entry) (nWorkers : Nat) :
    Tallied nKeys (.new db nWorkers) := by
  refine ⟨by simp [Fleet.new, Hub.new, Worker.new, underway], by simp [Fleet.new, Hub.new,
    Worker.new, errorsIn], fun w hw => ?_⟩
  simp only [Fleet.new, List.mem_replicate] at hw
  simp [hw.2, openPolls, Worker.new, awaiting]

structure Attentive (keys : List String) (f : Fleet) : Prop where
  scanned : Scanned keys.length f
  vigilant : Vigilant keys f
  tallied : Tallied keys.length f

theorem attentive_of_reach {H : Type} {serde : Serde} {hdr : Hdr H} {db₀ : Db Entry} {p₀ : Phase H}
    {t : Trial H} {cfg : TrialConfig} {nWorkers : Nat}
    (hp : p₀ = runDrainTrial hdr cfg nWorkers ∨ p₀ = runIdlePollTrial cfg.queueKeys nWorkers)
    (h : Machine.Runs (Trial.step serde hdr) ⟨db₀, p₀⟩ t) : Attentive cfg.queueKeys t.fleet := by
  have hkeys : p₀.tasks.pollWorker.queueKeys = cfg.queueKeys := by rcases hp with rfl | rfl <;> rfl
  have hnew : p₀.fleet db₀ = .new db₀ nWorkers := by rcases hp with rfl | rfl <;> rfl
  have hstart : Attentive p₀.tasks.pollWorker.queueKeys (p₀.fleet db₀) := by
    rw [hnew]
    exact ⟨.new _ db₀ nWorkers, .new _ db₀ nWorkers, .new _ db₀ nWorkers⟩
  rw [← hkeys]
  exact (fleet_invariant (fun hf hm _ => ⟨hf.scanned.step hm, hf.vigilant.step hm,
    hf.tallied.step hf.scanned hm⟩) h hstart).2

/-- The scans after which a worker went to sleep. -/
def sleeps (scans : List (List (Nat × Answer))) : Nat :=
  scans.countP (fun scan => (hitOf scan).isNone)

theorem sum_lengths {nKeys : Nat} {scans : List (List (Nat × Answer))}
    (h : ∀ scan ∈ scans, FinishedScan nKeys scan) :
    (scans.map List.length).sum =
      ((scans.filterMap hitOf).map (fun hit => hit.1 + 1)).sum + nKeys * sleeps scans := by
  induction scans with
  | nil => simp [sleeps]
  | cons scan scans ih =>
    have hrest := ih (fun s hs => h s (by simp [hs]))
    simp only [sleeps] at hrest
    rcases h scan (by simp) with ⟨k, _, e, pre, rfl, hm⟩ | hm
    · simp [sleeps, hitOf_payload, hrest, hm.length]
      omega
    · simp [sleeps, hm.hitOf, hrest, hm.length, Nat.mul_add]
      omega

theorem hit_lt {nKeys : Nat} {scan : List (Nat × Answer)} {k : Nat} {e : Entry}
    (h : FinishedScan nKeys scan) (hhit : hitOf scan = some (k, e)) : k < nKeys := by
  rcases h with ⟨j, hj, e', pre, rfl, _⟩ | hm
  · rw [hitOf_payload] at hhit
    cases hhit
    exact hj
  · rw [hm.hitOf] at hhit
    cases hhit

theorem sum_hits_le {nKeys : Nat} {scans : List (List (Nat × Answer))}
    (h : ∀ scan ∈ scans, FinishedScan nKeys scan) :
    ((scans.filterMap hitOf).map (fun hit => hit.1 + 1)).sum ≤
      nKeys * (scans.filterMap hitOf).length := by
  have hle := List.sum_le_card_nsmul ((scans.filterMap hitOf).map (fun hit => hit.1 + 1)) nKeys
    (fun m hm => by
      obtain ⟨⟨k, e⟩, hhit, rfl⟩ := List.mem_map.mp hm
      obtain ⟨scan, hscan, he⟩ := List.mem_filterMap.mp hhit
      exact hit_lt (h scan hscan) he)
  simpa [Nat.mul_comm] using hle

theorem sleeps_le {nKeys : Nat} {scans : List (List (Nat × Answer))}
    (h : ∀ scan ∈ scans, FinishedScan nKeys scan) (hno : ∀ scan ∈ scans, ¬ Fruitless scan) :
    sleeps scans ≤ (scans.map errorsIn).sum := by
  induction scans with
  | nil => simp [sleeps]
  | cons scan scans ih =>
    have hrest := ih (fun s hs => h s (by simp [hs])) (fun s hs => hno s (by simp [hs]))
    simp only [sleeps] at hrest
    have hfail : hitOf scan = none → 0 < errorsIn scan := by
      intro hhit
      by_contra herr
      exact hno scan (by simp) ((h scan (by simp)).fruitless hhit (by omega))
    cases hhit : hitOf scan with
    | none =>
      have := hfail hhit
      simp [sleeps, hhit]
      omega
    | some hit =>
      simp [sleeps, hhit]
      omega

theorem card_total_underway (ws : List Worker) :
    Multiset.card (total underway ws) = total inHit ws := by
  induction ws with
  | nil => rfl
  | cons w ws ih =>
    have hw : Multiset.card (underway w) = inHit w := by
      unfold underway inHit
      split <;> simp_all
    simp [hw, ih]

theorem Tallied.length_hits {nKeys : Nat} {f : Fleet} (h : Tallied nKeys f) (hb : Balanced f) :
    (f.shared.hub.ledger.scans.filterMap hitOf).length = f.shared.hub.ledger.payloads := by
  have hcard := congrArg Multiset.card h.hits
  simp only [Multiset.coe_card, List.length_map, Multiset.card_add, card_total_underway] at hcard
  rw [hcard, hb.answered]

/-- A scan that every queue answered with nil proves the queues empty for the rest of
the phase. So while a job is queued a worker goes to sleep at most once for each
failed `LPOP`, and the number of `LPOP`s is bounded by the jobs found so far. -/
theorem no_sleep_over_jobs {H : Type} {serde : Serde} {hdr : Hdr H} {db₀ : Db Entry} {p₀ : Phase H}
    {t : Trial H} {cfg : TrialConfig} {nWorkers : Nat}
    (hp : p₀ = runDrainTrial hdr cfg nWorkers ∨ p₀ = runIdlePollTrial cfg.queueKeys nWorkers)
    (h : Machine.Runs (Trial.step serde hdr) ⟨db₀, p₀⟩ t) :
    (∀ scan ∈ t.phase.hub.ledger.scans, Fruitless scan →
      ∀ t', Machine.Runs (Trial.step serde hdr) t t' →
        ∀ key ∈ cfg.queueKeys, listAt t'.db key = []) ∧
    ((∃ key ∈ cfg.queueKeys, listAt t.db key ≠ []) →
      sleeps t.phase.hub.ledger.scans ≤ t.phase.hub.ledger.errs ∧
      t.phase.hub.metrics.polls ≤ cfg.queueKeys.length *
        (t.phase.hub.ledger.payloads + t.phase.hub.ledger.errs + t.phase.workers.length)) := by
  have hatt := attentive_of_reach hp h
  have hempty : ∀ scan ∈ t.phase.hub.ledger.scans, Fruitless scan →
      ∀ key ∈ cfg.queueKeys, listAt t.db key = [] := by
    intro scan hscan hfruit key hkey
    obtain ⟨k, hk, rfl⟩ := List.mem_iff_getElem.mp hkey
    exact hatt.vigilant.finished scan hscan hfruit k hk _ (List.getElem?_eq_getElem hk)
  refine ⟨fun scan hscan hfruit t' h' key hkey => ?_, fun hjobs => ?_⟩
  · have hsuffix : listAt t'.db key <:+ listAt t.db key :=
      (fleet_invariant (P := fun f => listAt f.shared.db key <:+ listAt t.db key)
        (fun hf hm _ => (hm.suffix key).trans hf) h' List.suffix_rfl).2
    exact List.eq_nil_of_suffix_nil (hempty scan hscan hfruit key hkey ▸ hsuffix)
  · obtain ⟨key, hkey, hne⟩ := hjobs
    have hno : ∀ scan ∈ t.phase.hub.ledger.scans, ¬ Fruitless scan :=
      fun scan hscan hfruit => hne (hempty scan hscan hfruit key hkey)
    have hb : Balanced t.fleet := by
      rcases hp with rfl | rfl <;> exact balanced_of_reach nWorkers rfl h
    have hsleeps := sleeps_le hatt.scanned.finished hno
    have herrs := hatt.tallied.errs
    have hpolls := hb.scanned
    have hlengths := sum_lengths hatt.scanned.finished
    have hhits := sum_hits_le hatt.scanned.finished
    rw [hatt.tallied.length_hits hb] at hhits
    have hopened : total openPolls t.fleet.workers ≤ cfg.queueKeys.length * t.fleet.workers.length := by
      have hle := List.sum_le_card_nsmul (t.fleet.workers.map openPolls) cfg.queueKeys.length
        (fun m hm => by
          obtain ⟨w, hw, rfl⟩ := List.mem_map.mp hm
          exact hatt.tallied.opened w hw)
      simpa [total, Nat.mul_comm] using hle
    simp only [Trial.fleet, Phase.fleet] at hsleeps herrs hpolls hlengths hhits hopened
    have hslept : sleeps t.phase.hub.ledger.scans ≤ t.phase.hub.ledger.errs := by omega
    have hmul := Nat.mul_le_mul_left cfg.queueKeys.length hslept
    refine ⟨hslept, ?_⟩
    rw [Nat.mul_add, Nat.mul_add]
    omega

/-- The first `LPOP` of the trial fails, and its worker sleeps over two queued jobs. -/
theorem no_sleep_over_jobs_failed : ∃ t : Trial (List Nat),
    sleeps t.phase.hub.ledger.scans = 1 ∧ t.phase.hub.ledger.errs = 1 ∧
    sleeps t.phase.hub.ledger.scans ≤ t.phase.hub.ledger.errs := by
  let cfg : TrialConfig := ⟨queueKeys ["default"], 2, []⟩
  obtain ⟨t, hrun, hout⟩ : ∃ t : Trial (List Nat),
      Machine.Runs (Trial.step (.envelopes []) Hdr.bucketed)
        ⟨twoJobs, runDrainTrial Hdr.bucketed cfg 1⟩ t ∧
      (sleeps t.phase.hub.ledger.scans = 1 ∧ t.phase.hub.ledger.errs = 1 ∧
        listAt t.db "queue:default" ≠ []) :=
    ⟨_, Machine.runs_get [.worker 0 .start, .worker 0 .check, .worker 0 .issue, .worker 0 .fail,
      .worker 0 .miss] (by decide +kernel), by decide +kernel⟩
  obtain ⟨_, hbusy⟩ := no_sleep_over_jobs
    (.inl (rfl : _ = runDrainTrial Hdr.bucketed cfg 1)) hrun
  exact ⟨t, hout.1, hout.2.1, (hbusy ⟨"queue:default", by decide, hout.2.2⟩).1⟩

end ResqueBench
