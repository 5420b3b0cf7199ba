import ResqueBench.TimedPolls
import ResqueBench.WindDown

/-! The poll rate from below. If nothing that a worker waits for takes longer than a lag,
but for its sleep, then its scans begin no further apart than the interval and the lags of
one scan, and the reported rate is as close to the nominal one. -/

namespace ResqueBench

open Redis Spacing

/-- A phase in time, and when each worker last went on. -/
structure Prompt (H τ : Type) where
  timed : Timed H τ
  acted : Nat → τ

def Prompt.start {H τ : Type} [Zero τ] (p : Phase H) : Prompt H τ := ⟨.start p, fun _ => 0⟩

/-- How long a worker means to stay where it is. -/
def Worker.pause {τ : Type} [Zero τ] (interval : τ) (w : Worker) : τ :=
  if w.pc = .select then interval else 0

/-- Before the shutdown, no worker is overdue at `t`. -/
def Prompt.inTime {H τ : Type} [AddMonoid τ] [LE τ] [DecidableLE τ] (interval lag : τ)
    (s : Prompt H τ) (t : τ) : Bool :=
  s.timed.phase.hub.shutdown.borrow ||
    s.timed.phase.workers.zipIdx.all (fun w => t ≤ s.acted w.2 + w.1.pause interval + lag)

def Prompt.acting {H τ : Type} (s : Prompt H τ) (t : τ) : PhaseAct → Nat → τ
  | .worker i _ => Function.update s.acted i t
  | _ => s.acted

/-- A timed step that leaves no worker overdue. -/
def Prompt.step {H τ : Type} [AddMonoid τ] [LE τ] [DecidableLE τ] (serde : Serde) (hdr : Hdr H)
    (interval lag : τ) (s : Prompt H τ) (x : τ × Db Entry × PhaseAct) : Option (Prompt H τ) :=
  if s.inTime interval lag x.1 then
    (s.timed.step serde hdr interval x).map (fun u => ⟨u, s.acting x.1 x.2.2⟩)
  else none

/-- How often worker `i` has found nothing in all queues. -/
def misses {τ : Type} (i : Nat) (acts : List (τ × Db Entry × PhaseAct)) : Nat :=
  acts.countP (fun x => ofWorker i (· == .miss) x.2)

theorem misses_concat {τ : Type} (i : Nat) (acts : List (τ × Db Entry × PhaseAct))
    (x : τ × Db Entry × PhaseAct) :
    misses i (acts ++ [x]) = misses i acts + if ofWorker i (· == .miss) x.2 = true then 1 else 0 := by
  rw [misses, List.countP_append, List.countP_singleton, misses]

/-- The steps of a worker since its last scan has ended. -/
def Pc.stage (nKeys : Nat) : Pc → Nat
  | .spawned | .select => 0
  | .top => 1
  | .scan k => 3 * k + 2
  | .sent k => 3 * k + 3
  | .replied k _ => 3 * k + 4
  | _ => 3 * nKeys + 3

def Pc.polled : Pc → Nat
  | .scan k => k
  | .sent k | .replied k _ => k + 1
  | _ => 0

/-- Where a worker can be that has found no job. -/
def Pc.Within (nKeys : Nat) : Pc → Prop
  | .scan k => k ≤ nKeys
  | .sent k | .replied k _ => k < nKeys
  | .hit _ | .recorded _ | .counted _ => False
  | _ => True

section Steps

variable {serde : Serde} {pw : PollWorker} {u u' : Shared} {w w' : Worker} {b : WorkerAct}

theorem Move.within (h : Move serde pw u w b u' w') (hpay : u'.hub.ledger.payloads = 0)
    (hw : w.pc.Within pw.queueKeys.length) : w'.pc.Within pw.queueKeys.length := by
  cases h with
  | payload k e hpc => simp at hpay
  | issue k hpc hk => exact hk
  | abort => exact hw
  | _ => simp_all [Pc.Within, failedLpop, droppedTask]

/-- A scan is three steps for each queue, and three more. -/
theorem Move.stage_lt (h : Move serde pw u w b u' w') (hb : b ≠ .abort)
    (hw : w.pc.Within pw.queueKeys.length) :
    if b = .miss then w.pc.stage pw.queueKeys.length < 3 * pw.queueKeys.length + 3 ∧ w'.pc = .select
    else w.pc.stage pw.queueKeys.length < w'.pc.stage pw.queueKeys.length ∧ w'.pc ≠ .select := by
  cases h with
  | abort => exact absurd rfl hb
  | miss k hpc hk =>
    simp only [hpc, Pc.Within, Pc.stage, if_true] at hw ⊢
    exact ⟨by omega, trivial⟩
  | _ => simp_all [Pc.Within, Pc.stage, failedLpop, droppedTask]; try omega

theorem Move.polled (h : Move serde pw u w b u' w') :
    (if b = .miss then pw.queueKeys.length else 0) + w'.pc.polled ≤
      w.pc.polled + if b = .issue then 1 else 0 := by
  cases h with
  | miss k hpc hk => simpa [hpc, Pc.polled] using hk
  | _ => simp_all [Pc.polled, failedLpop, droppedTask]

end Steps

section Time

variable {H τ : Type} [Field τ] [LinearOrder τ] {serde : Serde} {hdr : Hdr H} {pw : PollWorker}
  {interval lag t : τ} {s s' : Prompt H τ} {x : τ × Db Entry × PhaseAct}
  {acts : List (τ × Db Entry × PhaseAct)} {i nKeys : Nat} {w w' : Worker}

theorem Prompt.step_cases (h : s.step serde hdr interval lag x = some s') :
    s.inTime interval lag x.1 = true ∧ s.timed.step serde hdr interval x = some s'.timed ∧
      s'.acted = s.acting x.1 x.2.2 := by
  unfold Prompt.step at h
  split at h
  · obtain ⟨u, hu, rfl⟩ := Option.map_eq_some_iff.mp h
    exact ⟨by assumption, hu, rfl⟩
  · cases h

omit [Field τ] [LinearOrder τ] in
theorem Prompt.acting_other (hx : ∀ b, x.2.2 ≠ .worker i b) :
    s.acting t x.2.2 i = s.acted i := by
  cases ha : x.2.2 with
  | worker j b =>
    have hji : i ≠ j := fun he => hx b (he ▸ ha)
    simp [Prompt.acting, hji]
  | _ => rfl

theorem Prompt.inTime_le (h : s.inTime interval lag t = true)
    (hs : s.timed.phase.hub.shutdown.borrow = false) (hw : s.timed.phase.workers[i]? = some w) :
    t ≤ s.acted i + w.pause interval + lag := by
  simp only [Prompt.inTime, hs, Bool.false_or, List.all_eq_true] at h
  have hmem : (w, i) ∈ s.timed.phase.workers.zipIdx := List.mem_zipIdx_iff_getElem?.mpr hw
  exact of_decide_eq_true (h _ hmem)

def scanTime (interval lag : τ) (nKeys : Nat) : τ := interval + (3 * nKeys + 3) * lag

/-- What worker `i` has done by now: all it had time for. -/
structure Busy (interval lag : τ) (nKeys i : Nat) (acts : List (τ × Db Entry × PhaseAct))
    (s : Prompt H τ) (w : Worker) : Prop where
  within : w.pc.Within nKeys
  polled : nKeys * misses i acts + w.pc.polled ≤ issues i acts
  acted : s.timed.phase.hub.shutdown.borrow = false → s.acted i + w.pause interval ≤
    misses i acts * scanTime interval lag nKeys + w.pc.stage nKeys * lag
  shutdown : ∀ T db elapsed, (T, db, .idle (.shutdown elapsed)) ∈ acts →
    T ≤ misses i acts * scanTime interval lag nKeys + (3 * nKeys + 4) * lag

theorem Pc.stage_le {pc : Pc} (h : pc.Within nKeys) : pc.stage nKeys ≤ 3 * nKeys + 3 := by
  cases pc with
  | scan k =>
    have hk : k ≤ nKeys := h
    simp only [Pc.stage]
    omega
  | sent k =>
    have hk : k < nKeys := h
    simp only [Pc.stage]
    omega
  | replied k a =>
    have hk : k < nKeys := h
    simp only [Pc.stage]
    omega
  | top =>
    simp only [Pc.stage]
    omega
  | _ => simp [Pc.stage]

variable [IsStrictOrderedRing τ]

theorem scanTime_nonneg (hI : 0 ≤ interval) (hlag : 0 ≤ lag) :
    0 ≤ scanTime interval lag nKeys := by
  unfold scanTime
  positivity

/-- Of the time since the start, nothing is unaccounted for but a lag. -/
theorem Busy.inTime (h : Busy interval lag nKeys i acts s w)
    (ht : s.inTime interval lag t = true) (hs : s.timed.phase.hub.shutdown.borrow = false)
    (hw : s.timed.phase.workers[i]? = some w) :
    t ≤ misses i acts * scanTime interval lag nKeys + (w.pc.stage nKeys + 1) * lag := by
  have hle := Prompt.inTime_le ht hs hw
  have hacted := h.acted hs
  linarith

theorem Busy.move (h : Busy interval lag pw.queueKeys.length i acts s w) (hI : 0 ≤ interval)
    (hlag : 0 ≤ lag) (hstep : s.step serde hdr interval lag x = some s') {b : WorkerAct}
    (hx : x.2.2 = .worker i b) (hb : b ≠ .abort) (hw : s.timed.phase.workers[i]? = some w)
    {db' : Db Entry}
    (hm : Move serde pw ⟨x.2.1, s.timed.phase.hub⟩ w b ⟨db', s'.timed.phase.hub⟩ w')
    (hpay : s'.timed.phase.hub.ledger.payloads = 0)
    (htold : s'.timed.phase.hub.shutdown.borrow = false →
      s.timed.phase.hub.shutdown.borrow = false) :
    Busy interval lag pw.queueKeys.length i (acts ++ [x]) s' w' := by
  obtain ⟨htime, _, hacted⟩ := Prompt.step_cases hstep
  have hmisses : misses i (acts ++ [x]) = misses i acts + if b = .miss then 1 else 0 := by
    simp [misses_concat, ofWorker_self hx]
  have hissues : issues i (acts ++ [x]) = issues i acts + if b = .issue then 1 else 0 := by
    simp [issues_concat, ofWorker_self hx]
  have hstage := hm.stage_lt hb h.within
  have hscan : 0 ≤ scanTime interval lag pw.queueKeys.length := scanTime_nonneg hI hlag
  refine ⟨hm.within hpay h.within, ?_, fun hs => ?_, fun T db elapsed hT => ?_⟩
  · have hpolled := hm.polled
    have hold := h.polled
    rw [hmisses, hissues, Nat.mul_add]
    split at hpolled <;> simp_all <;> omega
  · have ht := h.inTime htime (htold hs) hw
    have hnow : s'.acted i = x.1 := by simp [hacted, Prompt.acting, hx]
    rw [hnow, hmisses]
    by_cases hmiss : b = .miss
    · rw [if_pos hmiss] at hstage
      have hlast := mul_le_mul_of_nonneg_right (Nat.cast_le.mpr hstage.1 : (_ : τ) ≤ _) hlag
      have hpause : w'.pause interval = interval := if_pos hstage.2
      have hzero : w'.pc.stage pw.queueKeys.length = 0 := by rw [hstage.2]; rfl
      rw [hpause, hzero, if_pos hmiss]
      push_cast at hlast ⊢
      have hsplit : (misses i acts + 1) * scanTime interval lag pw.queueKeys.length =
          misses i acts * scanTime interval lag pw.queueKeys.length + interval +
            (3 * pw.queueKeys.length + 3) * lag := by
        rw [scanTime]
        ring
      linarith
    · rw [if_neg hmiss] at hstage
      have hlast := mul_le_mul_of_nonneg_right (Nat.cast_le.mpr hstage.1 : (_ : τ) ≤ _) hlag
      have hpause : w'.pause interval = 0 := if_neg hstage.2
      rw [hpause, if_neg hmiss]
      push_cast at hlast ⊢
      linarith
  · rw [List.mem_append, List.mem_singleton] at hT
    rcases hT with hT | rfl
    · have hold := h.shutdown T db elapsed hT
      rw [hmisses]
      push_cast
      split <;> linarith
    · cases hx

theorem Busy.other (h : Busy interval lag nKeys i acts s w)
    (hstep : s.step serde hdr interval lag x = some s') (hx : ∀ b, x.2.2 ≠ .worker i b)
    (hpc : w'.pc = w.pc) (hw : s.timed.phase.workers[i]? = some w)
    (hlag : 0 ≤ lag)
    (htold : s'.timed.phase.hub.shutdown.borrow = false →
      s.timed.phase.hub.shutdown.borrow = false)
    (hfirst : ∀ elapsed, x.2.2 = .idle (.shutdown elapsed) →
      s.timed.phase.hub.shutdown.borrow = false) :
    Busy interval lag nKeys i (acts ++ [x]) s' w' := by
  obtain ⟨htime, _, hacted⟩ := Prompt.step_cases hstep
  have hsame : misses i (acts ++ [x]) = misses i acts ∧ issues i (acts ++ [x]) = issues i acts := by
    simp [misses_concat, issues_concat, ofWorker_other hx]
  have hacting : s'.acted i = s.acted i := hacted ▸ Prompt.acting_other hx
  have hpause : w'.pause interval = w.pause interval := by rw [Worker.pause, Worker.pause, hpc]
  refine ⟨hpc ▸ h.within, ?_, fun hs => ?_, fun T db elapsed hT => ?_⟩
  · rw [hsame.1, hsame.2, hpc]
    exact h.polled
  · rw [hacting, hpause, hsame.1, hpc]
    exact h.acted (htold hs)
  · rw [hsame.1]
    rw [List.mem_append, List.mem_singleton] at hT
    rcases hT with hT | rfl
    · exact h.shutdown T db elapsed hT
    · have ht := h.inTime htime (hfirst elapsed rfl) hw
      have hlast := mul_le_mul_of_nonneg_right
        (Nat.cast_le.mpr (Pc.stage_le h.within) : (_ : τ) ≤ _) hlag
      push_cast at hlast
      linarith

end Time

/-- The time that `run_idle_poll_trial` has measured. -/
def Tasks.elapsed {H : Type} : Tasks H → Option Rat
  | .drain _ _ => none
  | .idle _ t =>
    match t.orch with
    | .sleeping => none
    | .joining elapsed => some elapsed
    | .finished r => some r.durationS

section Fleet

variable {H τ : Type} [Field τ] [LinearOrder τ] {serde : Serde} {hdr : Hdr H} {pw : PollWorker}
  {interval lag T : τ} {s s' : Prompt H τ} {x : τ × Db Entry × PhaseAct} {n : Nat}
  {acts : List (τ × Db Entry × PhaseAct)} {db db' : Db Entry} {p p' : Phase H} {a : PhaseAct}
  {elapsed : Rat} {r : IdlePollResult}

theorem Tasks.elapsed_returned {tasks : Tasks H} (h : tasks.idleReturned = some r) :
    tasks.elapsed = some r.durationS := by
  cases tasks with
  | drain cfg d => cases h
  | idle keys t =>
    cases ho : t.orch with
    | finished r' =>
      simp only [Tasks.idleReturned, ho, Option.some.injEq] at h
      simp only [Tasks.elapsed, ho, h]
    | _ => simp [Tasks.idleReturned, ho] at h

theorem PhaseMove.elapsed_kept (h : PhaseMove serde hdr db p a db' p')
    (hp : p.tasks.elapsed = some elapsed) : p'.tasks.elapsed = some elapsed := by
  cases h with
  | drain cfg d d' b act f ht hm hf =>
    rw [ht] at hp
    cases hp
  | idle keys t t' b act f ht hm hf =>
    rw [ht] at hp
    cases hm <;> simp_all [Tasks.elapsed, idlePollResult]
  | _ => exact hp

theorem PhaseMove.shutdown (h : PhaseMove serde hdr db p (.idle (.shutdown elapsed)) db' p') :
    p.tasks.shutdownSent = false ∧ p.tasks.elapsed = none ∧ p'.tasks.elapsed = some elapsed := by
  cases h with
  | idle keys t t' b act f ht hm hf =>
    cases hm with
    | shutdown e ho =>
      rw [ht]
      simp [Tasks.shutdownSent, Tasks.elapsed, IdleOrchestrator.rank, ho]

theorem PhaseMove.not_shutdown (h : PhaseMove serde hdr db p a db' p')
    (hr : p'.tasks.idleReturned = some r) (elapsed : Rat) : a ≠ .idle (.shutdown elapsed) := by
  rintro rfl
  cases h with
  | idle keys t t' b act f ht hm hf =>
    cases hm with
    | shutdown e ho => cases hr

/-- A fleet of `n` workers each of which does all it has time for, as long as no `LPOP`
returns a job. -/
structure Brisk (interval lag : τ) (pw : PollWorker) (n : Nat)
    (acts : List (τ × Db Entry × PhaseAct)) (s : Prompt H τ) : Prop where
  timely : Timely interval pw n acts s.timed
  winding : Winding pw s.timed.phase
  measured : ∀ T db elapsed, (T, db, .idle (.shutdown elapsed)) ∈ acts →
    s.timed.phase.tasks.elapsed = some elapsed
  busy : s.timed.phase.hub.ledger.payloads = 0 → ∀ i < n, ∃ w,
    s.timed.phase.workers[i]? = some w ∧ Busy interval lag pw.queueKeys.length i acts s w
  reported : s.timed.phase.hub.ledger.payloads = 0 → ∀ r,
    s.timed.phase.tasks.idleReturned = some r →
      r.idlePollQps = (computeIdlePollQps r.totalLpopCalls r.durationS n).1 ∧
      ∀ T db elapsed, (T, db, .idle (.shutdown elapsed)) ∈ acts →
        n * (pw.queueKeys.length * (T - (3 * pw.queueKeys.length + 4) * lag)) ≤
          r.totalLpopCalls * scanTime interval lag pw.queueKeys.length

theorem Brisk.start (hdr : Hdr H) (interval lag : τ) (queueKeys : List String) (n : Nat) :
    Brisk interval lag ⟨none, queueKeys⟩ n []
      (.start (runIdlePollTrial queueKeys n) : Prompt H τ) := by
  have hphase : (runIdlePollTrial queueKeys n : Phase H) = runDrainTrial hdr ⟨queueKeys, 0, []⟩ n ∨
      (runIdlePollTrial queueKeys n : Phase H) = runIdlePollTrial queueKeys n := .inr rfl
  refine ⟨.start interval queueKeys n, Winding.new hphase, by simp, fun _ i hi => ?_,
    fun _ r hr => by cases hr⟩
  · refine ⟨.new, by simp [Prompt.start, Timed.start, runIdlePollTrial, hi], trivial, ?_, ?_, ?_⟩
    · simp [misses, issues, Worker.new, Pc.polled]
    · simp [Prompt.start, Timed.start, Worker.pause, Worker.new, misses, Pc.stage]
    · simp

variable [IsStrictOrderedRing τ]

/-- Each worker has polled in each scan time, and so the fleet. -/
theorem Brisk.polls_ge (h : Brisk interval lag pw n acts s) (hI : 0 < interval) (hlag : 0 ≤ lag)
    (hpay : s.timed.phase.hub.ledger.payloads = 0)
    (hT : (T, db, .idle (.shutdown elapsed)) ∈ acts) :
    n * (pw.queueKeys.length * (T - (3 * pw.queueKeys.length + 4) * lag)) ≤
      s.timed.phase.hub.metrics.polls * scanTime interval lag pw.queueKeys.length := by
  have hscan : 0 < scanTime interval lag pw.queueKeys.length := by
    unfold scanTime
    positivity
  have heach : ∀ q ∈ (List.range n).map (fun i => (issues i acts : τ)),
      pw.queueKeys.length * (T - (3 * pw.queueKeys.length + 4) * lag) /
        scanTime interval lag pw.queueKeys.length ≤ q := by
    intro q hq
    obtain ⟨i, hi, rfl⟩ := List.mem_map.mp hq
    obtain ⟨w, _, hb⟩ := h.busy hpay i (List.mem_range.mp hi)
    have hspent := hb.shutdown T db elapsed hT
    have hpolled : (pw.queueKeys.length * misses i acts : τ) ≤ issues i acts := by
      exact_mod_cast le_trans (Nat.le_add_right _ _) hb.polled
    rw [div_le_iff₀ hscan]
    calc pw.queueKeys.length * (T - (3 * pw.queueKeys.length + 4) * lag)
        ≤ pw.queueKeys.length * (misses i acts * scanTime interval lag pw.queueKeys.length) :=
          mul_le_mul_of_nonneg_left (by linarith) (Nat.cast_nonneg _)
      _ = pw.queueKeys.length * misses i acts * scanTime interval lag pw.queueKeys.length := by ring
      _ ≤ issues i acts * scanTime interval lag pw.queueKeys.length :=
          mul_le_mul_of_nonneg_right hpolled hscan.le
  have hsum := List.card_nsmul_le_sum _ _ heach
  have hpolls : ((List.range n).map (fun i => (issues i acts : τ))).sum =
      s.timed.phase.hub.metrics.polls := by
    rw [h.timely.polls, Nat.cast_list_sum, List.map_map]
    rfl
  rw [hpolls, List.length_map, List.length_range, nsmul_eq_mul, ← mul_div_assoc,
    div_le_iff₀ hscan] at hsum
  exact hsum

theorem Brisk.step (h : Brisk interval lag pw n acts s) (hI : 0 < interval) (hlag : 0 ≤ lag)
    (hstep : s.step serde hdr interval lag x = some s') :
    Brisk interval lag pw n (acts ++ [x]) s' := by
  obtain ⟨_, htimed, _⟩ := Prompt.step_cases hstep
  have hamid := (Timed.step_cases htimed).2.2.1
  obtain ⟨db', hm⟩ := Phase.stepAmid_move hamid
  have hwinding := h.winding.step hamid
  have htold : s'.timed.phase.hub.shutdown.borrow = false →
      s.timed.phase.hub.shutdown.borrow = false := by
    intro hs
    by_contra ht
    rw [hm.told (.inl (Bool.not_eq_false _ ▸ ht))] at hs
    cases hs
  have hfirst : ∀ elapsed, x.2.2 = .idle (.shutdown elapsed) →
      s.timed.phase.hub.shutdown.borrow = false := by
    intro elapsed hx
    rw [hx] at hm
    rw [h.winding.sent, hm.shutdown.1]
  have hpaid : s'.timed.phase.hub.ledger.payloads = 0 →
      s.timed.phase.hub.ledger.payloads = 0 := fun hpay =>
    Nat.le_zero.mp (hpay ▸ hm.payloads_le)
  refine ⟨h.timely.step hI htimed, hwinding, fun T db elapsed hT => ?_, fun hpay i hi => ?_,
    fun hpay r hr => ?_⟩
  · rw [List.mem_append, List.mem_singleton] at hT
    rcases hT with hT | rfl
    · exact hm.elapsed_kept (h.measured T db elapsed hT)
    · exact hm.shutdown.2.2
  · obtain ⟨w, hw, hb⟩ := h.busy (hpaid hpay) i hi
    obtain ⟨w', hw', ⟨b, hx, hba, hmv⟩ | ⟨hx, hpc⟩⟩ := hm.worker_cases hw
    · rw [h.winding.kept.poll] at hmv
      exact ⟨w', hw', hb.move hI.le hlag hstep hx hba hw hmv hpay htold⟩
    · exact ⟨w', hw', hb.other hstep hx hpc hw hlag htold hfirst⟩
  · have hnot := hm.not_shutdown hr
    have hbefore : ∀ T db elapsed, (T, db, .idle (.shutdown elapsed)) ∈ acts ++ [x] →
        (T, db, .idle (.shutdown elapsed)) ∈ acts := by
      intro T db elapsed hT
      rw [List.mem_append, List.mem_singleton] at hT
      rcases hT with hT | rfl
      · exact hT
      · exact absurd rfl (hnot elapsed)
    rcases hm.idleReturned hr with hr | ⟨e, rfl⟩
    · obtain ⟨hqps, hle⟩ := h.reported (hpaid hpay) r hr
      exact ⟨hqps, fun T db elapsed hT => hle T db elapsed (hbefore T db elapsed hT)⟩
    · refine ⟨rfl, fun T db elapsed hT => ?_⟩
      exact h.polls_ge hI hlag (hpaid hpay) (hbefore T db elapsed hT)

theorem Timely.polls_le [FloorSemiring τ] {s : Timed H τ} (h : Timely interval pw n acts s)
    (hI : 0 < interval) (hpay : s.phase.hub.ledger.payloads = 0)
    (hT : (T, db, .idle (.shutdown elapsed)) ∈ acts) :
    s.phase.hub.metrics.polls ≤ n * (pw.queueKeys.length * (⌊T / interval⌋₊ + 1)) := by
  have heach : ∀ q ∈ (List.range n).map (fun i => issues i acts),
      q ≤ pw.queueKeys.length * (⌊T / interval⌋₊ + 1) := by
    intro q hq
    obtain ⟨i, hi, rfl⟩ := List.mem_map.mp hq
    obtain ⟨w, _, hp⟩ := h.unhurried hpay i (List.mem_range.mp hi)
    exact hp.issues_le hI hT
  have hsum := List.sum_le_card_nsmul _ _ heach
  rwa [List.length_map, List.length_range, smul_eq_mul, ← h.polls] at hsum

end Fleet

/-- `LPOP`s in a second, if each worker begins a scan once in a `period`. -/
def nominalQps (nWorkers nKeys : Nat) (period : Rat) : Rat := nWorkers * nKeys / period

section Rate

variable {H : Type} {serde : Serde} {hdr : Hdr H} {interval lag T begun ended : Rat}
  {s : Prompt H Rat} {acts : List (Rat × Db Entry × PhaseAct)} {queueKeys : List String}
  {nWorkers : Nat} {db : Db Entry} {r : IdlePollResult}

/-- The reported rate is nominal up to what a lag adds to a scan, and up to the scan that
the measurement begins with and the one that it cuts off. The time is measured from one
reading of the clock to another: what passes before the first, while workers are there
already, and after the second, until they are told to stop, is polled in and not measured. -/
theorem idle_poll_rate_nominal (hI : 0 < interval) (hlag : 0 ≤ lag)
    (hrun : Machine.run (Prompt.step serde hdr interval lag)
      (.start (runIdlePollTrial queueKeys nWorkers)) acts = some s)
    (hnone : s.timed.phase.hub.ledger.payloads = 0)
    (hbegun : 0 ≤ begun) (hslept : begun < ended) (hended : ended ≤ T)
    (hT : (T, db, .idle (.shutdown (ended - begun))) ∈ acts)
    (hr : s.timed.phase.tasks.idleReturned = some r) :
    r.durationS = ended - begun ∧
    nominalQps nWorkers queueKeys.length (scanTime interval lag queueKeys.length) *
        (1 - (3 * queueKeys.length + 4) * lag / (ended - begun)) ≤ r.idlePollQps ∧
    r.idlePollQps ≤ nominalQps nWorkers queueKeys.length interval *
      (1 + (interval + begun + (T - ended)) / (ended - begun)) := by
  have hbrisk : Brisk interval lag ⟨none, queueKeys⟩ nWorkers acts s :=
    Machine.run_induction (P := Brisk interval lag ⟨none, queueKeys⟩ nWorkers)
      (.start hdr interval lag queueKeys nWorkers) (fun _ h hstep => h.step hI hlag hstep) hrun
  have hduration : r.durationS = ended - begun := Option.some.inj
    ((Tasks.elapsed_returned hr).symm.trans (hbrisk.measured T db _ hT))
  have he : 0 < ended - begun := sub_pos.mpr hslept
  have hlate : ended - begun ≤ T := by linarith
  have hscan : 0 < scanTime interval lag queueKeys.length := by
    unfold scanTime
    positivity
  obtain ⟨hqps, hlower⟩ := hbrisk.reported hnone r hr
  have hrate : r.idlePollQps = r.totalLpopCalls / (ended - begun) := by
    rw [hqps, hduration, computeIdlePollQps, if_pos he]
  have hcalls : (nWorkers : Rat) * (queueKeys.length * (T - (3 * queueKeys.length + 4) * lag)) ≤
      r.totalLpopCalls * scanTime interval lag queueKeys.length := hlower T db _ hT
  have hupper : (r.totalLpopCalls : Rat) ≤ nWorkers * (queueKeys.length * (T / interval + 1)) := by
    have hfloor : (⌊T / interval⌋₊ : Rat) ≤ T / interval :=
      Nat.floor_le (div_nonneg (he.le.trans hlate) hI.le)
    have hpolls := ((hbrisk.timely.clocked.reported r hr).2).trans
      (hbrisk.timely.polls_le hI hnone hT)
    calc (r.totalLpopCalls : Rat)
        ≤ nWorkers * (queueKeys.length * (⌊T / interval⌋₊ + 1)) := by exact_mod_cast hpolls
      _ ≤ nWorkers * (queueKeys.length * (T / interval + 1)) := by gcongr
  refine ⟨hduration, ?_, ?_⟩
  · have hsooner : (nWorkers : Rat) * queueKeys.length *
          (ended - begun - (3 * queueKeys.length + 4) * lag) ≤
        r.totalLpopCalls * scanTime interval lag queueKeys.length := by
      refine le_trans ?_ hcalls
      rw [mul_assoc]
      gcongr
    rw [hrate, nominalQps, le_div_iff₀ he]
    calc nWorkers * queueKeys.length / scanTime interval lag queueKeys.length *
          (1 - (3 * queueKeys.length + 4) * lag / (ended - begun)) * (ended - begun)
        = nWorkers * queueKeys.length * (ended - begun - (3 * queueKeys.length + 4) * lag) /
            scanTime interval lag queueKeys.length := by field_simp
      _ ≤ r.totalLpopCalls := (div_le_iff₀ hscan).mpr hsooner
  · rw [hrate, nominalQps, div_le_iff₀ he]
    calc (r.totalLpopCalls : Rat) ≤ nWorkers * (queueKeys.length * (T / interval + 1)) := hupper
      _ = nWorkers * queueKeys.length / interval *
          (1 + (interval + begun + (T - ended)) / (ended - begun)) * (ended - begun) := by
          field_simp
          ring

end Rate

/-- One worker, a scan each second and three of them by 3, measured from 0.5 on: 1.2
instead of 1. -/
theorem idle_poll_rate_nominal_three_scans : ∃ (s : Prompt (List Nat) Rat) (r : IdlePollResult),
    s.timed.phase.tasks.idleReturned = some r ∧ r.idlePollQps = 6 / 5 ∧
    nominalQps 1 1 (scanTime 1 (1 / 100) 1) * (1 - 7 * (1 / 100) / (5 / 2)) ≤ r.idlePollQps ∧
    r.idlePollQps ≤ nominalQps 1 1 1 * (1 + (1 + 1 / 2) / (5 / 2)) := by
  let scan (t : Rat) : List (Rat × PhaseAct) := [(t, .worker 0 .check), (t, .worker 0 .issue),
    (t, .worker 0 .exec), (t + 1 / 100, .worker 0 .receive), (t + 1 / 100, .worker 0 .miss)]
  let timed : List (Rat × PhaseAct) := List.flatten [[(0, .worker 0 .start)], scan 0,
    [(101 / 100, .worker 0 .wake)], scan (101 / 100), [(202 / 100, .worker 0 .wake)],
    scan (202 / 100), [(3, .idle (.shutdown (3 - 1 / 2))), (3, .worker 0 .notice),
    (3, .idle .readOut)]]
  let acts : List (Rat × Db Entry × PhaseAct) := timed.map (fun x => (x.1, (fun _ => none), x.2))
  obtain ⟨s, hrun, hs⟩ : ∃ s : Prompt (List Nat) Rat,
      Machine.run (Prompt.step (.envelopes []) Hdr.bucketed 1 (1 / 100))
        (.start (runIdlePollTrial (queueKeys ["default"]) 1)) acts = some s ∧
      (s.timed.phase.hub.ledger.payloads == 0 &&
        s.timed.phase.tasks.idleReturned.any (fun r => r.idlePollQps == 6 / 5)) = true :=
    Machine.run_any acts (by decide +kernel)
  simp only [Bool.and_eq_true, beq_iff_eq] at hs
  obtain ⟨hnone, hreturned⟩ := hs
  obtain ⟨r, hr, hqps⟩ := (Option.any_eq_true _ _).mp hreturned
  have hT : ((3 : Rat), (fun _ => none : Db Entry), PhaseAct.idle (.shutdown (3 - 1 / 2))) ∈ acts :=
    List.mem_map.mpr ⟨(3, .idle (.shutdown (3 - 1 / 2))), by simp [timed], rfl⟩
  obtain ⟨_, hlower, hupper⟩ := idle_poll_rate_nominal (by norm_num) (by norm_num) hrun hnone
    (by norm_num) (by norm_num) le_rfl hT hr
  refine ⟨s, r, hr, beq_iff_eq.mp hqps, le_trans (le_of_eq ?_) hlower, hupper.trans (le_of_eq ?_)⟩
  · norm_num [queueKeys]
  · norm_num [queueKeys]

end ResqueBench
