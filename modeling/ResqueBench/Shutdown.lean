import ResqueBench.CounterLedger

/-! The shutdown of a worker. Whatever it was doing when the signal was sent, it goes
on to the end of its scan or job at most: a rank falls with each step it takes. -/

namespace ResqueBench

open Redis Threads

/-- The `LPOP`s of the scan in progress that are still to be issued. -/
def Worker.unissued (nKeys : Nat) (w : Worker) : Nat :=
  match w.pc with
  | .scan k => nKeys - k
  | .sent k | .replied k _ => nKeys - (k + 1)
  | _ => 0

/-- The job that the worker may still count. -/
def Worker.uncountedJobs (w : Worker) : Nat :=
  match w.pc with
  | .scan _ | .sent _ | .replied _ _ | .hit _ | .recorded _ => 1
  | _ => 0

/-- A bound on the steps left to a worker that has been told to stop. -/
def Worker.rank (nKeys : Nat) (w : Worker) : Nat :=
  match w.pc with
  | .spawned => 2
  | .top => 1
  | .scan k => 3 * (nKeys - k) + 5
  | .sent k => 3 * (nKeys - k) + 4
  | .replied k _ => 3 * (nKeys - k) + 3
  | .hit _ => 4
  | .recorded _ => 3
  | .counted _ => 2
  | .select => 2
  | .returned => 0
  | .dropped _ => 0

theorem Worker.rank_le (nKeys : Nat) (w : Worker) : w.rank nKeys ≤ 3 * nKeys + 5 := by
  unfold Worker.rank
  split <;> omega

theorem Worker.unissued_le (nKeys : Nat) (w : Worker) : w.unissued nKeys ≤ nKeys := by
  unfold Worker.unissued
  split <;> omega

theorem Worker.uncountedJobs_le (w : Worker) : w.uncountedJobs ≤ 1 := by
  unfold Worker.uncountedJobs
  split <;> omega

section Move

variable {serde : Serde} {pw : PollWorker} {s s' : Shared} {w w' : Worker} {a : WorkerAct}

theorem Move.unissued (h : Move serde pw s w a s' w')
    (hs : a = .check → s.hub.shutdown.borrow = true) :
    (if a = .issue then 1 else 0) + w'.unissued pw.queueKeys.length ≤
      w.unissued pw.queueKeys.length := by
  cases h with
  | enter hpc hb => simp [hs rfl] at hb
  | issue k hpc hk =>
    simp only [Worker.unissued, hpc, if_true]
    omega
  | _ => simp_all [Worker.unissued, failedLpop, droppedTask]

theorem Move.uncountedJobs (h : Move serde pw s w a s' w') (hs : s.hub.shutdown.borrow = true) :
    (if a = .count then 1 else 0) + w'.uncountedJobs ≤ w.uncountedJobs := by
  cases h with
  | enter hpc hb => simp [hs] at hb
  | _ => simp_all [Worker.uncountedJobs, failedLpop, droppedTask]

theorem Move.rank (h : Move serde pw s w a s' w') (hs : s.hub.shutdown.borrow = true)
    (ho : OpenScan pw.queueKeys.length w) :
    (if a = .abort then 0 else 1) + w'.rank pw.queueKeys.length ≤ w.rank pw.queueKeys.length := by
  cases h with
  | enter hpc hb => simp [hs] at hb
  | _ =>
    simp_all [Worker.rank, OpenScan, failedLpop, droppedTask]
    try omega

theorem Move.check_cases (h : Move serde pw s w .check s' w') :
    w.pc = .top ∧ ((s.hub.shutdown.borrow = true ∧ w'.pc = .returned) ∨
      (s.hub.shutdown.borrow = false ∧ w'.pc = .scan 0)) := by
  cases h with
  | stop hpc hb => exact ⟨hpc, .inl ⟨hb, rfl⟩⟩
  | enter hpc hb => exact ⟨hpc, .inr ⟨hb, rfl⟩⟩

theorem Move.check (h : Move serde pw s w .check s' w') (hs : s.hub.shutdown.borrow = true) :
    w'.pc = .returned := by
  rcases h.check_cases.2 with ⟨_, hpc⟩ | ⟨hb, _⟩
  · exact hpc
  · simp [hs] at hb

/-- No shutdown is marked as seen before it is sent, and a dropped worker was aborted. -/
structure Watchful (f : Fleet) : Prop where
  unseen : ∀ w ∈ f.workers, w.seen = 0
  aborted : ∀ w ∈ f.workers, ∀ b, w.pc = .dropped b → w.abortRequested = true
  sent : f.shared.hub.shutdown.borrow = true → 0 < f.shared.hub.shutdown.version

theorem Move.shutdown (h : Move serde pw s w a s' w') : s'.hub.shutdown = s.hub.shutdown := by
  cases h <;> simp [failedLpop, droppedTask]

theorem Move.watchful (h : Move serde pw s w a s' w') :
    w'.seen = w.seen ∧ ∀ b, w'.pc = .dropped b → w'.abortRequested = true := by
  cases h with
  | abort => exact ⟨rfl, fun _ _ => rfl⟩
  | _ => simp_all [failedLpop, droppedTask]

theorem Watchful.step {f f' : Fleet} {act : FleetAct} (h : Watchful f)
    (hm : FleetMove serde pw f act f') : Watchful f' := by
  cases hm with
  | worker i a w w' s' hw hm =>
    have hmem := List.mem_of_getElem? hw
    obtain ⟨hseen, hdropped⟩ := hm.watchful
    refine ⟨forall_set h.unseen (hseen.trans (h.unseen w hmem)), forall_set h.aborted hdropped, ?_⟩
    dsimp only
    rw [hm.shutdown]
    exact h.sent
  | shutdown => exact ⟨h.unseen, h.aborted, fun _ => Nat.succ_pos _⟩
  | _ => exact ⟨h.unseen, h.aborted, h.sent⟩

theorem FleetMove.shutdown_kept {f f' : Fleet} {act : FleetAct} (h : FleetMove serde pw f act f')
    (hs : f.shared.hub.shutdown.borrow = true) : f'.shared.hub.shutdown.borrow = true := by
  cases h with
  | worker i a w w' s' hw hm =>
    dsimp only
    rw [hm.shutdown]
    exact hs
  | shutdown => rfl
  | _ => exact hs

theorem FleetMove.pc_kept {f f' : Fleet} {act : FleetAct} {i : Nat}
    (h : FleetMove serde pw f act f') (hact : ∀ b, act = .worker i b → b = .abort)
    (hw : f.workers[i]? = some w) : ∃ w', f'.workers[i]? = some w' ∧ w'.pc = w.pc := by
  cases h with
  | worker j b v v' s' hv hm =>
    by_cases hj : j = i
    · subst hj
      obtain rfl : v = w := Option.some.inj (hv.symm.trans hw)
      have hlt := (List.getElem?_eq_some_iff.mp hw).1
      obtain rfl := hact b rfl
      cases hm with
      | abort => exact ⟨{ v with abortRequested := true }, by simp [hlt], rfl⟩
    · exact ⟨w, by simpa [hj] using hw, rfl⟩
  | _ => exact ⟨w, hw, rfl⟩

theorem FleetStutter.pc_kept {f f' : Fleet} {act : Option FleetAct} {i : Nat}
    (h : FleetStutter serde pw f act f') (hact : ∀ j b, act = some (.worker j b) → b = .abort)
    (hw : f.workers[i]? = some w) : ∃ w', f'.workers[i]? = some w' ∧ w'.pc = w.pc := by
  cases act with
  | none =>
    obtain rfl : f' = f := h
    exact ⟨w, hw, rfl⟩
  | some act =>
    have hf : FleetMove serde pw f act f' := h
    exact hf.pc_kept (fun b hb => hact i b (congrArg some hb)) hw

end Move

section Phase

variable {H : Type} {serde : Serde} {hdr : Hdr H} {db db' : Db Entry} {p p' : Phase H}
  {a : PhaseAct} {i : Nat} {w : Worker}

theorem PhaseMove.worker_cases (h : PhaseMove serde hdr db p a db' p')
    (hw : p.workers[i]? = some w) :
    ∃ w', p'.workers[i]? = some w' ∧
      ((∃ b, a = .worker i b ∧ b ≠ .abort ∧
          Move serde p.tasks.pollWorker ⟨db, p.hub⟩ w b ⟨db', p'.hub⟩ w') ∨
        ((∀ b, a ≠ .worker i b) ∧ w'.pc = w.pc)) := by
  cases h with
  | worker j b f hb hf =>
    by_cases hj : j = i
    · subst hj
      cases hf with
      | worker j b v v' s' hv hm =>
        obtain rfl : v = w := Option.some.inj (hv.symm.trans hw)
        have hlt := (List.getElem?_eq_some_iff.mp hw).1
        exact ⟨v', by simp [Phase.fleet, hlt], .inl ⟨b, rfl, hb, hm⟩⟩
    · obtain ⟨w', hw', hpc⟩ := hf.pc_kept (fun c hc => absurd (FleetAct.worker.inj hc).1 hj) hw
      exact ⟨w', hw', .inr ⟨fun c hc => hj (PhaseAct.worker.inj hc).1, hpc⟩⟩
  | late j f hf =>
    obtain ⟨w', hw', hpc⟩ := hf.pc_kept (by simp) hw
    exact ⟨w', hw', .inr ⟨by simp, hpc⟩⟩
  | drain cfg d d' a act f ht hm hf =>
    obtain ⟨w', hw', hpc⟩ := hf.pc_kept (by rintro j b rfl; cases hm; rfl) hw
    exact ⟨w', hw', .inr ⟨by simp, hpc⟩⟩
  | idle queueKeys t t' a act f ht hm hf =>
    obtain ⟨w', hw', hpc⟩ := hf.pc_kept (by rintro j b rfl; cases hm; rfl) hw
    exact ⟨w', hw', .inr ⟨by simp, hpc⟩⟩

theorem Phase.step_worker {b : WorkerAct} (hb : b ≠ .abort) (hw : p.workers[i]? = some w)
    {s' : Shared} {w' : Worker}
    (h : p.tasks.pollWorker.step serde ⟨db, p.hub⟩ w b = some (s', w')) :
    p.stepAmid serde hdr (db, .worker i b) =
      some ⟨s'.hub, p.workers.set i w', p.tasks⟩ := by
  simp [Phase.stepAmid, Phase.step, hb, Phase.apply, Fleet.step, Phase.fleet, Threads.stepAt, hw, h]

/-- What holds of a phase in all its runs, whatever the database is made to be. -/
structure Kept (pw : PollWorker) (p : Phase H) : Prop where
  poll : p.tasks.pollWorker = pw
  watchful : ∀ db, Watchful (p.fleet db)
  scanned : ∀ db, Scanned pw.queueKeys.length (p.fleet db)

variable {pw : PollWorker} {x : Db Entry × PhaseAct}

theorem Kept.step (h : Kept pw p) (hstep : p.stepAmid serde hdr x = some p') : Kept pw p' := by
  obtain ⟨db', hm⟩ := Phase.stepAmid_move hstep
  obtain ⟨hpoll, act, hf, _⟩ := hm.fleet
  rw [h.poll] at hpoll hf
  have hwatchful : Watchful (p'.fleet db') := hf.keep (h.watchful x.1) (fun _ hf => (h.watchful x.1).step hf)
  have hscanned : Scanned pw.queueKeys.length (p'.fleet db') :=
    hf.keep (h.scanned x.1) (fun _ hf => (h.scanned x.1).step hf)
  exact ⟨hpoll, fun _ => { hwatchful with }, fun _ => { hscanned with }⟩

/-- The phase has been told to stop, and it has a worker `i`. -/
structure Told (pw : PollWorker) (i : Nat) (p : Phase H) : Prop where
  kept : Kept pw p
  told : p.hub.shutdown.borrow = true
  worker : ∃ w, p.workers[i]? = some w

theorem Told.openScan (h : Told pw i p) (hw : p.workers[i]? = some w) :
    OpenScan pw.queueKeys.length w :=
  (h.kept.scanned (fun _ => none)).workers w (List.mem_of_getElem? hw)

theorem Told.step (h : Told pw i p) (hstep : p.stepAmid serde hdr x = some p') :
    Told pw i p' := by
  obtain ⟨db', hm⟩ := Phase.stepAmid_move hstep
  obtain ⟨w, hw⟩ := h.worker
  obtain ⟨w', hw', _⟩ := hm.worker_cases hw
  obtain ⟨_, act, hf, _⟩ := hm.fleet
  refine ⟨h.kept.step hstep, ?_, w', hw'⟩
  exact hf.keep (P := fun f => f.shared.hub.shutdown.borrow = true) h.told
    (fun _ hf => hf.shutdown_kept h.told)

/-- Whether a step is one that worker `i` takes, of some kind. -/
def ofWorker (i : Nat) (kind : WorkerAct → Bool) (x : Db Entry × PhaseAct) : Bool :=
  match x.2 with
  | .worker j a => j == i && kind a
  | _ => false

theorem ofWorker_self {i : Nat} {kind : WorkerAct → Bool} {x : Db Entry × PhaseAct}
    {b : WorkerAct} (hx : x.2 = .worker i b) : ofWorker i kind x = kind b := by
  simp [ofWorker, hx]

theorem ofWorker_other {i : Nat} {kind : WorkerAct → Bool} {x : Db Entry × PhaseAct}
    (hx : ∀ b, x.2 ≠ .worker i b) : ofWorker i kind x = false := by
  unfold ofWorker
  split
  · rename_i j b hj
    have hji : j ≠ i := fun he => hx b (he ▸ hj)
    simp [hji]
  · rfl

def Phase.budget (m : Worker → Nat) (i : Nat) (p : Phase H) : Nat :=
  (p.workers[i]?.map m).getD 0

/-- A measure of a worker that its steps of some kind use up bounds their number. -/
theorem Told.spend (m : Worker → Nat) (kind : WorkerAct → Bool)
    (hmove : ∀ {s s' w w' b}, Move serde pw s w b s' w' → b ≠ .abort →
      s.hub.shutdown.borrow = true → OpenScan pw.queueKeys.length w →
      (if kind b = true then 1 else 0) + m w' ≤ m w)
    (hpc : ∀ {w w' : Worker}, w'.pc = w.pc → m w' = m w) {acts : List (Db Entry × PhaseAct)}
    (h : Told pw i p) (hrun : Machine.run (Phase.stepAmid serde hdr) p acts = some p') :
    acts.countP (ofWorker i kind) + p'.budget m i ≤ p.budget m i := by
  refine (Machine.run_budget (P := Told pw i) (fun hp hstep => ⟨hp.step hstep, ?_⟩) hrun h).2
  rename_i u y v
  obtain ⟨db', hm⟩ := Phase.stepAmid_move hstep
  obtain ⟨w, hw⟩ := hp.worker
  obtain ⟨w', hw', hcase⟩ := hm.worker_cases hw
  have hbudget : u.budget m i = m w ∧ v.budget m i = m w' := by simp [Phase.budget, hw, hw']
  rw [hbudget.1, hbudget.2]
  rcases hcase with ⟨b, hb, hne, hmv⟩ | ⟨hother, hsame⟩
  · rw [hp.kept.poll] at hmv
    have hle := hmove hmv hne hp.told (hp.openScan hw)
    simpa [ofWorker_self hb] using hle
  · simp [ofWorker_other hother, hpc hsame]

theorem Watchful.new (db : Db Entry) (nWorkers : Nat) : Watchful (.new db nWorkers) := by
  have hnew : ∀ w ∈ (Fleet.new db nWorkers).workers, w = .new := fun w hw =>
    (List.mem_replicate.mp hw).2
  refine ⟨fun w hw => ?_, fun w hw b hb => ?_, fun hs => by cases hs⟩
  · rw [hnew w hw]
    rfl
  · rw [hnew w hw] at hb
    cases hb

theorem kept_of_runs {p₀ : Phase H} {nWorkers : Nat} (hnew : ∀ db, p₀.fleet db = .new db nWorkers)
    (h : Machine.Runs (Phase.stepAmid serde hdr) p₀ p) : Kept p₀.tasks.pollWorker p := by
  refine h.invariant (fun hk _ hstep => hk.step hstep) ⟨rfl, fun db => ?_, fun db => ?_⟩
  · rw [hnew]
    exact .new db nWorkers
  · rw [hnew]
    exact .new _ db nWorkers

/-- A worker that has not ended can take a step, if only that its `LPOP` fails. -/
theorem PollWorker.live (serde : Serde) (pw : PollWorker) (s : Shared) {w : Worker}
    (hw : w.pc.isTerminal = false) :
    ∃ b, b ≠ .abort ∧ b ≠ .drop ∧ (pw.step serde s w b).isSome = true := by
  cases hpc : w.pc with
  | spawned => exact ⟨.start, by simp, by simp, by simp [PollWorker.step, hpc]⟩
  | top =>
    refine ⟨.check, by simp, by simp, ?_⟩
    simp only [PollWorker.step, hpc]
    split <;> rfl
  | scan k =>
    by_cases hk : k < pw.queueKeys.length
    · exact ⟨.issue, by simp, by simp, by simp [PollWorker.step, hpc, hk]⟩
    · exact ⟨.miss, by simp, by simp, by simp [PollWorker.step, hpc, hk]⟩
  | sent k => exact ⟨.fail, by simp, by simp, by simp [PollWorker.step, hpc]⟩
  | replied k a => exact ⟨.fail, by simp, by simp, by simp [PollWorker.step, hpc]⟩
  | hit e =>
    refine ⟨.record none, by simp, by simp, ?_⟩
    simp only [PollWorker.step, hpc]
    split <;> rfl
  | recorded e => exact ⟨.count, by simp, by simp, by simp [PollWorker.step, hpc]⟩
  | counted done =>
    refine ⟨.signal, by simp, by simp, ?_⟩
    simp only [PollWorker.step, hpc]
    split
    · split <;> rfl
    · rfl
  | select => exact ⟨.wake, by simp, by simp, by simp [PollWorker.step, hpc]⟩
  | returned => simp [hpc, Pc.isTerminal] at hw
  | dropped b => simp [hpc, Pc.isTerminal] at hw

theorem Told.check (h : Told pw i p)
    (hstep : p.stepAmid serde hdr (db, .worker i .check) = some p') :
    p'.workers[i]?.map Worker.pc = some .returned := by
  obtain ⟨db', hm⟩ := Phase.stepAmid_move hstep
  obtain ⟨w, hw⟩ := h.worker
  obtain ⟨w', hw', ⟨b, hb, _, hmv⟩ | ⟨hother, _⟩⟩ := hm.worker_cases hw
  · obtain rfl : WorkerAct.check = b := (PhaseAct.worker.inj hb).2
    simp [hw', hmv.check h.told]
  · exact absurd rfl (hother .check)

theorem Told.notice (h : Told pw i p) (hw : p.workers[i]? = some w) (hpc : w.pc = .select)
    (db : Db Entry) : ∃ p', p.stepAmid serde hdr (db, .worker i .notice) = some p' ∧
      p'.workers[i]?.map Worker.pc = some .returned := by
  have hwatch := h.kept.watchful db
  have hseen : w.seen = 0 := hwatch.unseen w (List.mem_of_getElem? hw)
  have hsent : 0 < p.hub.shutdown.version := hwatch.sent h.told
  have hchanged : p.hub.shutdown.changed w.seen = true := by
    simp only [Watch.changed, hseen, bne_iff_ne]
    omega
  have hlt := (List.getElem?_eq_some_iff.mp hw).1
  have hstep : p.tasks.pollWorker.step serde ⟨db, p.hub⟩ w .notice =
      some (⟨db, p.hub⟩, { w with pc := .returned }) := by
    simp [PollWorker.step, hpc, hchanged]
  exact ⟨_, Phase.step_worker (by simp) hw hstep, by simp [hlt]⟩

/-- After the shutdown was sent, whatever worker `i` was doing and whatever the others
do: it issues at most one more `LPOP` for each key, counts at most one more job and
enters no further scan. Waiting, it can return at once. It takes boundedly many steps,
and where it can take no more it has returned, unless it was aborted. -/
theorem shutdown_not_lost {p₀ p₁ p₂ : Phase H} {cfg : TrialConfig} {nWorkers : Nat}
    {acts : List (Db Entry × PhaseAct)}
    (hp : p₀ = runDrainTrial hdr cfg nWorkers ∨ p₀ = runIdlePollTrial cfg.queueKeys nWorkers)
    (h₁ : Machine.Runs (Phase.stepAmid serde hdr) p₀ p₁) (hs : p₁.hub.shutdown.borrow = true)
    (h₂ : Machine.run (Phase.stepAmid serde hdr) p₁ acts = some p₂)
    (hi : p₁.workers[i]?.isSome = true) :
    acts.countP (ofWorker i (· == .issue)) ≤ cfg.queueKeys.length ∧
    acts.countP (ofWorker i (· == .count)) ≤ 1 ∧
    acts.countP (ofWorker i (fun _ => true)) ≤ 3 * cfg.queueKeys.length + 5 ∧
    (∀ pre db u, pre ++ [(db, .worker i .check)] <+: acts →
      Machine.run (Phase.stepAmid serde hdr) p₁ (pre ++ [(db, .worker i .check)]) = some u →
      u.workers[i]?.map Worker.pc = some .returned) ∧
    ∃ w, p₂.workers[i]? = some w ∧
      (w.pc = .select → ∀ db, ∃ u, p₂.stepAmid serde hdr (db, .worker i .notice) = some u ∧
        u.workers[i]?.map Worker.pc = some .returned) ∧
      ((∀ db b, b ≠ .drop → p₂.stepAmid serde hdr (db, .worker i b) = none) →
        w.pc = .returned ∨ w.abortRequested = true) := by
  have hnew : (∀ db, p₀.fleet db = .new db nWorkers) ∧
      p₀.tasks.pollWorker.queueKeys = cfg.queueKeys := by
    rcases hp with rfl | rfl <;> exact ⟨fun _ => rfl, rfl⟩
  have htold : Told p₀.tasks.pollWorker i p₁ :=
    ⟨kept_of_runs hnew.1 h₁, hs, Option.isSome_iff_exists.mp hi⟩
  have hfinal : Told p₀.tasks.pollWorker i p₂ :=
    (Machine.runs_of_run h₂).invariant (fun ht _ hstep => ht.step hstep) htold
  obtain ⟨w₁, hw₁⟩ := htold.worker
  have hbudget : ∀ m : Worker → Nat, p₁.budget m i = m w₁ := fun m => by
    simp [Phase.budget, hw₁]
  rw [← hnew.2]
  refine ⟨?_, ?_, ?_, fun pre db u hpre hu => ?_, ?_⟩
  · have hspend := htold.spend (Worker.unissued p₀.tasks.pollWorker.queueKeys.length)
      (· == .issue) (fun hm _ hb _ => by simpa using hm.unissued (fun _ => hb))
      (fun he => by simp [Worker.unissued, he]) h₂
    have hle := w₁.unissued_le p₀.tasks.pollWorker.queueKeys.length
    rw [hbudget] at hspend
    omega
  · have hspend := htold.spend Worker.uncountedJobs (· == .count)
      (fun hm _ hb _ => by simpa using hm.uncountedJobs hb)
      (fun he => by simp [Worker.uncountedJobs, he]) h₂
    have hle := w₁.uncountedJobs_le
    rw [hbudget] at hspend
    omega
  · have hspend := htold.spend (Worker.rank p₀.tasks.pollWorker.queueKeys.length)
      (fun _ => true) (fun hm hne hb ho => by simpa [hne] using hm.rank hb ho)
      (fun he => by simp [Worker.rank, he]) h₂
    have hle := w₁.rank_le p₀.tasks.pollWorker.queueKeys.length
    rw [hbudget] at hspend
    omega
  · rw [Machine.run_concat] at hu
    obtain ⟨v, hv, hstep⟩ := Option.bind_eq_some_iff.mp hu
    have hmid : Told p₀.tasks.pollWorker i v :=
      (Machine.runs_of_run hv).invariant (fun ht _ hstep => ht.step hstep) htold
    exact hmid.check hstep
  · obtain ⟨w, hw⟩ := hfinal.worker
    refine ⟨w, hw, fun hpc db => hfinal.notice hw hpc db, fun hstuck => ?_⟩
    let db : Db Entry := fun _ => none
    have hended : w.pc.isTerminal = true := by
      by_contra hlive
      obtain ⟨b, hne, hnd, hstep⟩ := p₂.tasks.pollWorker.live serde ⟨db, p₂.hub⟩
        (Bool.eq_false_iff.mpr hlive)
      obtain ⟨r, hr⟩ := Option.isSome_iff_exists.mp hstep
      have htaken : p₂.stepAmid serde hdr (db, .worker i b) = some _ :=
        Phase.step_worker hne hw hr
      rw [hstuck db b hnd] at htaken
      cases htaken
    cases hpc : w.pc with
    | returned => exact .inl rfl
    | dropped b =>
      exact .inr ((hfinal.kept.watchful db).aborted w (List.mem_of_getElem? hw) b hpc)
    | _ => simp [hpc, Pc.isTerminal] at hended

end Phase

/-- The signal finds the worker awaiting an `LPOP`, which is answered with a job. -/
theorem shutdown_not_lost_in_scan : ∃ (p₁ p₂ : Phase (List Nat))
    (acts : List (Db Entry × PhaseAct)), p₁.workers.map Worker.pc = [.sent 0] ∧
    p₂.workers.map Worker.pc = [.returned] ∧
    Machine.run (Phase.stepAmid (.envelopes [(0, 1000), (1, 1000)]) Hdr.bucketed) p₁ acts =
      some p₂ ∧
    acts.countP (ofWorker 0 (· == .count)) ≤ 1 := by
  let cfg : TrialConfig := ⟨queueKeys ["default"], 2, []⟩
  let acts : List (Db Entry × PhaseAct) := [.worker 0 .exec, .worker 0 .receive,
    .worker 0 (.record (some 5000)), .worker 0 .count, .worker 0 .signal,
    .worker 0 .check].map (fun a => (twoJobs, a))
  obtain ⟨p₁, h₁, hp₁⟩ : ∃ p₁, Machine.Runs (Phase.stepAmid (.envelopes [(0, 1000), (1, 1000)])
      Hdr.bucketed) (runDrainTrial Hdr.bucketed cfg 1) p₁ ∧
      (p₁.hub.shutdown.borrow && p₁.workers.map Worker.pc == [.sent 0] &&
        (Machine.run (Phase.stepAmid (.envelopes [(0, 1000), (1, 1000)]) Hdr.bucketed) p₁ acts).any
          (fun p₂ => p₂.workers.map Worker.pc == [.returned])) = true :=
    Machine.runs_any ([.worker 0 .start, .worker 0 .check, .worker 0 .issue, .drain .timeout,
      .drain .stopMonitor, .drain .shutdown].map (fun a => (twoJobs, a))) (by decide +kernel)
  simp only [Bool.and_eq_true, beq_iff_eq] at hp₁
  obtain ⟨⟨hs, hsent⟩, hrun⟩ := hp₁
  obtain ⟨p₂, h₂, hreturned⟩ := Machine.run_any acts hrun
  have hi : p₁.workers[0]?.isSome = true := by
    have hlen := congrArg List.length hsent
    simp only [List.length_map, List.length_singleton] at hlen
    simp [hlen]
  obtain ⟨_, hcounts, _⟩ := shutdown_not_lost (.inl (rfl : _ = runDrainTrial Hdr.bucketed cfg 1)) h₁ hs
    h₂ hi
  exact ⟨p₁, p₂, acts, hsent, beq_iff_eq.mp hreturned, h₂, hcounts⟩

end ResqueBench
