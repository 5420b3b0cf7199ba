import ResqueBench.Shutdown
import ResqueBench.IdleGate

/-! The idle phase in time. A sleep takes its interval or longer, and so the scans of
a worker begin that far apart, whatever its `LPOP`s are answered. -/

namespace Spacing

variable {τ : Type*} [Field τ] [LinearOrder τ]

/-- Instants that keep a distance from one another. -/
def Spaced (gap : τ) (l : List τ) : Prop := l.Pairwise (fun u v => u + gap ≤ v)

variable {gap a T v : τ} {l l' : List τ}

theorem Spaced.nil (gap : τ) : Spaced gap [] := List.Pairwise.nil

theorem Spaced.sublist (h : Spaced gap l) (hs : l'.Sublist l) : Spaced gap l' :=
  List.Pairwise.sublist hs h

theorem Spaced.concat (h : Spaced gap l) (hv : ∀ u ∈ l, u + gap ≤ v) : Spaced gap (l ++ [v]) := by
  refine List.pairwise_append.mpr ⟨h, List.pairwise_singleton _ _, fun u hu w hw => ?_⟩
  rw [List.mem_singleton.mp hw]
  exact hv u hu

variable [IsStrictOrderedRing τ]

theorem Spaced.span (h : Spaced gap l) (ha : a ≤ T + gap) (hl : ∀ v ∈ l, a ≤ v ∧ v ≤ T) :
    a + l.length * gap ≤ T + gap := by
  induction l generalizing a with
  | nil => simpa using ha
  | cons v l ih =>
    obtain ⟨hfirst, hrest⟩ := List.pairwise_cons.mp h
    obtain ⟨hav, hvT⟩ := hl v List.mem_cons_self
    have hnext : v + gap + l.length * gap ≤ T + gap :=
      ih hrest (by linarith) (fun u hu => ⟨hfirst u hu, (hl u (List.mem_cons_of_mem _ hu)).2⟩)
    push_cast [List.length_cons]
    linarith

theorem Spaced.length_le [FloorSemiring τ] (h : Spaced gap l) (hgap : 0 < gap)
    (hl : ∀ v ∈ l, 0 ≤ v ∧ v ≤ T) : l.length ≤ ⌊T / gap⌋₊ + 1 := by
  by_cases hT : 0 ≤ T
  · have hspan : 0 + l.length * gap ≤ T + gap := h.span (by linarith) hl
    have hratio : (l.length : τ) ≤ T / gap + 1 := by
      rw [div_add_one hgap.ne', le_div_iff₀ hgap]
      linarith
    calc l.length ≤ ⌊T / gap + 1⌋₊ := Nat.le_floor hratio
      _ = ⌊T / gap⌋₊ + 1 := Nat.floor_add_one (div_nonneg hT hgap.le)
  · have hnil : l = [] := List.eq_nil_iff_forall_not_mem.mpr
      (fun v hv => hT ((hl v hv).1.trans (hl v hv).2))
    simp [hnil]

end Spacing

namespace ResqueBench

open Redis Spacing

/-- A phase and its clock. -/
structure Timed (H τ : Type) where
  phase : Phase H
  now : τ -- since the first worker was spawned
  slept : Nat → τ -- when worker `i` last began a sleep

def Timed.start {H τ : Type} [Zero τ] (p : Phase H) : Timed H τ := ⟨p, 0, fun _ => 0⟩

/-- `sleep(poll_interval)` does not complete before the interval has elapsed. -/
def Timed.due {H τ : Type} [Add τ] [LE τ] [DecidableLE τ] (interval : τ) (s : Timed H τ) (t : τ) :
    PhaseAct → Bool
  | .worker i .wake => s.slept i + interval ≤ t
  | _ => true

def Timed.asleep {H τ : Type} (s : Timed H τ) (t : τ) : PhaseAct → Nat → τ
  | .worker i .miss => Function.update s.slept i t
  | _ => s.slept

theorem Timed.asleep_other {H τ : Type} {s : Timed H τ} {t : τ} {i : Nat} {a : PhaseAct}
    (ha : ∀ b, a ≠ .worker i b) : s.asleep t a i = s.slept i := by
  cases a with
  | worker j b =>
    have hji : i ≠ j := fun he => ha b (he ▸ rfl)
    cases b <;> simp [Timed.asleep, hji]
  | _ => rfl

/-- A step is taken at some time, among other clients. -/
def Timed.step {H τ : Type} [Add τ] [LE τ] [DecidableLE τ] (serde : Serde) (hdr : Hdr H)
    (interval : τ) (s : Timed H τ) (x : τ × Db Entry × PhaseAct) : Option (Timed H τ) :=
  if s.now ≤ x.1 && s.due interval x.1 x.2.2 then
    (s.phase.stepAmid serde hdr x.2).map (fun p => ⟨p, x.1, s.asleep x.1 x.2.2⟩)
  else none

/-- When worker `i` was at its loop head. -/
def checks {τ : Type} (i : Nat) (acts : List (τ × Db Entry × PhaseAct)) : List τ :=
  (acts.filter (fun x => ofWorker i (· == .check) x.2)).map Prod.fst

def issues {τ : Type} (i : Nat) (acts : List (τ × Db Entry × PhaseAct)) : Nat :=
  acts.countP (fun x => ofWorker i (· == .issue) x.2)

theorem checks_concat {τ : Type} (i : Nat) (acts : List (τ × Db Entry × PhaseAct))
    (x : τ × Db Entry × PhaseAct) :
    checks i (acts ++ [x]) =
      checks i acts ++ if ofWorker i (· == .check) x.2 = true then [x.1] else [] := by
  rw [checks, List.filter_append, List.map_append, checks, List.filter_singleton]
  by_cases hx : ofWorker i (· == .check) x.2 = true <;> simp [hx]

theorem issues_concat {τ : Type} (i : Nat) (acts : List (τ × Db Entry × PhaseAct))
    (x : τ × Db Entry × PhaseAct) :
    issues i (acts ++ [x]) =
      issues i acts + if ofWorker i (· == .issue) x.2 = true then 1 else 0 := by
  rw [issues, List.countP_append, List.countP_singleton, issues]

section Polls

variable {H : Type} {serde : Serde} {hdr : Hdr H} {pw : PollWorker} {db db' : Db Entry}
  {p p' : Phase H} {a : PhaseAct}

theorem FleetMove.incPoll {f f' : Fleet} {act : FleetAct} (h : FleetMove serde pw f act f')
    (hact : ∀ i, act ≠ .worker i .issue) :
    f'.shared.hub.metrics.polls = f.shared.hub.metrics.polls := by
  cases h with
  | worker i b w w' s' hw hm =>
    have hb : b ≠ .issue := fun he => hact i (he ▸ rfl)
    simp [hm.incPoll, hb]
  | _ => rfl

theorem FleetStutter.incPoll {f f' : Fleet} {act : Option FleetAct}
    (h : FleetStutter serde pw f act f') (hact : ∀ i, act ≠ some (.worker i .issue)) :
    f'.shared.hub.metrics.polls = f.shared.hub.metrics.polls := by
  cases act with
  | none =>
    obtain rfl : f' = f := h
    rfl
  | some act =>
    have hf : FleetMove serde pw f act f' := h
    exact hf.incPoll (fun i he => hact i (congrArg some he))

theorem PhaseMove.incPoll (h : PhaseMove serde hdr db p a db' p') :
    p'.hub.metrics.polls = p.hub.metrics.polls + ((List.range p.workers.length).map
      (fun i => if ofWorker i (· == .issue) (db, a) = true then 1 else 0)).sum := by
  cases h with
  | worker j b f hb hf =>
    cases hf with
    | worker j b w w' s' hw hm =>
      have hj : j < p.workers.length := (List.getElem?_eq_some_iff.mp hw).1
      have hsplit : ∀ i, (if ofWorker i (· == .issue) (db, .worker j b) = true then 1 else 0) =
          if j = i then (if b = .issue then 1 else 0) else 0 := by
        intro i
        by_cases hi : j = i <;> simp [ofWorker, hi]
      simp only [hsplit, RoundRobin.sum_range_ite, hj, if_true]
      exact hm.incPoll
  | late j f hf => simpa [ofWorker, Phase.fleet] using hf.incPoll (by simp)
  | drain cfg d d' a act f ht hm hf =>
    have hact : ∀ i, act ≠ some (.worker i .issue) := by
      rintro i rfl
      cases hm
    simpa [ofWorker, Phase.fleet] using hf.incPoll hact
  | idle queueKeys t t' a act f ht hm hf =>
    have hact : ∀ i, act ≠ some (.worker i .issue) := by
      rintro i rfl
      cases hm
    simpa [ofWorker, Phase.fleet] using hf.incPoll hact

theorem Move.payloads_le {s s' : Shared} {w w' : Worker} {b : WorkerAct}
    (h : Move serde pw s w b s' w') :
    s.hub.ledger.payloads ≤ s'.hub.ledger.payloads := by
  cases h <;> simp [failedLpop, droppedTask]

theorem FleetMove.payloads_le {f f' : Fleet} {act : FleetAct} (h : FleetMove serde pw f act f') :
    f.shared.hub.ledger.payloads ≤ f'.shared.hub.ledger.payloads := by
  cases h with
  | worker i b w w' s' hw hm => exact hm.payloads_le
  | _ => exact le_refl _

theorem PhaseMove.payloads_le (h : PhaseMove serde hdr db p a db' p') :
    p.hub.ledger.payloads ≤ p'.hub.ledger.payloads := by
  obtain ⟨_, act, hf, _⟩ := h.fleet
  exact hf.keep (P := fun f => p.hub.ledger.payloads ≤ f.shared.hub.ledger.payloads) (le_refl _)
    (fun _ hf => hf.payloads_le)

theorem PhaseMove.told (h : PhaseMove serde hdr db p a db' p')
    (hs : p.hub.shutdown.borrow = true ∨ ∃ elapsed, a = .idle (.shutdown elapsed)) :
    p'.hub.shutdown.borrow = true := by
  rcases hs with hs | ⟨elapsed, rfl⟩
  · obtain ⟨_, act, hf, _⟩ := h.fleet
    exact hf.keep (P := fun f => f.shared.hub.shutdown.borrow = true) hs
      (fun _ hf => hf.shutdown_kept hs)
  · cases h with
    | idle queueKeys t t' a act f ht hm hf =>
      cases hm with
      | shutdown elapsed ho =>
        have hmove : FleetMove serde ⟨none, queueKeys⟩ (p.fleet db) .shutdown f := hf
        cases hmove
        rfl

end Polls

section Time

variable {H τ : Type} [Field τ] [LinearOrder τ] {serde : Serde}
  {hdr : Hdr H} {pw : PollWorker} {interval slept now t v : τ} {s s' : Timed H τ}
  {x : τ × Db Entry × PhaseAct} {acts : List (τ × Db Entry × PhaseAct)} {i : Nat} {w w' : Worker}

theorem Timed.step_cases (h : s.step serde hdr interval x = some s') :
    s.now ≤ x.1 ∧ s.due interval x.1 x.2.2 = true ∧
      s.phase.stepAmid serde hdr x.2 = some s'.phase ∧ s'.now = x.1 ∧
      s'.slept = s.asleep x.1 x.2.2 := by
  unfold Timed.step at h
  split at h
  · rename_i hc
    simp only [Bool.and_eq_true, decide_eq_true_eq] at hc
    obtain ⟨p, hp, rfl⟩ := Option.map_eq_some_iff.mp h
    exact ⟨hc.1, hc.2, hp, rfl, rfl⟩
  · cases h

/-- How far worker `i` has rested since it was last at its loop head at `v`, in a run
in which no `LPOP` has returned a job. -/
def Worker.Rested (interval slept now v : τ) (w : Worker) : Prop :=
  match w.pc with
  | .spawned | .hit _ | .recorded _ | .counted _ => False
  | .top => v + interval ≤ now
  | .select => v ≤ slept ∧ slept ≤ now
  | _ => v ≤ now

theorem Worker.Rested.later (h : w.Rested interval slept now v) (ht : now ≤ t)
    (hpc : w'.pc = w.pc) : w'.Rested interval slept t v := by
  unfold Worker.Rested at h ⊢
  rw [hpc]
  cases hw : w.pc with
  | spawned | hit | recorded | counted => simp [hw] at h
  | top => simp only [hw] at h ⊢; exact h.trans ht
  | select => simp only [hw] at h ⊢; exact ⟨h.1, h.2.trans ht⟩
  | _ => simp only [hw] at h ⊢; exact h.trans ht

/-- What holds of a phase in all its timed runs. -/
structure Clocked (pw : PollWorker) (acts : List (τ × Db Entry × PhaseAct)) (s : Timed H τ) :
    Prop where
  poll : s.phase.tasks.pollWorker = pw
  now : 0 ≤ s.now
  told : ∀ T db elapsed, (T, db, .idle (.shutdown elapsed)) ∈ acts →
    s.phase.hub.shutdown.borrow = true
  reported : ∀ r, s.phase.tasks.idleReturned = some r →
    r.skippedReason = none ∧ r.totalLpopCalls ≤ s.phase.hub.metrics.polls

theorem Clocked.step (h : Clocked pw acts s) (hstep : s.step serde hdr interval x = some s') :
    Clocked pw (acts ++ [x]) s' := by
  obtain ⟨hnow, _, hp, hnow', _⟩ := Timed.step_cases hstep
  obtain ⟨db', hm⟩ := Phase.stepAmid_move hp
  refine ⟨hm.fleet.1.trans h.poll, hnow' ▸ h.now.trans hnow, fun T db elapsed hT => ?_,
    hm.idleReturned_le h.reported⟩
  rw [List.mem_append, List.mem_singleton] at hT
  rcases hT with hT | rfl
  · exact hm.told (.inl (h.told T db elapsed hT))
  · exact hm.told (.inr ⟨elapsed, rfl⟩)

theorem Clocked.shutdown_none (h : Clocked pw acts s)
    (hs : s.phase.hub.shutdown.borrow = false) {T : τ} {db : Db Entry} {elapsed : Rat} :
    (T, db, .idle (.shutdown elapsed)) ∉ acts := by
  intro hT
  rw [h.told T db elapsed hT] at hs
  cases hs

/-- The pace of worker `i`: its scans begin an interval apart, and its `LPOP`s are
those of scans begun before the shutdown. -/
structure Unhurried (interval : τ) (nKeys i : Nat) (acts : List (τ × Db Entry × PhaseAct))
    (s : Timed H τ) (w : Worker) : Prop where
  spaced : Spaced interval (checks i acts)
  rested : ∀ v ∈ checks i acts, 0 ≤ v ∧ w.Rested interval (s.slept i) s.now v
  scans : ∃ begun : List τ, begun.Sublist (checks i acts) ∧
    issues i acts + w.unissued nKeys ≤ nKeys * begun.length ∧
    ∀ v ∈ begun, ∀ T db elapsed, (T, db, .idle (.shutdown elapsed)) ∈ acts → v ≤ T

/-- A fleet of `n` workers that keep their pace as long as no `LPOP` returns a job. -/
structure Timely (interval : τ) (pw : PollWorker) (n : Nat)
    (acts : List (τ × Db Entry × PhaseAct)) (s : Timed H τ) : Prop where
  clocked : Clocked pw acts s
  workers : s.phase.workers.length = n
  polls : s.phase.hub.metrics.polls = ((List.range n).map (fun i => issues i acts)).sum
  unhurried : s.phase.hub.ledger.payloads = 0 → ∀ i < n, ∃ w, s.phase.workers[i]? = some w ∧
    Unhurried interval pw.queueKeys.length i acts s w

theorem Timely.start (interval : τ) (queueKeys : List String) (n : Nat) :
    Timely interval ⟨none, queueKeys⟩ n []
      (.start (runIdlePollTrial queueKeys n) : Timed H τ) where
  clocked := ⟨rfl, le_refl _, by simp, fun r hr => by cases hr⟩
  workers := List.length_replicate
  polls := by simp [issues, Timed.start, runIdlePollTrial, Hub.new, Metrics.new]
  unhurried _ i hi := by
    refine ⟨.new, by simp [Timed.start, runIdlePollTrial, hi], Spaced.nil interval,
      by simp [checks], [], ?_⟩
    simp [issues, Worker.unissued, Worker.new]

variable [IsStrictOrderedRing τ]

theorem Worker.Rested.le_now (h : w.Rested interval slept now v) (hI : 0 < interval) :
    v ≤ now := by
  unfold Worker.Rested at h
  cases hw : w.pc with
  | spawned | hit | recorded | counted => simp [hw] at h
  | top => simp only [hw] at h; linarith
  | select => simp only [hw] at h; exact h.1.trans h.2
  | _ => simp only [hw] at h; exact h

theorem Move.rested {u u' : Shared} {b : WorkerAct} (h : Move serde pw u w b u' w')
    (hb : b ≠ .check) (hpay : u'.hub.ledger.payloads = 0) (hI : 0 < interval) (ht : now ≤ t)
    (hwake : b = .wake → slept + interval ≤ t) (hr : w.Rested interval slept now v) :
    w'.Rested interval (if b = .miss then t else slept) t v := by
  have hle : v ≤ t := (hr.le_now hI).trans ht
  cases h with
  | stop hpc hs => exact absurd rfl hb
  | enter hpc hs => exact absurd rfl hb
  | payload k e hpc => simp at hpay
  | wake hpc =>
    simp only [Worker.Rested, hpc] at hr ⊢
    exact (by linarith [hr.1, hwake rfl])
  | miss k hpc hk => simpa [Worker.Rested] using hle
  | abort => exact hr.later ht rfl
  | _ => simp_all [Worker.Rested, failedLpop, droppedTask]

theorem Unhurried.other {nKeys : Nat} (h : Unhurried interval nKeys i acts s w) (hI : 0 < interval)
    (hstep : s.step serde hdr interval x = some s') (hx : ∀ b, x.2.2 ≠ .worker i b)
    (hpc : w'.pc = w.pc) : Unhurried interval nKeys i (acts ++ [x]) s' w' := by
  obtain ⟨hnow, _, _, hnow', hslept⟩ := Timed.step_cases hstep
  have hsame : checks i (acts ++ [x]) = checks i acts ∧ issues i (acts ++ [x]) = issues i acts := by
    simp [checks_concat, issues_concat, ofWorker_other hx]
  have hasleep : s'.slept i = s.slept i := hslept ▸ Timed.asleep_other hx
  obtain ⟨begun, hsub, hle, hbegun⟩ := h.scans
  refine ⟨hsame.1 ▸ h.spaced, fun v hv => ?_, begun, hsame.1 ▸ hsub, ?_,
    fun v hv T db elapsed hT => ?_⟩
  · rw [hsame.1] at hv
    rw [hasleep, hnow']
    exact ⟨(h.rested v hv).1, (h.rested v hv).2.later hnow hpc⟩
  · rw [hsame.2]
    simpa [Worker.unissued, hpc] using hle
  · rw [List.mem_append, List.mem_singleton] at hT
    rcases hT with hT | rfl
    · exact hbegun v hv T db elapsed hT
    · exact ((h.rested v (hsub.subset hv)).2.le_now hI).trans hnow

/-- At its loop head, a worker has slept since each earlier time that it was there. -/
theorem Unhurried.check (h : Unhurried interval pw.queueKeys.length i acts s w)
    (hk : Clocked pw acts s) (hI : 0 < interval) (hstep : s.step serde hdr interval x = some s')
    (hx : x.2.2 = .worker i .check) {db' : Db Entry}
    (hm : Move serde pw ⟨x.2.1, s.phase.hub⟩ w .check ⟨db', s'.phase.hub⟩ w') :
    Unhurried interval pw.queueKeys.length i (acts ++ [x]) s' w' := by
  obtain ⟨hnow, _, _, hnow', _⟩ := Timed.step_cases hstep
  have hchecks : checks i (acts ++ [x]) = checks i acts ++ [x.1] := by
    simp [checks_concat, ofWorker_self hx]
  have hissues : issues i (acts ++ [x]) = issues i acts := by
    simp [issues_concat, ofWorker_self hx]
  have hsame : ∀ T db elapsed, (T, db, .idle (.shutdown elapsed)) ∈ acts ++ [x] →
      (T, db, .idle (.shutdown elapsed)) ∈ acts := by
    intro T db elapsed hT
    rw [List.mem_append, List.mem_singleton] at hT
    rcases hT with hT | rfl
    · exact hT
    · cases hx
  obtain ⟨htop, hcase⟩ := hm.check_cases
  have hrest : ∀ v ∈ checks i acts, v + interval ≤ x.1 := fun v hv => by
    have hr := (h.rested v hv).2
    simp only [Worker.Rested, htop] at hr
    exact hr.trans hnow
  have hpast : ∀ v ∈ checks i (acts ++ [x]), 0 ≤ v ∧ v ≤ x.1 := fun v hv => by
    rw [hchecks, List.mem_append, List.mem_singleton] at hv
    rcases hv with hv | rfl
    · exact ⟨(h.rested v hv).1, by linarith [hrest v hv]⟩
    · exact ⟨hk.now.trans hnow, le_refl _⟩
  obtain ⟨begun, hsub, hle, hbegun⟩ := h.scans
  refine ⟨hchecks ▸ h.spaced.concat hrest, fun v hv => ⟨(hpast v hv).1, ?_⟩, ?_⟩
  · rw [hnow']
    rcases hcase with ⟨_, hpc⟩ | ⟨_, hpc⟩
    all_goals
      simp only [Worker.Rested, hpc]
      exact (hpast v hv).2
  · rw [hissues]
    rcases hcase with ⟨_, hpc⟩ | ⟨hs, hpc⟩
    · refine ⟨begun, hchecks ▸ hsub.trans (List.sublist_append_left _ _), ?_,
        fun v hv T db elapsed hT => hbegun v hv T db elapsed (hsame T db elapsed hT)⟩
      simpa [Worker.unissued, htop, hpc] using hle
    · refine ⟨begun ++ [x.1], hchecks ▸ hsub.append_right _, ?_,
        fun v _ T db elapsed hT => absurd (hsame T db elapsed hT) (hk.shutdown_none hs)⟩
      simp only [Worker.unissued, htop, hpc, List.length_append, List.length_singleton] at hle ⊢
      rw [Nat.mul_add]
      omega

theorem Unhurried.move (h : Unhurried interval pw.queueKeys.length i acts s w) (hI : 0 < interval)
    (hstep : s.step serde hdr interval x = some s') {b : WorkerAct} (hx : x.2.2 = .worker i b)
    (hb : b ≠ .check) {db' : Db Entry}
    (hm : Move serde pw ⟨x.2.1, s.phase.hub⟩ w b ⟨db', s'.phase.hub⟩ w')
    (hpay : s'.phase.hub.ledger.payloads = 0) :
    Unhurried interval pw.queueKeys.length i (acts ++ [x]) s' w' := by
  obtain ⟨hnow, hdue, _, hnow', hslept⟩ := Timed.step_cases hstep
  have hchecks : checks i (acts ++ [x]) = checks i acts := by
    simp [checks_concat, ofWorker_self hx, hb]
  have hissues : issues i (acts ++ [x]) = issues i acts + if b = .issue then 1 else 0 := by
    simp [issues_concat, ofWorker_self hx]
  have hasleep : s'.slept i = if b = .miss then x.1 else s.slept i := by
    rw [hslept, hx]
    cases b <;> simp [Timed.asleep]
  have hwake : b = .wake → s.slept i + interval ≤ x.1 := by
    rintro rfl
    simpa [Timed.due, hx] using hdue
  obtain ⟨begun, hsub, hle, hbegun⟩ := h.scans
  refine ⟨hchecks ▸ h.spaced, fun v hv => ?_, begun, hchecks ▸ hsub, ?_,
    fun v hv T db elapsed hT => ?_⟩
  · rw [hchecks] at hv
    rw [hasleep, hnow']
    exact ⟨(h.rested v hv).1, hm.rested hb hpay hI hnow hwake (h.rested v hv).2⟩
  · have hspent := hm.unissued (fun he => absurd he hb)
    rw [hissues]
    omega
  · rw [List.mem_append, List.mem_singleton] at hT
    rcases hT with hT | rfl
    · exact hbegun v hv T db elapsed hT
    · cases hx

theorem Timely.step {n : Nat} (h : Timely interval pw n acts s) (hI : 0 < interval)
    (hstep : s.step serde hdr interval x = some s') : Timely interval pw n (acts ++ [x]) s' := by
  obtain ⟨db', hm⟩ := Phase.stepAmid_move (Timed.step_cases hstep).2.2.1
  refine ⟨h.clocked.step hstep, hm.length_workers.trans h.workers, ?_, fun hpay i hi => ?_⟩
  · rw [hm.incPoll, h.polls, h.workers, ← List.sum_map_add]
    simp only [issues_concat]
  · obtain ⟨w, hw, hp⟩ := h.unhurried (Nat.le_zero.mp (hpay ▸ hm.payloads_le)) i hi
    obtain ⟨w', hw', ⟨b, hx, _, hmv⟩ | ⟨hx, hpc⟩⟩ := hm.worker_cases hw
    · rw [h.clocked.poll] at hmv
      refine ⟨w', hw', ?_⟩
      by_cases hb : b = .check
      · subst hb
        exact hp.check h.clocked hI hstep hx hmv
      · exact hp.move hI hstep hx hb hmv hpay
    · exact ⟨w', hw', hp.other hI hstep hx hpc⟩

/-- A worker issues one scan of `LPOP`s for each interval that has begun. -/
theorem Unhurried.issues_le [FloorSemiring τ] {nKeys : Nat} {T : τ} {db : Db Entry} {elapsed : Rat}
    (h : Unhurried interval nKeys i acts s w) (hI : 0 < interval)
    (hT : (T, db, .idle (.shutdown elapsed)) ∈ acts) :
    issues i acts ≤ nKeys * (⌊T / interval⌋₊ + 1) := by
  obtain ⟨begun, hsub, hle, hbegun⟩ := h.scans
  have hlen : begun.length ≤ ⌊T / interval⌋₊ + 1 :=
    (h.spaced.sublist hsub).length_le hI
      (fun v hv => ⟨(h.rested v (hsub.subset hv)).1, hbegun v hv T db elapsed hT⟩)
  calc issues i acts ≤ nKeys * begun.length := by omega
    _ ≤ nKeys * (⌊T / interval⌋₊ + 1) := Nat.mul_le_mul_left nKeys hlen

/-- While no `LPOP` returns a job, each worker begins its scans an interval apart,
also where every `LPOP` of a scan fails, and of the polls of `n` workers no more are
counted than `n` scans for each interval that has begun before the shutdown. -/
theorem idle_polls_bounded [FloorSemiring τ] {queueKeys : List String} {nWorkers : Nat}
    (hI : 0 < interval)
    (hrun : Machine.run (Timed.step serde hdr interval)
      (.start (runIdlePollTrial queueKeys nWorkers)) acts = some s)
    (hnone : s.phase.hub.ledger.payloads = 0) :
    (∀ i < nWorkers, Spaced interval (checks i acts)) ∧
    ∀ T db elapsed, (T, db, .idle (.shutdown elapsed)) ∈ acts →
      s.phase.hub.metrics.polls ≤ nWorkers * queueKeys.length * (⌊T / interval⌋₊ + 1) ∧
      ∀ r, s.phase.tasks.idleReturned = some r →
        r.totalLpopCalls ≤ nWorkers * queueKeys.length * (⌊T / interval⌋₊ + 1) := by
  have ht : Timely interval ⟨none, queueKeys⟩ nWorkers acts s :=
    Machine.run_induction (P := Timely interval ⟨none, queueKeys⟩ nWorkers)
      (.start interval queueKeys nWorkers) (fun _ h hstep => h.step hI hstep) hrun
  refine ⟨fun i hi => ?_, fun T db elapsed hT => ?_⟩
  · obtain ⟨w, _, hp⟩ := ht.unhurried hnone i hi
    exact hp.spaced
  · have heach : ∀ n ∈ (List.range nWorkers).map (fun i => issues i acts),
        n ≤ queueKeys.length * (⌊T / interval⌋₊ + 1) := by
      intro n hn
      obtain ⟨i, hi, rfl⟩ := List.mem_map.mp hn
      obtain ⟨w, _, hp⟩ := ht.unhurried hnone i (List.mem_range.mp hi)
      exact hp.issues_le hI hT
    have hpolls : s.phase.hub.metrics.polls ≤
        nWorkers * queueKeys.length * (⌊T / interval⌋₊ + 1) := by
      have hsum := List.sum_le_card_nsmul _ _ heach
      rw [List.length_map, List.length_range, smul_eq_mul, ← ht.polls] at hsum
      rwa [Nat.mul_assoc]
    exact ⟨hpolls, fun r hr => (ht.clocked.reported r hr).2.trans hpolls⟩

end Time

/-- The worker's first `LPOP` is answered nil and its second one fails. It is asleep
when the shutdown is sent at 3, and the phase reports two polls. -/
theorem idle_polls_bounded_error : ∃ (s : Timed (List Nat) Rat) (r : IdlePollResult),
    s.phase.tasks.idleReturned = some r ∧ r.totalLpopCalls = 2 ∧
    2 ≤ 1 * (queueKeys ["default"]).length * (⌊(3 : Rat) / 1⌋₊ + 1) := by
  let acts : List (Rat × Db Entry × PhaseAct) :=
    [(0, .worker 0 .start), (0, .worker 0 .check), (0, .worker 0 .issue), (1 / 4, .worker 0 .exec),
      (1 / 2, .worker 0 .receive), (1 / 2, .worker 0 .miss), (3 / 2, .worker 0 .wake),
      (3 / 2, .worker 0 .check), (3 / 2, .worker 0 .issue), (5 / 2, .worker 0 .fail),
      (5 / 2, .worker 0 .miss), (3, .idle (.shutdown 3)), (3, .worker 0 .notice),
      (3, .idle .readOut)].map (fun x => (x.1, (fun _ => none), x.2))
  obtain ⟨s, hrun, hs⟩ : ∃ s : Timed (List Nat) Rat,
      Machine.run (Timed.step (.envelopes []) Hdr.bucketed 1)
        (.start (runIdlePollTrial (queueKeys ["default"]) 1)) acts = some s ∧
      (s.phase.hub.ledger.payloads == 0 &&
        s.phase.tasks.idleReturned.any (fun r => r.totalLpopCalls == 2)) = true :=
    Machine.run_any acts (by decide +kernel)
  simp only [Bool.and_eq_true, beq_iff_eq] at hs
  obtain ⟨hnone, hreturned⟩ := hs
  obtain ⟨r, hr, htwo⟩ := (Option.any_eq_true _ _).mp hreturned
  have hbound := (idle_polls_bounded (by norm_num) hrun hnone).2 3 (fun _ => none) 3
    (by simp [acts])
  rw [beq_iff_eq] at htwo
  exact ⟨s, r, hr, htwo, htwo ▸ hbound.2 r hr⟩

end ResqueBench
