import ResqueBench.Worker

/-! `PollWorker::run` beside Resque's `Worker#work`. With its three tuning intervals
unset, `work` clamps every backoff to the interval it started from, and on the same
replies the two loops do the same. -/

namespace ResqueBench

open Redis

inductive Obs
  | lpop (key : String)
  | sleep (d : Rat)
deriving DecidableEq, Repr

/-- The local variables of `work`. -/
structure WorkLoop where
  interval : Rat
  minInterval : Rat
  maxInterval : Rat
  backoffInterval : Rat

/-- The arguments of `work` are `none` where the environment leaves them unset. -/
def WorkLoop.new (interval minInterval maxInterval backoffInterval : Option Rat) : WorkLoop :=
  let interval := interval.getD 5
  let maxInterval := maxInterval.getD interval
  let minInterval := min (minInterval.getD interval) maxInterval
  let backoffInterval := min (backoffInterval.getD (1 / 10)) maxInterval
  ⟨max minInterval (min interval maxInterval), minInterval, maxInterval, backoffInterval⟩

/-- `reserve` on the replies to come: what it does and, where they suffice, the job
it returns and the replies it leaves. -/
def reserve : List String → List (Option Entry) →
    List Obs × Option (Option Entry × List (Option Entry))
  | [], rs => ([], some (none, rs))
  | key :: _, [] => ([.lpop key], none)
  | key :: _, some job :: rs => ([.lpop key], some (some job, rs))
  | key :: keys, none :: rs => (.lpop key :: (reserve keys rs).1, (reserve keys rs).2)

/-- The first `n` rounds of `work`, as far as the replies go. No shutdown is raised. -/
def WorkLoop.work (keys : List String) : WorkLoop → Nat → List (Option Entry) → List Obs
  | _, 0, _ => []
  | l, n + 1, rs =>
    match reserve keys rs with
    | (obs, none) => obs
    | (obs, some (some _, rs)) => obs ++ work keys { l with interval := l.minInterval } n rs
    | (obs, some (none, rs)) =>
      if l.interval = 0 then obs
      else
        let interval := min (l.interval + l.backoffInterval) l.maxInterval
        obs ++ .sleep interval :: work keys { l with interval := interval } n rs

/-- A round of polling that still has `keys` to look at, and the rounds after it. -/
def resume (interval : Rat) (next : List (Option Entry) → List Obs) :
    List String → List (Option Entry) → List Obs
  | [], rs => .sleep interval :: next rs
  | key :: _, [] => [.lpop key]
  | key :: _, some _ :: rs => .lpop key :: next rs
  | key :: keys, none :: rs => .lpop key :: resume interval next keys rs

/-- Polling at a fixed interval. -/
def pollLoop (interval : Rat) (keys : List String) : Nat → List (Option Entry) → List Obs
  | 0, _ => []
  | n + 1, rs => resume interval (pollLoop interval keys n) keys rs

/-- The backoff state that no clamp lets go of. -/
structure Pinned (interval : Rat) (l : WorkLoop) : Prop where
  current : l.interval = interval
  low : l.minInterval = interval
  high : l.maxInterval = interval
  backoff : 0 ≤ l.backoffInterval

theorem Pinned.new {interval : Rat} (hI : 0 < interval) :
    Pinned interval (.new (some interval) none none none) where
  current := by simp [WorkLoop.new]
  low := by simp [WorkLoop.new]
  high := by simp [WorkLoop.new]
  backoff := le_min (by norm_num) hI.le

variable {interval : Rat} {l : WorkLoop} {keys : List String}

theorem Pinned.hit (h : Pinned interval l) : Pinned interval { l with interval := l.minInterval } :=
  { h with current := h.low }

theorem Pinned.miss (h : Pinned interval l) :
    min (l.interval + l.backoffInterval) l.maxInterval = interval := by
  rw [h.current, h.high]
  exact min_eq_right (le_add_of_nonneg_right h.backoff)

theorem resume_eq_reserve (next : List (Option Entry) → List Obs) (keys : List String)
    (rs : List (Option Entry)) :
    resume interval next keys rs = (reserve keys rs).1 ++
      match (reserve keys rs).2 with
      | none => []
      | some (some _, rs) => next rs
      | some (none, rs) => .sleep interval :: next rs := by
  induction keys, rs using reserve.induct with
  | case1 rs => rfl
  | case2 key keys => rfl
  | case3 key keys job rs => rfl
  | case4 key keys rs ih => simp only [resume, reserve, ih, List.cons_append]

theorem work_eq_pollLoop (hI : 0 < interval) (h : Pinned interval l) (n : Nat)
    (rs : List (Option Entry)) : l.work keys n rs = pollLoop interval keys n rs := by
  induction n generalizing l rs with
  | zero => rfl
  | succ n ih =>
    rw [WorkLoop.work, pollLoop, resume_eq_reserve]
    rcases reserve keys rs with ⟨obs, _ | ⟨_ | job, rest⟩⟩
    · simp
    · have hne : l.interval ≠ 0 := h.current ▸ hI.ne'
      have hsame : Pinned interval { l with interval := interval } := { h with current := rfl }
      simp only [hne, if_false, h.miss, ih hsame]
    · simp only [ih h.hit]

/-- A worker, what it has been seen to do, and the replies it has received. -/
structure Observed where
  worker : Worker
  obs : List Obs
  replies : List (Option Entry)

def Observed.start : Observed := ⟨.new, [], []⟩

def PollWorker.observed (pw : PollWorker) (pollInterval : Rat) : WorkerAct → Pc → List Obs
  | .issue, .scan k => (pw.queueKeys[k]?.map Obs.lpop).toList
  | .miss, _ => [.sleep pollInterval]
  | _, _ => []

def received : WorkerAct → Pc → List (Option Entry)
  | .receive, .replied _ (.payload e) => [some e]
  | .receive, .replied _ .nil => [none]
  | _, _ => []

/-- The worker finds that its `LPOP` has failed. -/
def findsError : WorkerAct → Pc → Bool
  | .fail, _ | .receive, .replied _ .error => true
  | _, _ => false

/-- A step of the worker that meets no error, whatever it finds in the database, the
channels and the counters. -/
def Observed.step (serde : Serde) (pw : PollWorker) (pollInterval : Rat) (s : Observed)
    (x : Shared × WorkerAct) : Option Observed :=
  if findsError x.2 s.worker.pc then none
  else (pw.step serde x.1 s.worker x.2).map (fun r =>
    ⟨r.2, s.obs ++ pw.observed pollInterval x.2 s.worker.pc,
      s.replies ++ received x.2 s.worker.pc⟩)

/-- What a round does with the reply it awaits, with `keys` left after it. -/
def awaited (interval : Rat) (next : List (Option Entry) → List Obs) (keys : List String) :
    List (Option Entry) → List Obs
  | [] => []
  | some _ :: rs => next rs
  | none :: rs => resume interval next keys rs

theorem resume_cons (next : List (Option Entry) → List Obs) (key : String) (keys : List String)
    (rs : List (Option Entry)) :
    resume interval next (key :: keys) rs = .lpop key :: awaited interval next keys rs := by
  rcases rs with _ | ⟨_ | job, rs⟩ <;> rfl

/-- What a polling loop that stands where the worker stands does next. -/
def Pc.ahead (interval : Rat) (keys : List String) (next : List (Option Entry) → List Obs)
    (rs : List (Option Entry)) : Pc → List Obs
  | .scan k => resume interval next (keys.drop k) rs
  | .sent k | .replied k _ => awaited interval next (keys.drop (k + 1)) rs
  | _ => next rs

section Worker

variable {serde : Serde} {pw : PollWorker} {s s' : Observed} {x : Shared × WorkerAct}

theorem Observed.step_cases (h : s.step serde pw interval x = some s') :
    findsError x.2 s.worker.pc = false ∧
    s'.obs = s.obs ++ pw.observed interval x.2 s.worker.pc ∧
    s'.replies = s.replies ++ received x.2 s.worker.pc ∧
    ∃ u, Move serde pw x.1 s.worker x.2 u s'.worker := by
  unfold Observed.step at h
  split at h
  · cases h
  · rename_i hok
    obtain ⟨⟨u, w⟩, hs, rfl⟩ := Option.map_eq_some_iff.mp h
    exact ⟨Bool.eq_false_iff.mpr hok, rfl, rfl, u, PollWorker.step_move hs⟩

/-- A step of the worker is a step of the polling loop, or ends the worker. -/
theorem Move.ahead (interval : Rat) {u u' : Shared} {w w' : Worker} {b : WorkerAct}
    (h : Move serde pw u w b u' w') (hok : findsError b w.pc = false) :
    ∃ d, ∀ m rs, ∃ tail,
      w.pc.ahead interval pw.queueKeys (pollLoop interval pw.queueKeys (d + m))
        (received b w.pc ++ rs) = pw.observed interval b w.pc ++ tail ∧
      (w'.pc.isTerminal = false →
        tail = w'.pc.ahead interval pw.queueKeys (pollLoop interval pw.queueKeys m) rs) := by
  cases h with
  | enter hpc hs =>
    refine ⟨1, fun m rs => ⟨_, rfl, fun _ => ?_⟩⟩
    simp only [hpc, Pc.ahead, received, List.nil_append, List.drop_zero]
    rw [Nat.add_comm, pollLoop]
  | issue k hpc hk =>
    refine ⟨0, fun m rs => ⟨_, ?_, fun _ => rfl⟩⟩
    simp only [hpc, Pc.ahead, received, PollWorker.observed, List.drop_eq_getElem_cons hk,
      resume_cons]
    simp [hk]
  | miss k hpc hk =>
    refine ⟨0, fun m rs => ⟨_, ?_, fun _ => rfl⟩⟩
    simp [hpc, Pc.ahead, received, PollWorker.observed, List.drop_eq_nil_of_le hk, resume]
  | failSent k hpc => simp [findsError] at hok
  | failReplied k a hpc => simp [findsError] at hok
  | error k hpc => simp [findsError, hpc] at hok
  | abort =>
    refine ⟨0, fun m rs => ⟨_, ?_, fun _ => rfl⟩⟩
    simp [received, PollWorker.observed]
  | stop hpc hs | notice hpc hc | dropSent k hpc ha | dropReplied k a hpc ha | dropSpawned hpc ha
    | dropSelect hpc ha =>
    refine ⟨0, fun m rs => ⟨_, (List.nil_append _).symm, fun he => ?_⟩⟩
    simp [Pc.isTerminal, droppedTask] at he
  | start hpc | pop k key e rest hpc hk hl hdb | empty k key a hpc hk hl ha | payload k e hpc
    | nil k hpc | record clock e sample hpc hr | reject clock e hpc hr | count e hpc
    | signal done target hpc ht hd | below done hpc ht | wake hpc =>
    refine ⟨0, fun m rs => ⟨_, ?_, fun _ => rfl⟩⟩
    simp [hpc, Pc.ahead, received, PollWorker.observed, awaited]

/-- What the worker has done is what the polling loop does first on the replies that
the worker has received, and unless it has ended it goes on from there. -/
def Follows (interval : Rat) (keys : List String) (s : Observed) : Prop :=
  ∃ n, ∀ m rs, ∃ tail, pollLoop interval keys (n + m) (s.replies ++ rs) = s.obs ++ tail ∧
    (s.worker.pc.isTerminal = false →
      tail = s.worker.pc.ahead interval keys (pollLoop interval keys m) rs)

theorem Follows.step (h : Follows interval pw.queueKeys s)
    (hstep : s.step serde pw interval x = some s') : Follows interval pw.queueKeys s' := by
  obtain ⟨hok, hobs, hreplies, u, hm⟩ := Observed.step_cases hstep
  obtain ⟨n, hn⟩ := h
  rw [Follows, hobs, hreplies]
  by_cases hw : s.worker.pc.isTerminal = true
  · obtain ⟨hb, _, hpc⟩ := hm.terminal hw
    refine ⟨n, fun m rs => ?_⟩
    obtain ⟨tail, he, _⟩ := hn m rs
    refine ⟨tail, ?_, fun hw' => ?_⟩
    · simpa [hb, received, PollWorker.observed] using he
    · simp [hpc, hw] at hw'
  · obtain ⟨d, hd⟩ := hm.ahead interval hok
    refine ⟨n + d, fun m rs => ?_⟩
    obtain ⟨tail, he, hnext⟩ := hd m rs
    obtain ⟨before, hbefore, hahead⟩ := hn (d + m) (received x.2 s.worker.pc ++ rs)
    refine ⟨tail, ?_, hnext⟩
    rw [Nat.add_assoc, List.append_assoc, hbefore, hahead (Bool.eq_false_iff.mpr hw), he,
      List.append_assoc]

theorem Follows.start (interval : Rat) (keys : List String) : Follows interval keys .start :=
  ⟨0, fun m rs => ⟨pollLoop interval keys m rs, by simp [Observed.start],
    fun _ => rfl⟩⟩

theorem follows_of_runs (h : Machine.Runs (Observed.step serde pw interval) .start s) :
    Follows interval pw.queueKeys s :=
  h.invariant (fun hf _ hstep => hf.step hstep) (.start interval pw.queueKeys)

/-- A worker at `pc` can come to `pc'`, and what it does and receives on the way. -/
def Leads (serde : Serde) (pw : PollWorker) (interval : Rat) (pc pc' : Pc) (obs : List Obs)
    (replies : List (Option Entry)) : Prop :=
  ∀ s : Observed, s.worker.pc = pc → ∃ t,
    Machine.Runs (Observed.step serde pw interval) s t ∧ t.worker.pc = pc' ∧
      t.obs = s.obs ++ obs ∧ t.replies = s.replies ++ replies

variable {pc pc' pc'' : Pc} {obs obs' : List Obs} {rs rs' : List (Option Entry)}

theorem Leads.refl (pc : Pc) : Leads serde pw interval pc pc [] [] := fun s hs =>
  ⟨s, .refl, hs, by simp, by simp⟩

theorem Leads.trans (h : Leads serde pw interval pc pc' obs rs)
    (h' : Leads serde pw interval pc' pc'' obs' rs') :
    Leads serde pw interval pc pc'' (obs ++ obs') (rs ++ rs') := by
  intro s hs
  obtain ⟨t, hrun, ht, hobs, hreplies⟩ := h s hs
  obtain ⟨v, hrun', hv, hobs', hreplies'⟩ := h' t ht
  exact ⟨v, hrun.trans hrun', hv, by rw [hobs', hobs, List.append_assoc],
    by rw [hreplies', hreplies, List.append_assoc]⟩

theorem leads_step (b : WorkerAct) (hok : findsError b pc = false)
    (h : ∀ w : Worker, w.pc = pc → ∃ u u' w', pw.step serde u w b = some (u', w') ∧ w'.pc = pc') :
    Leads serde pw interval pc pc' (pw.observed interval b pc) (received b pc) := by
  rintro s rfl
  obtain ⟨u, u', w', hstep, hpc⟩ := h s.worker rfl
  exact ⟨_, .single ⟨(u, b), trivial, by simp only [Observed.step, hok, hstep]; rfl⟩, hpc, rfl, rfl⟩

/-- A shared state whose database answers an `LPOP` of `key` with the reply. -/
def answering (key : String) (reply : Option Entry) : Shared :=
  ⟨Function.update (fun _ => none) key (reply.map (fun e => .list [e])), .new⟩

theorem lpop_answering (key : String) (reply : Option Entry) :
    ((answering key reply).lpop key).2 = reply.elim .nil .payload := by
  cases reply <;> simp [answering, Shared.lpop, exec, Answer.ofReply]

theorem leads_move (b : WorkerAct) (hb : b ≠ .exec) (hok : findsError b pc = false)
    (h : ∀ w : Worker, w.pc = pc → ∃ u u' w', Move serde pw u w b u' w' ∧ w'.pc = pc') :
    Leads serde pw interval pc pc' (pw.observed interval b pc) (received b pc) :=
  leads_step b hok (fun w hw => by
    obtain ⟨u, u', w', hm, hpc⟩ := h w hw
    exact ⟨u, u', w', hm.step hb, hpc⟩)

theorem leads_start : Leads serde pw interval .spawned .top [] [] :=
  leads_move .start (by simp) rfl (fun _ hw => ⟨answering "" none, _, _, .start hw, rfl⟩)

theorem leads_enter : Leads serde pw interval .top (.scan 0) [] [] :=
  leads_move .check (by simp) rfl (fun _ hw => ⟨answering "" none, _, _, .enter hw rfl, rfl⟩)

theorem leads_issue {k : Nat} {key : String} (hk : pw.queueKeys[k]? = some key) :
    Leads serde pw interval (.scan k) (.sent k) [.lpop key] [] := by
  have hlt := (List.getElem?_eq_some_iff.mp hk).1
  have h : Leads serde pw interval (.scan k) (.sent k) _ _ := leads_move .issue (by simp) rfl
    (fun _ hw => ⟨answering "" none, _, _, .issue k hw hlt, rfl⟩)
  simpa [PollWorker.observed, received, hk] using h

theorem leads_reply {k : Nat} {key : String} (hk : pw.queueKeys[k]? = some key)
    (reply : Option Entry) :
    Leads serde pw interval (.sent k) (reply.elim (.scan (k + 1)) .hit) [] [reply] := by
  have hexec : Leads serde pw interval (.sent k) (.replied k (reply.elim .nil .payload)) [] [] :=
    leads_step .exec rfl (fun _ hw => ⟨answering key reply, _, _,
      PollWorker.step_exec serde hw hk _, by rw [lpop_answering]⟩)
  have hreceive : Leads serde pw interval (.replied k (reply.elim .nil .payload))
      (reply.elim (.scan (k + 1)) .hit) [] [reply] := by
    cases reply with
    | none =>
      exact leads_move .receive (by simp) rfl
        (fun _ hw => ⟨answering "" none, _, _, .nil k hw, rfl⟩)
    | some e =>
      exact leads_move .receive (by simp) rfl
        (fun _ hw => ⟨answering "" none, _, _, .payload k e hw, rfl⟩)
  exact hexec.trans hreceive

/-- From a hit the worker comes back to its loop head in silence. -/
theorem leads_hit (e : Entry) : Leads serde pw interval (.hit e) .top [] [] := by
  have hrecord : Leads serde pw interval (.hit e) (.recorded e) [] [] :=
    leads_move (.record none) (by simp) rfl (fun _ hw => by
      cases hr : recordJob serde none e with
      | some sample => exact ⟨answering "" none, _, _, .record none e sample hw hr, rfl⟩
      | none => exact ⟨answering "" none, _, _, .reject none e hw hr, rfl⟩)
  have hcount : Leads serde pw interval (.recorded e) (.counted 1) [] [] :=
    leads_move .count (by simp) rfl (fun _ hw => ⟨answering "" none, _, _, .count e hw, rfl⟩)
  have hsignal : Leads serde pw interval (.counted 1) .top [] [] :=
    leads_move .signal (by simp) rfl (fun _ hw => by
      by_cases hd : ∃ target, pw.targetJobs = some target ∧ target ≤ 1
      · obtain ⟨target, ht, hle⟩ := hd
        exact ⟨answering "" none, _, _, .signal 1 target hw ht hle, rfl⟩
      · refine ⟨answering "" none, _, _, .below 1 hw (fun target ht => ?_), rfl⟩
        by_contra hle
        exact hd ⟨target, ht, Nat.not_lt.mp hle⟩)
  exact hrecord.trans (hcount.trans hsignal)

theorem leads_miss {k : Nat} (hk : pw.queueKeys.length ≤ k) :
    Leads serde pw interval (.scan k) .top [.sleep interval] [] := by
  have hmiss : Leads serde pw interval (.scan k) .select [.sleep interval] [] :=
    leads_move .miss (by simp) rfl (fun _ hw => ⟨answering "" none, _, _, .miss k hw hk, rfl⟩)
  have hwake : Leads serde pw interval .select .top [] [] :=
    leads_move .wake (by simp) rfl (fun _ hw => ⟨answering "" none, _, _, .wake hw, rfl⟩)
  exact hmiss.trans hwake

/-- The worker can do what the polling loop does on some of the replies. -/
def CanDo (serde : Serde) (pw : PollWorker) (interval : Rat) (pc : Pc) (obs : List Obs)
    (rs : List (Option Entry)) : Prop :=
  ∃ pc' used, used <+: rs ∧ Leads serde pw interval pc pc' obs used

theorem Leads.canDo (h : Leads serde pw interval pc pc' obs rs)
    (hd : CanDo serde pw interval pc' obs' rs') :
    CanDo serde pw interval pc (obs ++ obs') (rs ++ rs') := by
  obtain ⟨last, used, hp, hl⟩ := hd
  exact ⟨last, rs ++ used, (List.prefix_append_right_inj rs).mpr hp, h.trans hl⟩

theorem canDo_resume {next : List (Option Entry) → List Obs}
    (hnext : ∀ rs, CanDo serde pw interval .top (next rs) rs) (keys : List String)
    (rs : List (Option Entry)) : ∀ k, pw.queueKeys.drop k = keys →
      CanDo serde pw interval (.scan k) (resume interval next keys rs) rs := by
  induction keys generalizing rs with
  | nil =>
    intro k hk
    exact (leads_miss (List.drop_eq_nil_iff.mp hk)).canDo (hnext rs)
  | cons key keys ih =>
    intro k hk
    have hkey : pw.queueKeys[k]? = some key := by
      rw [← List.head?_drop, hk]
      rfl
    have hrest : pw.queueKeys.drop (k + 1) = keys := by
      rw [← List.tail_drop, hk]
      rfl
    have hawaited : CanDo serde pw interval (.sent k) (awaited interval next keys rs) rs := by
      rcases rs with _ | ⟨_ | e, rs⟩
      · exact ⟨.sent k, [], List.prefix_rfl, .refl (.sent k)⟩
      · exact (leads_reply hkey none).canDo (ih rs (k + 1) hrest)
      · exact ((leads_reply hkey (some e)).trans (leads_hit e)).canDo (hnext rs)
    rw [resume_cons]
    exact (leads_issue hkey).canDo hawaited

theorem canDo_pollLoop (serde : Serde) (pw : PollWorker) (interval : Rat) (n : Nat)
    (rs : List (Option Entry)) :
    CanDo serde pw interval .top (pollLoop interval pw.queueKeys n rs) rs := by
  induction n generalizing rs with
  | zero => exact ⟨.top, [], List.nil_prefix, .refl .top⟩
  | succ n ih => exact leads_enter.canDo (canDo_resume ih pw.queueKeys rs 0 List.drop_zero)

theorem observed_cases (pw : PollWorker) (interval : Rat) (b : WorkerAct) (pc : Pc) :
    pw.observed interval b pc = [] ∨ ∃ o, pw.observed interval b pc = [o] := by
  unfold PollWorker.observed
  split
  · rename_i k
    cases pw.queueKeys[k]? with
    | none => exact .inl rfl
    | some key => exact .inr ⟨_, rfl⟩
  · exact .inr ⟨_, rfl⟩
  · exact .inl rfl

/-- All that a worker has done up to some point, it had done when it got there. -/
theorem runs_prefix (h : Machine.Runs (Observed.step serde pw interval) .start s)
    (hp : obs <+: s.obs) :
    ∃ t, Machine.Runs (Observed.step serde pw interval) .start t ∧ t.replies <+: s.replies ∧
      t.obs = obs := by
  induction h with
  | refl => exact ⟨.start, .refl, List.prefix_rfl, (List.prefix_nil.mp hp).symm⟩
  | @tail u v hrun he ih =>
    obtain ⟨x, _, hstep⟩ := he
    obtain ⟨_, hobs, hreplies, _⟩ := Observed.step_cases hstep
    have hearlier : obs <+: u.obs → ∃ t, Machine.Runs (Observed.step serde pw interval) .start t ∧
        t.replies <+: v.replies ∧ t.obs = obs := by
      intro hp
      obtain ⟨t, ht, hr, ho⟩ := ih hp
      exact ⟨t, ht, hr.trans (hreplies ▸ List.prefix_append _ _), ho⟩
    rw [hobs] at hp
    rcases observed_cases pw interval x.2 u.worker.pc with hnil | ⟨o, hone⟩
    · rw [hnil, List.append_nil] at hp
      exact hearlier hp
    · rw [hone] at hp
      rcases List.prefix_concat_iff.mp hp with rfl | hp
      · exact ⟨v, hrun.tail ⟨x, trivial, hstep⟩, List.prefix_rfl, by rw [hobs, hone]⟩
      · exact hearlier hp

end Worker

/-- On every sequence of replies, job or nil, the worker can be seen to do just what
`work` does with its three tuning intervals unset: the same `LPOP`s and sleeps in the
same order, up to any point. -/
theorem poll_worker_refines_work {serde : Serde} {pw : PollWorker} {interval : Rat}
    (hI : 0 < interval) (rs : List (Option Entry)) (obs : List Obs) :
    (∃ s, Machine.Runs (Observed.step serde pw interval) .start s ∧ s.replies <+: rs ∧
      s.obs = obs) ↔
    ∃ n, obs <+: (WorkLoop.new (some interval) none none none).work pw.queueKeys n rs := by
  simp only [work_eq_pollLoop hI (.new hI)]
  constructor
  · rintro ⟨s, hrun, ⟨rest, rfl⟩, rfl⟩
    obtain ⟨n, hn⟩ := follows_of_runs hrun
    obtain ⟨tail, he, _⟩ := hn 0 rest
    exact ⟨n, he ▸ List.prefix_append _ _⟩
  · rintro ⟨n, hp⟩
    obtain ⟨pc, used, hused, hleads⟩ :=
      leads_start.canDo (canDo_pollLoop serde pw interval n rs)
    obtain ⟨t, hrun, _, hobs, hreplies⟩ := hleads .start rfl
    have hprefix : obs <+: t.obs := by
      rw [hobs]
      exact hp
    obtain ⟨s, hs, hr, ho⟩ := runs_prefix hrun hprefix
    refine ⟨s, hs, hr.trans ?_, ho⟩
    rw [hreplies]
    exact hused

/-- An interval shorter than the backoff step: the miss before the hit and the one
after it are both slept for that long. -/
theorem poll_worker_refines_work_short_interval :
    ∃ s, Machine.Runs (Observed.step (.envelopes []) ⟨none, queueKeys ["high", "low"]⟩ (1 / 20))
      .start s ∧ s.replies <+: [none, none, none, some ⟨"", 0, 0⟩, none, none] ∧
      s.obs = [.lpop "queue:high", .lpop "queue:low", .sleep (1 / 20), .lpop "queue:high",
        .lpop "queue:low", .lpop "queue:high", .lpop "queue:low", .sleep (1 / 20)] :=
  (poll_worker_refines_work (by norm_num) _ _).mpr ⟨4, by decide +kernel⟩

end ResqueBench
