import ResqueBench.MainRuns
import ResqueBench.Conservation

/-! The jobs of all trials: on the server, on their way to it, and popped. Between
two clears the server holds jobs of one trial only, and no job is popped twice. -/

namespace ResqueBench

open Redis Threads

section Producer

variable {serde : Serde} {clock : Nat → Option Nat} {trial nJobs : Nat} {queues : List String}

theorem preTrialClear_clears (queues : List String) (allowFlushdb : Bool) :
    ∀ c ∈ preTrialClear queues allowFlushdb, c.clears = true := by
  intro c hc
  cases allowFlushdb with
  | true =>
    simp only [preTrialClear, flushdb, if_true, List.mem_singleton] at hc
    exact hc ▸ rfl
  | false =>
    simp only [preTrialClear, clearQueue, Bool.false_eq_true, if_false, List.mem_flatMap,
      List.mem_cons, List.not_mem_nil, or_false] at hc
    rcases hc with ⟨q, _, rfl | rfl⟩ <;> rfl

theorem preTrialClear_covers (queues : List String) (allowFlushdb : Bool) {key : String}
    (hk : key ∈ queueKeys queues) : .del key ∈ preTrialClear queues allowFlushdb ∨
      .flushdb ∈ preTrialClear queues allowFlushdb := by
  cases allowFlushdb with
  | true => exact .inr (by simp [preTrialClear, flushdb])
  | false =>
    obtain ⟨q, hq, rfl⟩ := List.mem_map.mp hk
    exact .inl (by simp [preTrialClear, clearQueue, hq])

theorem queueFor_mem (hq : queues ≠ []) (index : Nat) : queueFor queues index ∈ queues := by
  have hl : index % queues.length < queues.length :=
    Nat.mod_lt _ (List.length_pos_iff.mpr hq)
  simp [queueFor, List.getElem?_eq_getElem hl]

theorem bulkEnqueue_pushes (hq : queues ≠ []) {pipes : List (List (Cmd Entry))}
    (hb : bulkEnqueue serde clock trial queues nJobs = some pipes) :
    (∀ c ∈ pipes.flatten, c.fills (queueKeys queues)) ∧
      pipes.flatten.flatMap Cmd.pushed = pushedJobs serde clock trial nJobs := by
  obtain ⟨pipes', hb', hflat⟩ := bulkEnqueue_spec serde clock trial hq nJobs
  obtain rfl : pipes = pipes' := Option.some.inj (hb.symm.trans hb')
  rw [hflat]
  constructor
  · intro c hc
    simp only [List.mem_append, List.mem_map] at hc
    rcases hc with ⟨q, _, rfl⟩ | ⟨i, _, rfl⟩
    · trivial
    · exact List.mem_map_of_mem (queueFor_mem hq i)
  · have hs : (queues.map (fun queue => (.sadd "queues" queue : Cmd Entry))).flatMap Cmd.pushed =
        [] := by simp [List.flatMap_map, Cmd.pushed]
    rw [List.flatMap_append, hs, List.nil_append, List.flatMap_map, pushedJobs]
    exact List.map_eq_flatMap.symm

end Producer

theorem queued_exec_clears (keys : List String) (db : Db Entry) {c : Cmd Entry}
    (hc : c.clears = true) : queued keys (exec db c).1 ≤ queued keys db := by
  apply queued_mono
  intro key _
  rcases listAt_exec_clears db hc key with he | he
  · rw [he]
    exact Multiset.zero_le _
  · rw [he]

theorem queued_exec_fills {keys : List String} (hnd : keys.Nodup) (db : Db Entry) {c : Cmd Entry}
    (hc : c.fills keys) (hok : (exec db c).2.isError = false) :
    queued keys (exec db c).1 = queued keys db + (c.pushed : Multiset Entry) := by
  cases c with
  | sadd k m =>
    rw [queued_congr (fun key _ => listAt_exec_sadd db k m key)]
    simp [Cmd.pushed]
  | rpush k e => exact queued_push hnd hc hok
  | _ => exact hc.elim

def Phase.popped {H : Type} (p : Phase H) : Multiset Entry := p.hub.ledger.removed

def World.removed {H : Type} (w : World H) : Multiset Entry := total Phase.popped w.phases

def pending (pipe : List (Cmd Entry)) (rest : List (List (Cmd Entry))) : Multiset Entry :=
  ((pipe ++ rest.flatten).flatMap Cmd.pushed : List Entry)

@[simp] theorem pending_nil : pending [] [] = 0 := rfl

theorem pending_cons (c : Cmd Entry) (pipe : List (Cmd Entry)) (rest : List (List (Cmd Entry))) :
    pending (c :: pipe) rest = (c.pushed : Multiset Entry) + pending pipe rest := by
  simp [pending]

theorem pending_next (pipe : List (Cmd Entry)) (rest : List (List (Cmd Entry))) :
    pending [] (pipe :: rest) = pending pipe rest := by
  simp [pending]

section Phase

variable {H : Type} {serde : Serde} {hdr : Hdr H} {db db' : Db Entry} {p p' : Phase H}
  {a : PhaseAct}

theorem PhaseMove.server (h : PhaseMove serde hdr db p a db' p') :
    (db' = db ∧ p'.hub.ledger.removed = p.hub.ledger.removed) ∨
    ∃ (key : String) (e : Entry) (rest : List Entry),
      key ∈ p.tasks.pollWorker.queueKeys ∧ listAt db key = e :: rest ∧
      p'.hub.ledger.removed = p.hub.ledger.removed ++ [e] ∧
      ∀ key', listAt db' key' = if key' = key then rest else listAt db key' := by
  obtain ⟨_, act, hf, _⟩ := h.fleet
  cases act with
  | none =>
    have he : p'.fleet db' = p.fleet db := hf
    exact .inl ⟨congrArg (fun f => f.shared.db) he,
      congrArg (fun f => f.shared.hub.ledger.removed) he⟩
  | some act =>
    have hm : FleetMove serde p.tasks.pollWorker (p.fleet db) act (p'.fleet db') := hf
    rcases hm.server with h | ⟨k, key, e, rest, hk, hl, _, hr, hdb⟩
    · exact .inl h
    · exact .inr ⟨key, e, rest, List.mem_of_getElem? hk, hl, hr, hdb⟩

theorem PhaseMove.suffix (h : PhaseMove serde hdr db p a db' p') (key : String) :
    listAt db' key <:+ listAt db key := by
  rcases h.server with ⟨rfl, _⟩ | ⟨key', e, rest, _, hl, _, hdb⟩
  · exact List.suffix_rfl
  · rw [hdb]
    split
    · rename_i hk
      rw [hk, hl]
      exact List.suffix_cons e rest
    · exact List.suffix_rfl

end Phase

section World

variable {H : Type} {serde : Serde} {hdr : Hdr H} {clock : Nat → Nat → Option Nat} {cli : Cli}
  {w w' : World H}

def Piped (cli : Cli) (w : World H) : Prop :=
  match w.main.activity with
  | .clearing _ => ∀ c ∈ w.main.pipe, c.clears = true
  | .enqueuing _ rest => ∀ c ∈ w.main.pipe ++ rest.flatten, c.fills cli.queueKeys
  | .measuring _ _ => ∀ c ∈ w.main.pipe, ∃ key, c = .llen key
  | _ => w.main.pipe = []

theorem Piped.step (h : Piped cli w) (hm : WorldMove serde hdr clock cli w w') :
    Piped cli w' := by
  cases hm with
  | phase i a p p' db' hr hp hm => exact h
  | begin plan todo ha ht => exact preTrialClear_clears cli.queueNames cli.allowFlushdb
  | finish ha ht => rfl
  | exec c pipe hp =>
    unfold Piped at h ⊢
    rw [hp] at h
    split at h <;> rename_i ha <;> simp only [ha]
    · exact fun c' hc' => h c' (List.mem_cons_of_mem _ hc')
    · exact fun c' hc' => h c' (List.mem_cons_of_mem _ hc')
    · exact fun c' hc' => h c' (List.mem_cons_of_mem _ hc')
    · cases h
  | stop ha => rfl
  | cleared plan pipe rest ha hp hb =>
    exact (bulkEnqueue_pushes (makeQueueNames_ne_nil _ _) hb).1
  | batch plan pipe rest ha hp hr =>
    simp only [Piped, ha, hp] at h
    exact h
  | drain plan ha hp hr => rfl
  | drained plan p result ha hl hr =>
    unfold World.drained
    split
    · intro c hc
      obtain ⟨q, _, rfl⟩ := List.mem_map.mp hc
      exact ⟨_, rfl⟩
    · rfl
  | skip plan result backlog ha hp hs hb => rfl
  | idle plan result ha hp hs => rfl
  | rested plan result p idle ha hl hr => rfl

theorem PhasesKept.popped (h : PhasesKept hdr cli w) {i : Nat} {a : PhaseAct} {p p' : Phase H}
    {db' : Db Entry} (hp : w.phases[i]? = some p) (hm : PhaseMove serde hdr w.db p a db' p') :
    (queued cli.queueKeys db' = queued cli.queueKeys w.db ∧
      p'.hub.ledger.removed = p.hub.ledger.removed ∧
      World.removed { w with db := db', phases := w.phases.set i p' } = w.removed) ∨
    ∃ e, queued cli.queueKeys w.db = e ::ₘ queued cli.queueKeys db' ∧
      p'.hub.ledger.removed = p.hub.ledger.removed ++ [e] ∧
      World.removed { w with db := db', phases := w.phases.set i p' } = e ::ₘ w.removed := by
  have ht := total_set Phase.popped p' hp
  simp only [Phase.popped] at ht
  rcases hm.server with ⟨rfl, hr⟩ | ⟨key, e, rest, hk, hl, hr, hdb⟩
  · rw [hr] at ht
    exact .inl ⟨rfl, hr, add_right_cancel ht⟩
  · rw [(h i p hp).keyed] at hk
    rw [hr, ← Multiset.coe_add, add_left_comm, add_comm] at ht
    refine .inr ⟨e, queued_pop cli.queueKeys_nodup hk hl hdb, hr, ?_⟩
    rw [← Multiset.singleton_add, add_comm]
    exact (add_left_cancel ht).trans (by rfl)

theorem World.removed_launch (w : World H) (activity : Activity) {p : Phase H}
    (hp : p.hub.ledger.removed = []) : (w.launch activity p).removed = w.removed := by
  simp [World.removed, World.launch, World.send, total_append, Phase.popped, hp]

/-- What the queues hold after the first trial. Before it, that is no job of this
run. -/
def World.leftover (cli : Cli) (w : World H) : Multiset Entry :=
  match w.phases with
  | [] => 0
  | _ :: _ => queued cli.queueKeys w.db

theorem World.leftover_le (cli : Cli) (w : World H) :
    w.leftover cli ≤ queued cli.queueKeys w.db := by
  unfold World.leftover
  split
  · exact Multiset.zero_le _
  · exact le_refl _

theorem World.leftover_of_ne_nil (cli : Cli) {w : World H} (hne : w.phases ≠ []) :
    w.leftover cli = queued cli.queueKeys w.db := by
  unfold World.leftover
  split
  · rename_i he
    exact absurd he hne
  · rfl

/-- The jobs of this run on the server or on their way to it. -/
def World.server (cli : Cli) (w : World H) : Multiset Entry :=
  match w.main.activity with
  | .enqueuing _ rest => queued cli.queueKeys w.db + pending w.main.pipe rest
  | .draining _ | .measuring _ _ | .idling _ _ => queued cli.queueKeys w.db
  | .between | .clearing _ | .finished _ => w.leftover cli
  | .stopped => 0

/-- Trials are numbered by their drain phase; those below this one have begun to
push. -/
def World.begun (w : World H) : Nat :=
  match w.main.activity with
  | .enqueuing _ _ | .stopped => w.phases.length + 1
  | _ => w.phases.length

/-- No job is on the server twice, popped twice, or popped and on the server. -/
structure Fresh (cli : Cli) (w : World H) : Prop where
  nodup : (w.removed + w.server cli).Nodup
  begun : ∀ e ∈ w.removed + w.server cli, e.trial < w.begun

theorem Fresh.mono (h : Fresh cli w) (hs : w'.removed + w'.server cli ≤ w.removed + w.server cli)
    (hb : w.begun ≤ w'.begun) : Fresh cli w' where
  nodup := Multiset.nodup_of_le hs h.nodup
  begun e he := (h.begun e (Multiset.mem_of_le hs he)).trans_le hb

theorem Fresh.calm (h : Fresh cli w) (hp : w'.phases = w.phases)
    (hs : w'.server cli ≤ w.server cli) (hb : w.begun ≤ w'.begun) : Fresh cli w' := by
  refine h.mono ?_ hb
  have hr : w'.removed = w.removed := by rw [World.removed, World.removed, hp]
  rw [hr]
  exact add_le_add_right hs _

/-- During the pre-trial clear: a queue is empty, or what empties it is still to
come. -/
def Clearing (cli : Cli) (w : World H) : Prop :=
  ∀ plan, w.main.activity = .clearing plan → ∀ key ∈ cli.queueKeys,
    listAt w.db key = [] ∨ .del key ∈ w.main.pipe ∨ .flushdb ∈ w.main.pipe

theorem Clearing.step (h : Clearing cli w) (hc : Piped cli w)
    (hm : WorldMove serde hdr clock cli w w') : Clearing cli w' := by
  intro plan' ha' key hk
  cases hm with
  | phase i a p p' db' hr hp hm =>
    rcases h plan' ha' key hk with he | he
    · exact .inl (List.suffix_nil.mp (he ▸ hm.suffix key))
    · exact .inr he
  | begin plan todo ha ht => exact .inr (preTrialClear_covers cli.queueNames cli.allowFlushdb hk)
  | exec c pipe hp =>
    have ha : w.main.activity = .clearing plan' := ha'
    simp only [Piped, ha, hp] at hc
    have hcl := listAt_exec_clears w.db (hc c List.mem_cons_self) key
    have hh := h plan' ha key hk
    simp only [hp, List.mem_cons] at hh
    rcases hh with he | (rfl | he) | (rfl | he)
    · rw [he, or_self] at hcl
      exact .inl hcl
    · exact .inl (by rw [listAt_exec_del, if_pos rfl])
    · exact .inr (.inl he)
    · exact .inl rfl
    · exact .inr (.inr he)
  | drained plan p result ha hl hr =>
    unfold World.drained at ha'
    split at ha' <;> cases ha'
  | _ => cases ha'

theorem Fresh.phase (h : Fresh cli w) (hk : PhasesKept hdr cli w) {i : Nat} {a : PhaseAct}
    {p p' : Phase H} {db' : Db Entry} (hr : w.main.activity.returned = false)
    (hp : w.phases[i]? = some p) (hm : PhaseMove serde hdr w.db p a db' p') :
    Fresh cli { w with db := db', phases := w.phases.set i p' } := by
  have hne : w.phases ≠ [] := by
    rintro he
    simp [he] at hp
  have hserver : ∃ m : Multiset Entry, w.server cli = queued cli.queueKeys w.db + m ∧
      World.server cli { w with db := db', phases := w.phases.set i p' } =
        queued cli.queueKeys db' + m := by
    unfold World.server
    cases ha : w.main.activity with
    | enqueuing plan rest => exact ⟨_, rfl, rfl⟩
    | stopped => simp [ha, Activity.returned] at hr
    | draining plan => exact ⟨0, (add_zero _).symm, (add_zero _).symm⟩
    | measuring plan result => exact ⟨0, (add_zero _).symm, (add_zero _).symm⟩
    | idling plan result => exact ⟨0, (add_zero _).symm, (add_zero _).symm⟩
    | _ => exact ⟨0, by simp [World.leftover_of_ne_nil cli hne],
        by simp [World.leftover_of_ne_nil, hne]⟩
  obtain ⟨m, hs, hs'⟩ := hserver
  have hsum : World.removed { w with db := db', phases := w.phases.set i p' } +
      queued cli.queueKeys db' = w.removed + queued cli.queueKeys w.db := by
    rcases hk.popped hp hm with ⟨hq, _, hr⟩ | ⟨e, hq, _, hr⟩
    · rw [hq, hr]
    · rw [hq, hr, Multiset.cons_add, Multiset.add_cons]
  refine h.mono (le_of_eq ?_) (by simp [World.begun])
  rw [hs, hs', ← add_assoc, hsum, add_assoc]

theorem World.server_exec (hc : Piped cli w) {c : Cmd Entry} {pipe : List (Cmd Entry)}
    (hp : w.main.pipe = c :: pipe) :
    World.server cli { w with
      db := (exec w.db c).1
      main := { w.main with pipe := pipe, replies := w.main.replies ++ [(exec w.db c).2] } } ≤
    w.server cli := by
  unfold Piped at hc
  rw [hp] at hc
  unfold World.server
  cases ha : w.main.activity with
  | enqueuing plan rest =>
    simp only [ha] at hc
    have hf := hc c List.mem_cons_self
    simp only [hp, pending_cons]
    by_cases he : (exec w.db c).2.isError = true
    · rw [exec_error he]
      exact add_le_add_right (Multiset.le_add_left _ _) _
    · rw [queued_exec_fills cli.queueKeys_nodup w.db hf (Bool.eq_false_iff.mpr he), add_assoc]
  | clearing plan =>
    simp only [ha] at hc
    have hle := queued_exec_clears cli.queueKeys w.db (hc c List.mem_cons_self)
    dsimp only [World.leftover]
    split
    · exact le_refl _
    · exact hle
  | measuring plan result =>
    simp only [ha] at hc
    obtain ⟨key, rfl⟩ := hc c List.mem_cons_self
    simp
  | _ => simp [ha] at hc

theorem Fresh.step (h : Fresh cli w) (hk : PhasesKept hdr cli w) (hc : Piped cli w)
    (hcl : Clearing cli w) (hm : WorldMove serde hdr clock cli w w') : Fresh cli w' := by
  cases hm with
  | phase i a p p' db' hr hp hm => exact h.phase hk hr hp hm
  | begin plan todo ha ht =>
    refine h.calm rfl ?_ (by simp [World.begun, World.send, ha])
    simp only [World.send, World.server, ha]
    exact le_refl _
  | finish ha ht =>
    refine h.calm rfl ?_ (by simp [World.begun, World.send, ha])
    simp only [World.send, World.server, ha]
    exact le_refl _
  | exec c pipe hp => exact h.mono (add_le_add_right (World.server_exec hc hp) _) (le_refl _)
  | stop ha =>
    refine h.calm rfl (Multiset.zero_le _) ?_
    unfold World.begun
    split <;> simp [World.stop, World.send]
  | cleared plan pipe rest ha hp hb =>
    have hzero : queued cli.queueKeys w.db = 0 := by
      rw [queued_eq_zero_iff]
      intro key hkey
      simpa [hp] using hcl plan ha key hkey
    have hpend : pending pipe rest =
        pushedJobs serde (clock w.phases.length) w.phases.length plan.jobs :=
      congrArg _ (bulkEnqueue_pushes (makeQueueNames_ne_nil _ _) hb).2
    have hold : ∀ e ∈ w.removed, e.trial < w.phases.length := fun e he => by
      simpa [World.begun, ha] using h.begun e (Multiset.mem_add.mpr (.inl he))
    have hnew : ∀ e ∈ pending pipe rest, e.trial = w.phases.length := by
      intro e he
      rw [hpend, Multiset.mem_coe, mem_pushedJobs] at he
      obtain ⟨index, _, rfl⟩ := he
      rfl
    have hstock : World.server cli (w.send (.enqueuing plan rest) pipe) = pending pipe rest := by
      simp [World.server, World.send, hzero]
    constructor
    · rw [hstock]
      refine Multiset.nodup_add.mpr ⟨(Multiset.nodup_add.mp h.nodup).1, ?_, ?_⟩
      · rw [hpend]
        exact pushedJobs_nodup _ _ _ _
      · rw [Multiset.disjoint_left]
        intro e he he'
        exact absurd (hnew e he') (hold e he).ne
    · rw [hstock]
      intro e he
      show e.trial < w.phases.length + 1
      rcases Multiset.mem_add.mp he with he | he
      · exact (hold e he).trans (Nat.lt_succ_self _)
      · exact (hnew e he).trans_lt (Nat.lt_succ_self _)
  | batch plan pipe rest ha hp hr =>
    exact h.calm rfl (by simp [World.send, World.server, ha, hp, pending_next])
      (by simp [World.begun, World.send, ha])
  | drain plan ha hp hr =>
    refine h.mono ?_ (by simp [World.begun, World.launch, World.send, ha])
    rw [World.removed_launch w _ rfl]
    simp [World.launch, World.send, World.server, ha, hp]
  | drained plan p result ha hl hr =>
    unfold World.drained
    split
    · exact h.calm rfl (by simp [World.send, World.server, ha]) (by simp [World.begun, World.send, ha])
    · refine h.calm rfl ?_ (by simp [World.begun, World.send, ha])
      simp only [World.send, World.server, ha]
      exact World.leftover_le cli _
  | skip plan result backlog ha hp hs hb =>
    refine h.calm rfl ?_ (by simp [World.begun, World.conclude, ha])
    simp only [World.conclude, World.server, ha]
    exact World.leftover_le cli _
  | idle plan result ha hp hs =>
    refine h.mono ?_ (by simp [World.begun, World.launch, World.send, ha])
    rw [World.removed_launch w _ rfl]
    simp [World.launch, World.send, World.server, ha]
  | rested plan result p idle ha hl hr =>
    refine h.calm rfl ?_ (by simp [World.begun, World.conclude, ha])
    simp only [World.conclude, World.server, ha]
    exact World.leftover_le cli _

end World

end ResqueBench
