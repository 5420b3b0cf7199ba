import ResqueBench.SharedRedis

/-! The batched producer against the plain loop that pushes one job at a time, and
its `u64` index arithmetic with the overflow and zero checks of the source. -/

namespace ResqueBench

open Redis

def addU64 (a b : Nat) : Option Nat := if a + b < 2 ^ 64 then some (a + b) else none

def remU64 (a b : Nat) : Option Nat := if b = 0 then none else some (a % b)

section Checked

variable (serde : Serde) (clock : Nat → Option Nat) (trial : Nat) {queues : List String}

/-- One push of a batch, `none` where its index arithmetic fails. -/
def pushJobU64 (queues : List String) (idx j : Nat) : Option (Cmd Entry) := do
  let line ← remU64 (← addU64 idx j) queues.length
  let queue ← queues[line]?
  let index ← addU64 idx j
  some (.rpush ("queue:" ++ queue) (jobEntry serde clock trial index))

def enqueueBatchesU64 (queues : List String) (idx remaining : Nat) :
    Option (List (List (Cmd Entry))) :=
  if 0 < remaining then
    let batch := min remaining batchSize
    if batch ≤ remaining then -- `remaining -= batch`
      match (List.range batch).mapM (pushJobU64 serde clock trial queues idx),
        addU64 idx batch with
      | some pipe, some idx' =>
        (enqueueBatchesU64 queues idx' (remaining - batch)).map (pipe :: ·)
      | _, _ => none
    else none
  else some []
termination_by remaining
decreasing_by simp only [batchSize]; omega

def bulkEnqueueU64 (queues : List String) (nJobs : Nat) : Option (List (List (Cmd Entry))) :=
  (enqueueBatchesU64 serde clock trial queues 0 nJobs).map
    (fun batches => queues.map (fun queue => .sadd "queues" queue) :: batches)

theorem pushJobU64_eq (hq : queues ≠ []) {idx j : Nat} (h : idx + j < 2 ^ 64) :
    pushJobU64 serde clock trial queues idx j =
      some (pushOf serde clock trial queues (idx + j)) := by
  have hl : queues.length ≠ 0 := fun he => hq (List.length_eq_zero_iff.mp he)
  have hadd : addU64 idx j = some (idx + j) := by simp only [addU64, h, if_true]
  have hpush := pushJob_eq serde clock trial hq (idx + j)
  obtain ⟨queue, hqueue, he⟩ := Option.map_eq_some_iff.mp hpush
  simp [pushJobU64, hadd, remU64, hl, hqueue, he]

theorem enqueueBatchesU64_eq (hq : queues ≠ []) {idx remaining : Nat}
    (h : idx + remaining < 2 ^ 64) :
    enqueueBatchesU64 serde clock trial queues idx remaining =
      enqueueBatches serde clock trial queues idx remaining := by
  induction remaining using Nat.strong_induction_on generalizing idx with
  | _ remaining ih =>
    rw [enqueueBatchesU64, enqueueBatches]
    by_cases hr : 0 < remaining
    · have hb : 0 < min remaining batchSize := by simp only [batchSize]; omega
      have hle : min remaining batchSize ≤ remaining := Nat.min_le_left _ _
      generalize min remaining batchSize = batch at hb hle
      have hfits : ∀ j ∈ List.range batch, idx + j < 2 ^ 64 := by
        intro j hj
        have hlt := List.mem_range.mp hj
        omega
      have hpipe := mapM_some_eq (fun j hj => pushJobU64_eq serde clock trial hq (hfits j hj))
      have hpipe' := mapM_some_eq (l := List.range batch)
        (fun j _ => pushJob_eq serde clock trial hq (idx + j))
      have hadd : addU64 idx batch = some (idx + batch) := by
        have : idx + batch < 2 ^ 64 := by omega
        simp only [addU64, this, if_true]
      have hlast : idx + batch + (remaining - batch) < 2 ^ 64 := by omega
      have hrec := ih (remaining - batch) (by omega) hlast
      simp only [hr, hle, if_true, hpipe, hpipe', hadd, hrec]
      cases enqueueBatches serde clock trial queues (idx + batch) (remaining - batch) <;> rfl
    · simp [hr]

theorem bulkEnqueueU64_eq (hq : queues ≠ []) {nJobs : Nat} (h : nJobs < 2 ^ 64) :
    bulkEnqueueU64 serde clock trial queues nJobs =
      bulkEnqueue serde clock trial queues nJobs := by
  rw [bulkEnqueueU64, bulkEnqueue, enqueueBatchesU64_eq serde clock trial hq (by omega)]

end Checked

/-- One pipeline after the other, each awaited; an error ends it. -/
def sendAll (db : Db Entry) (pipes : List (List (Cmd Entry))) : Option (Db Entry) :=
  pipes.foldlM execAll db

/-- The plain loop: the names are registered, and job after job is pushed alone. -/
def enqueueOneByOne (serde : Serde) (clock : Nat → Option Nat) (trial : Nat)
    (queues : List String) (nJobs : Nat) (db : Db Entry) : Option (Db Entry) := do
  let db ← execAll db (queues.map (fun queue => .sadd "queues" queue))
  (List.range nJobs).foldlM
    (fun db index => execAll db [pushOf serde clock trial queues index]) db

theorem sendAll_eq (db : Db Entry) (pipes : List (List (Cmd Entry))) :
    sendAll db pipes = execAll db pipes.flatten := by
  unfold sendAll
  induction pipes generalizing db with
  | nil => rfl
  | cons pipe pipes ih =>
    rw [List.foldlM_cons, List.flatten_cons, execAll_append]
    exact bind_congr fun db' => ih db'

theorem foldlM_execAll {α : Type*} (f : α → Cmd Entry) (db : Db Entry) (l : List α) :
    l.foldlM (fun db x => execAll db [f x]) db = execAll db (l.map f) := by
  induction l generalizing db with
  | nil => rfl
  | cons x l ih =>
    have hsplit : execAll db (f x :: l.map f) =
        (execAll db [f x]).bind (fun db' => execAll db' (l.map f)) :=
      execAll_append db [f x] (l.map f)
    rw [List.foldlM_cons, List.map_cons, hsplit]
    exact bind_congr fun db' => ih db'

theorem length_makeQueueNames (base : String) {n : Nat} (hn : 1 ≤ n) :
    (makeQueueNames base n).length = n := by
  unfold makeQueueNames
  split
  · simp only [List.length_singleton]; omega
  · simp

theorem mem_setAt_sadds {queues : List String} {db db' : Db Entry}
    (h : execAll db (queues.map (fun queue => .sadd "queues" queue)) = some db') {q : String}
    (hq : q ∈ queues ∨ q ∈ setAt db "queues") : q ∈ setAt db' "queues" := by
  induction queues generalizing db with
  | nil =>
    simp only [List.map_nil, execAll, Option.some.injEq] at h
    exact h ▸ hq.resolve_left (by simp)
  | cons q' queues ih =>
    have h1 := execAll_cons h
    refine ih h1.2 ?_
    rw [mem_setAt_sadd h1.1]
    rcases hq with hq | hq
    · exact (List.mem_cons.mp hq).elim (fun he => .inr (.inl he)) .inl
    · exact .inr (.inr hq)

theorem registry_pushes {serde : Serde} {clock : Nat → Option Nat} {trial : Nat}
    {queues : List String} {indices : List Nat} {db db' : Db Entry}
    (h : execAll db (indices.map (pushOf serde clock trial queues)) = some db') :
    db' "queues" = db "queues" := by
  induction indices generalizing db with
  | nil =>
    simp only [List.map_nil, execAll, Option.some.injEq] at h
    rw [h]
  | cons i indices ih =>
    have h1 := execAll_cons h
    exact (ih h1.2).trans (exec_frame db (queueKey_ne_queues _).symm)

theorem length_pushed_le (pipe : List (Cmd Entry)) :
    (pipe.flatMap Cmd.pushed).length ≤ pipe.length := by
  induction pipe with
  | nil => exact le_refl _
  | cons c pipe ih =>
    have hc : c.pushed.length ≤ 1 := by cases c <;> simp [Cmd.pushed]
    rw [List.flatMap_cons, List.length_append, List.length_cons]
    omega

section Pipes

variable {serde : Serde} {clock : Nat → Option Nat} {trial : Nat} {queues : List String}
  {nJobs : Nat} {pipes : List (List (Cmd Entry))}

theorem bulkEnqueue_batched (hq : queues ≠ [])
    (h : bulkEnqueue serde clock trial queues nJobs = some pipes) {pipe : List (Cmd Entry)}
    (hp : pipe ∈ pipes) : (pipe.flatMap Cmd.pushed).length ≤ 1000 := by
  obtain ⟨batches, hb, _, hlen⟩ := enqueueBatches_spec serde clock trial hq 0 nJobs
  simp only [bulkEnqueue, hb, Option.map_some, Option.some.injEq] at h
  subst h
  rcases List.mem_cons.mp hp with rfl | hp
  · simp [List.flatMap_map, Cmd.pushed]
  · exact (length_pushed_le pipe).trans (hlen pipe hp)

theorem bulkEnqueue_registers (hq : queues ≠ [])
    (h : bulkEnqueue serde clock trial queues nJobs = some pipes) {db db' : Db Entry}
    (he : execAll db pipes.flatten = some db') {q : String} (hm : q ∈ queues) :
    q ∈ setAt db' "queues" := by
  obtain ⟨pipes', h', hflat⟩ := bulkEnqueue_spec serde clock trial hq nJobs
  obtain rfl : pipes = pipes' := Option.some.inj (h.symm.trans h')
  rw [hflat, execAll_append] at he
  obtain ⟨db₁, hs, he⟩ := Option.bind_eq_some_iff.mp he
  have hr := registry_pushes he
  have hmem : q ∈ setAt db₁ "queues" := mem_setAt_sadds hs (.inl hm)
  rwa [setAt, hr]

end Pipes

/-- The element pushed for an index is the encoded job of that index, which has it as
its second argument. -/
theorem jobEntry_encodes (serde : Serde) (clock : Nat → Option Nat) (trial i : Nat) :
    (jobEntry serde clock trial i).payload = serde.toString (ResqueJob.new i (clock i)) ∧
      (ResqueJob.new i (clock i)).args[1]? = some (.posInt i) := ⟨rfl, rfl⟩

/-- A batched `bulk_enqueue` sends at most 1000 pushes in a pipeline, no index of it
overflows or is divided by zero, and it has the outcome of the plain loop. Where that
is a success, job `i` stands `i / n` places behind what queue `i % n` held before. -/
theorem bulk_enqueue_eq_plain_loop (serde : Serde) (clock : Nat → Option Nat) (trial : Nat)
    (base : String) {n nJobs : Nat} (hn : 1 ≤ n) (hj : nJobs < 2 ^ 64) (db : Db Entry) :
    let queues := makeQueueNames base n
    queues.length = n ∧ (queueKeys queues).Nodup ∧
    ∃ pipes, bulkEnqueueU64 serde clock trial queues nJobs = some pipes ∧
      bulkEnqueue serde clock trial queues nJobs = some pipes ∧
      (∀ pipe ∈ pipes, (pipe.flatMap Cmd.pushed).length ≤ 1000) ∧
      pipes.flatten.flatMap Cmd.pushed = pushedJobs serde clock trial nJobs ∧
      (pipes.flatten.flatMap Cmd.pushed).map Entry.index = List.range nJobs ∧
      (pipes.flatten.flatMap Cmd.pushed).map Entry.payload =
        (List.range nJobs).map (fun i => serde.toString (ResqueJob.new i (clock i))) ∧
      (∀ i, (jobEntry serde clock trial i).payload = serde.toString (ResqueJob.new i (clock i)) ∧
        (ResqueJob.new i (clock i)).args[1]? = some (.posInt i)) ∧
      sendAll db pipes = enqueueOneByOne serde clock trial queues nJobs db ∧
      ∀ db', sendAll db pipes = some db' →
        (∀ i < nJobs, ∃ key, (queueKeys queues)[i % n]? = some key ∧
          (listAt db' key)[(listAt db key).length + i / n]? =
            some (jobEntry serde clock trial i)) ∧
        (∀ line key, (queueKeys queues)[line]? = some key → ∃ indices : List Nat,
          listAt db' key = listAt db key ++ indices.map (jobEntry serde clock trial) ∧
          indices.Pairwise (· < ·) ∧ (∀ i, i ∈ indices ↔ i < nJobs ∧ i % n = line) ∧
          (listAt db' key).length =
            (listAt db key).length + nJobs / n + if line < nJobs % n then 1 else 0) ∧
        ∀ q ∈ queues, q ∈ setAt db' "queues" := by
  intro queues
  have hlen : queues.length = n := length_makeQueueNames base hn
  have hne : queues ≠ [] := makeQueueNames_ne_nil base n
  have hnd : queues.Nodup := makeQueueNames_nodup base n
  obtain ⟨pipes, hp, hflat⟩ := bulkEnqueue_spec serde clock trial hne nJobs
  have hpushed := (bulkEnqueue_pushes hne hp).2
  refine ⟨hlen, queueKeys_nodup hnd, pipes, ?_, hp, fun pipe hm => bulkEnqueue_batched hne hp hm,
    hpushed, ?_, ?_, jobEntry_encodes serde clock trial, ?_, ?_⟩
  · rw [bulkEnqueueU64_eq serde clock trial hne hj, hp]
  · rw [hpushed, pushedJobs, List.map_map]
    exact List.map_id _
  · rw [hpushed, pushedJobs, List.map_map]
    exact List.map_congr_left fun i _ => (jobEntry_encodes serde clock trial i).1
  · rw [sendAll_eq, hflat, execAll_append, enqueueOneByOne]
    exact bind_congr fun db₁ => (foldlM_execAll _ _ _).symm
  · intro db' hdb'
    rw [sendAll_eq] at hdb'
    have hqueue : ∀ {line : Nat} (hl : line < queues.length),
        (queueKeys queues)[line]? = some ("queue:" ++ queues[line]) := by
      intro line hl
      simp [queueKeys, hl]
    refine ⟨fun i hi => ?_, fun line key hk => ?_, fun q hq => bulkEnqueue_registers hne hp hdb' hq⟩
    · have hl : i % n < queues.length := by rw [hlen]; exact Nat.mod_lt i hn
      refine ⟨_, hqueue hl, ?_⟩
      rw [listAt_bulkEnqueue hp hdb' hnd hl, hlen,
        List.getElem?_append_right (Nat.le_add_right _ _), Nat.add_sub_cancel_left,
        List.getElem?_map, RoundRobin.getElem?_dealt hn hi, Option.map_some]
    · have hl : line < queues.length := by
        simpa [queueKeys] using (List.getElem?_eq_some_iff.mp hk).1
      obtain rfl := Option.some.inj ((hqueue hl).symm.trans hk)
      have hlist := listAt_bulkEnqueue hp hdb' hnd hl
      rw [hlen] at hlist
      refine ⟨_, hlist, RoundRobin.dealt_ascending n nJobs line,
        fun i => RoundRobin.mem_dealt, ?_⟩
      rw [hlist, List.length_append, List.length_map, RoundRobin.length_dealt (hlen ▸ hl),
        Nat.add_assoc]

/-- Three jobs on two queues, one of which holds a job already. -/
theorem bulk_enqueue_eq_plain_loop_two_queues : ∃ db : Db Entry,
    (listAt db "queue:q_0").length = 1 ∧ ∃ db' pipes,
      bulkEnqueueU64 (.envelopes []) (fun _ => none) 1 ["q_0", "q_1"] 3 = some pipes ∧
      sendAll db pipes = some db' ∧ (listAt db' "queue:q_0").length = 3 ∧
      (listAt db' "queue:q_1").length = 1 := by
  let db : Db Entry := fun key =>
    if key = "queue:q_0" then some (.list [⟨"", 0, 0⟩]) else none
  have hspec := bulk_enqueue_eq_plain_loop (.envelopes []) (fun _ => none) 1 "q"
    (show 1 ≤ 2 by decide) (show 3 < 2 ^ 64 by decide) db
  obtain ⟨_, _, pipes, hchecked, _, _, _, _, _, _, hsame, hdone⟩ := hspec
  have hnames : makeQueueNames "q" 2 = ["q_0", "q_1"] := by decide
  rw [hnames] at hchecked hsame hdone
  have hsome : (enqueueOneByOne (.envelopes []) (fun _ => none) 1 ["q_0", "q_1"] 3 db).isSome =
    true := by decide +kernel
  obtain ⟨db', hdb'⟩ := Option.isSome_iff_exists.mp hsome
  obtain ⟨_, hlines, _⟩ := hdone db' (hsame.trans hdb')
  obtain ⟨_, _, _, _, hfirst⟩ := hlines 0 "queue:q_0" (by decide)
  obtain ⟨_, _, _, _, hsecond⟩ := hlines 1 "queue:q_1" (by decide)
  exact ⟨db, by decide, db', pipes, hchecked, hsame.trans hdb', hfirst, hsecond⟩

end ResqueBench
