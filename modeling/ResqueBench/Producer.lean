import ResqueBench.Job
import ResqueBench.RoundRobin

/-! The producer: clearing the queues, filling them round-robin in batches, and
measuring their total length. Each function is the list of pipelines it sends. -/

namespace ResqueBench

open Redis

def clearQueue (queues : List String) : List (Cmd Entry) :=
  queues.flatMap (fun queue => [.del ("queue:" ++ queue), .srem "queues" queue])

def flushdb : List (Cmd Entry) := [.flushdb]

def preTrialClear (queues : List String) (allowFlushdb : Bool) : List (Cmd Entry) :=
  if allowFlushdb then flushdb else clearQueue queues

def totalQueueLen (queues : List String) : List (Cmd Entry) :=
  queues.map (fun queue => .llen ("queue:" ++ queue))

/-- The sum of the replies to a pipeline of `LLEN`s, which no reply may spoil. -/
def sumLens (db : Db Entry) : List (Cmd Entry) → Option Nat
  | [] => some 0
  | c :: cs =>
    match (exec db c).2 with
    | .int n => (sumLens (exec db c).1 cs).map (n + ·)
    | _ => none

def batchSize : Nat := 1000

/-- The element `bulk_enqueue` pushes for one index. -/
def jobEntry (serde : Serde) (clock : Nat → Option Nat) (trial index : Nat) : Entry where
  payload := serde.toString (ResqueJob.new index (clock index))
  trial := trial
  index := index

/-- One push of a batch. The source's `% n_queues` and `queues[..]` panic on an
empty list, which is `none` here. -/
def pushJob (serde : Serde) (clock : Nat → Option Nat) (trial : Nat) (queues : List String)
    (index : Nat) : Option (Cmd Entry) :=
  queues[index % queues.length]?.map
    (fun queue => .rpush ("queue:" ++ queue) (jobEntry serde clock trial index))

def enqueueBatches (serde : Serde) (clock : Nat → Option Nat) (trial : Nat)
    (queues : List String) (idx remaining : Nat) : Option (List (List (Cmd Entry))) :=
  if 0 < remaining then
    let batch := min remaining batchSize
    match (List.range batch).mapM (fun j => pushJob serde clock trial queues (idx + j)),
      enqueueBatches serde clock trial queues (idx + batch) (remaining - batch) with
    | some pipe, some rest => some (pipe :: rest)
    | _, _ => none
  else some []
termination_by remaining
decreasing_by simp only [batchSize]; omega

def bulkEnqueue (serde : Serde) (clock : Nat → Option Nat) (trial : Nat) (queues : List String)
    (nJobs : Nat) : Option (List (List (Cmd Entry))) :=
  (enqueueBatches serde clock trial queues 0 nJobs).map
    (fun batches => queues.map (fun queue => .sadd "queues" queue) :: batches)

def queueFor (queues : List String) (index : Nat) : String :=
  queues.getD (index % queues.length) ""

def pushOf (serde : Serde) (clock : Nat → Option Nat) (trial : Nat) (queues : List String)
    (index : Nat) : Cmd Entry :=
  .rpush ("queue:" ++ queueFor queues index) (jobEntry serde clock trial index)

theorem pushJob_eq (serde : Serde) (clock : Nat → Option Nat) (trial : Nat)
    {queues : List String} (hq : queues ≠ []) (index : Nat) :
    pushJob serde clock trial queues index = some (pushOf serde clock trial queues index) := by
  have hl : index % queues.length < queues.length :=
    Nat.mod_lt _ (List.length_pos_iff.mpr hq)
  simp [pushJob, pushOf, queueFor, List.getElem?_eq_getElem hl]

theorem mapM_some_eq {α β : Type*} {f : α → Option β} {g : α → β} {l : List α}
    (h : ∀ x ∈ l, f x = some (g x)) : l.mapM f = some (l.map g) := by
  induction l with
  | nil => rfl
  | cons x l ih =>
    simp [List.mapM_cons, h x List.mem_cons_self, ih (fun y hy => h y (List.mem_cons_of_mem _ hy))]

/-- The batches are the plain sequence of pushes, cut into pieces of at most
`batchSize`. -/
theorem enqueueBatches_spec (serde : Serde) (clock : Nat → Option Nat) (trial : Nat)
    {queues : List String} (hq : queues ≠ []) (idx remaining : Nat) :
    ∃ batches, enqueueBatches serde clock trial queues idx remaining = some batches ∧
      batches.flatten =
        (List.range remaining).map (fun j => pushOf serde clock trial queues (idx + j)) ∧
      ∀ pipe ∈ batches, pipe.length ≤ batchSize := by
  induction remaining using Nat.strong_induction_on generalizing idx with
  | _ remaining ih =>
    rw [enqueueBatches]
    by_cases hr : 0 < remaining
    · have hb : 0 < min remaining batchSize := by simp only [batchSize]; omega
      obtain ⟨rest, hrest, hflat, hlen⟩ := ih (remaining - min remaining batchSize)
        (by omega) (idx + min remaining batchSize)
      have hpipe := mapM_some_eq (l := List.range (min remaining batchSize))
        (fun j _ => pushJob_eq serde clock trial hq (idx + j))
      have hsum : remaining =
          min remaining batchSize + (remaining - min remaining batchSize) := by omega
      refine ⟨(List.range (min remaining batchSize)).map
        (fun j => pushOf serde clock trial queues (idx + j)) :: rest, ?_, ?_, ?_⟩
      · simp only [hr, if_true, hpipe, hrest]
      · rw [List.flatten_cons, hflat]
        conv_rhs => rw [hsum, List.range_add, List.map_append]
        simp [List.map_map, Function.comp_def, Nat.add_assoc]
      · intro pipe hp
        rcases List.mem_cons.mp hp with rfl | hp
        · simp
        · exact hlen pipe hp
    · have h0 : remaining = 0 := by omega
      subst h0
      exact ⟨[], by simp, by simp, by simp⟩

theorem bulkEnqueue_spec (serde : Serde) (clock : Nat → Option Nat) (trial : Nat)
    {queues : List String} (hq : queues ≠ []) (nJobs : Nat) :
    ∃ pipes, bulkEnqueue serde clock trial queues nJobs = some pipes ∧
      pipes.flatten = queues.map (fun queue => .sadd "queues" queue) ++
        (List.range nJobs).map (pushOf serde clock trial queues) := by
  obtain ⟨batches, hb, hflat, _⟩ := enqueueBatches_spec serde clock trial hq 0 nJobs
  refine ⟨queues.map (fun queue => .sadd "queues" queue) :: batches, by simp [bulkEnqueue, hb], ?_⟩
  simp [hflat]

theorem listAt_clearQueue {queues : List String} {db db' : Db Entry}
    (h : execAll db (clearQueue queues) = some db') (k : String) :
    listAt db' k = if k ∈ queues.map ("queue:" ++ ·) then [] else listAt db k := by
  induction queues generalizing db with
  | nil => simp only [clearQueue, List.flatMap_nil, execAll, Option.some.injEq] at h; simp [h]
  | cons q queues ih =>
    simp only [clearQueue, List.flatMap_cons, List.cons_append, List.nil_append] at h
    have h1 := execAll_cons h
    have h2 := execAll_cons h1.2
    rw [ih h2.2, listAt_exec_srem, listAt_exec_del]
    by_cases hk : k = "queue:" ++ q <;> simp [hk]

theorem listAt_preTrialClear {queues : List String} {allowFlushdb : Bool} {db db' : Db Entry}
    (h : execAll db (preTrialClear queues allowFlushdb) = some db') {q : String} (hq : q ∈ queues) :
    listAt db' ("queue:" ++ q) = [] := by
  cases allowFlushdb with
  | false =>
    rw [listAt_clearQueue (by simpa [preTrialClear] using h)]
    simp [hq]
  | true =>
    simp only [preTrialClear, flushdb, if_true, execAll, exec, Reply.isError, Bool.false_eq_true,
      if_false, Option.some.injEq] at h
    simp [← h]

theorem listAt_sadds {queues : List String} {db db' : Db Entry}
    (h : execAll db (queues.map (fun queue => .sadd "queues" queue)) = some db') (k : String) :
    listAt db' k = listAt db k := by
  induction queues generalizing db with
  | nil => simp only [List.map_nil, execAll, Option.some.injEq] at h; simp [h]
  | cons q queues ih =>
    have h1 := execAll_cons h
    rw [ih h1.2, listAt_exec_sadd]

theorem listAt_pushes {serde : Serde} {clock : Nat → Option Nat} {trial : Nat}
    {queues : List String} {indices : List Nat} {db db' : Db Entry}
    (h : execAll db (indices.map (pushOf serde clock trial queues)) = some db') (k : String) :
    listAt db' k = listAt db k ++ (indices.filter (fun i => "queue:" ++ queueFor queues i == k)).map
      (jobEntry serde clock trial) := by
  induction indices generalizing db with
  | nil => simp only [List.map_nil, execAll, Option.some.injEq] at h; simp [h]
  | cons i indices ih =>
    have h1 := execAll_cons h
    rw [ih h1.2, pushOf, listAt_exec_rpush _ _ _ _ h1.1]
    by_cases hk : "queue:" ++ queueFor queues i = k
    · simp [hk]
    · simp [hk, Ne.symm hk]

/-- The queue keys, as `main` and every worker build them. -/
def queueKeys (queues : List String) : List String := queues.map ("queue:" ++ ·)

theorem queueKeys_nodup {queues : List String} (h : queues.Nodup) : (queueKeys queues).Nodup :=
  h.map (fun _ _ he => (String.append_right_inj _).mp he)

/-- A clear and a `bulk_enqueue` that nobody else's commands interrupt. -/
def clearAndFill (serde : Serde) (clock : Nat → Option Nat) (trial : Nat) (queues : List String)
    (nJobs : Nat) (allowFlushdb : Bool) (db : Db Entry) : Option (Db Entry) :=
  (bulkEnqueue serde clock trial queues nJobs).bind
    (fun pipes => execAll db (preTrialClear queues allowFlushdb ++ pipes.flatten))

def Filled (serde : Serde) (clock : Nat → Option Nat) (trial : Nat) (queues : List String)
    (nJobs : Nat) (db : Db Entry) : Prop :=
  ∃ allowFlushdb db₀, clearAndFill serde clock trial queues nJobs allowFlushdb db₀ = some db

theorem sumLens_totalQueueLen {queues : List String} {db : Db Entry}
    (h : ∀ q ∈ queues, HoldsList db ("queue:" ++ q)) :
    sumLens db (totalQueueLen queues) =
      some ((queues.map (fun q => (listAt db ("queue:" ++ q)).length)).sum) := by
  induction queues with
  | nil => rfl
  | cons q queues ih =>
    have hq := (h q List.mem_cons_self).exec_llen
    have hrest := ih (fun q' hq' => h q' (List.mem_cons_of_mem _ hq'))
    simp only [totalQueueLen, List.map_cons, sumLens, hq, exec_llen_fst] at hrest ⊢
    rw [hrest]
    simp

theorem queueKey_ne_queues (q : String) : "queue:" ++ q ≠ "queues" := by
  intro h
  have hh := congrArg String.toList h
  simp at hh

/-- An empty server filled with two jobs on one queue, stamped at 1000 ns. -/
def twoJobs : Db Entry :=
  (clearAndFill (.envelopes [(0, 1000), (1, 1000)]) (fun _ => some 1000) 0 ["default"] 2 false
    (fun _ => none)).get (by decide +kernel)

theorem twoJobs_filled :
    Filled (.envelopes [(0, 1000), (1, 1000)]) (fun _ => some 1000) 0 ["default"] 2 twoJobs :=
  ⟨false, fun _ => none, (Option.some_get _).symm⟩

theorem queueFor_eq_iff {queues : List String} (hnd : queues.Nodup) {line : Nat}
    (hl : line < queues.length) (index : Nat) :
    queueFor queues index = queues[line] ↔ index % queues.length = line := by
  have hm : index % queues.length < queues.length := Nat.mod_lt _ (by omega)
  simp only [queueFor, List.getD_eq_getElem?_getD, List.getElem?_eq_getElem hm, Option.getD_some]
  exact hnd.getElem_inj_iff

/-- The jobs one `bulk_enqueue` call pushes, in the order it pushes them. -/
def pushedJobs (serde : Serde) (clock : Nat → Option Nat) (trial nJobs : Nat) : List Entry :=
  (List.range nJobs).map (jobEntry serde clock trial)

@[simp] theorem length_pushedJobs (serde : Serde) (clock : Nat → Option Nat) (trial nJobs : Nat) :
    (pushedJobs serde clock trial nJobs).length = nJobs := by simp [pushedJobs]

theorem mem_pushedJobs {serde : Serde} {clock : Nat → Option Nat} {trial nJobs : Nat} {e : Entry} :
    e ∈ pushedJobs serde clock trial nJobs ↔
      ∃ index < nJobs, jobEntry serde clock trial index = e := by
  simp [pushedJobs]

theorem pushedJobs_nodup (serde : Serde) (clock : Nat → Option Nat) (trial nJobs : Nat) :
    (pushedJobs serde clock trial nJobs).Nodup :=
  List.nodup_range.map (fun _ _ h => congrArg Entry.index h)

/-- Each queue gets its residue class of indices, in ascending order, after what it
held before. -/
theorem listAt_bulkEnqueue {serde : Serde} {clock : Nat → Option Nat} {trial : Nat}
    {queues : List String} {nJobs : Nat} {pipes : List (List (Cmd Entry))} {db db' : Db Entry}
    (hp : bulkEnqueue serde clock trial queues nJobs = some pipes)
    (he : execAll db pipes.flatten = some db') (hnd : queues.Nodup) {line : Nat}
    (hl : line < queues.length) :
    listAt db' ("queue:" ++ queues[line]) = listAt db ("queue:" ++ queues[line]) ++
      (RoundRobin.dealt queues.length nJobs line).map (jobEntry serde clock trial) := by
  have hne : queues ≠ [] := by rintro rfl; simp at hl
  obtain ⟨pipes', hp', hflat⟩ := bulkEnqueue_spec serde clock trial hne nJobs
  have heq : pipes = pipes' := Option.some.inj (hp.symm.trans hp')
  subst heq
  rw [hflat, execAll_append] at he
  obtain ⟨db₁, hs, he⟩ := Option.bind_eq_some_iff.mp he
  rw [listAt_pushes he, listAt_sadds hs, RoundRobin.dealt]
  congr 2
  apply List.filter_congr
  intro i _
  rw [Bool.eq_iff_iff]
  simp [queueFor_eq_iff hnd hl]

theorem Filled.listAt_queue {serde : Serde} {clock : Nat → Option Nat} {trial : Nat}
    {queues : List String} {nJobs : Nat} {db : Db Entry}
    (h : Filled serde clock trial queues nJobs db) (hnd : queues.Nodup) {line : Nat}
    (hl : line < queues.length) :
    listAt db ("queue:" ++ queues[line]) =
      (RoundRobin.dealt queues.length nJobs line).map (jobEntry serde clock trial) := by
  obtain ⟨allowFlushdb, db₀, hfill⟩ := h
  obtain ⟨pipes, hp, he⟩ := Option.bind_eq_some_iff.mp hfill
  rw [execAll_append] at he
  obtain ⟨db₁, hc, he⟩ := Option.bind_eq_some_iff.mp he
  rw [listAt_bulkEnqueue hp he hnd hl, listAt_preTrialClear hc (List.getElem_mem hl),
    List.nil_append]

theorem dealt_map_jobEntry (serde : Serde) (clock : Nat → Option Nat)
    (trial lines nJobs line : Nat) :
    (RoundRobin.dealt lines nJobs line).map (jobEntry serde clock trial) =
      (pushedJobs serde clock trial nJobs).filter (fun e => e.index % lines == line) := by
  rw [pushedJobs, List.filter_map]
  rfl

theorem clearQueue_ne_sadd {queues : List String} {c : Cmd Entry} (h : c ∈ clearQueue queues)
    (k m : String) : c ≠ .sadd k m := by
  simp only [clearQueue, List.mem_flatMap, List.mem_cons, List.not_mem_nil, or_false] at h
  rcases h with ⟨q, _, rfl | rfl⟩ <;> simp

theorem holdsList_clearQueue {queues : List String} {db db' : Db Entry}
    (h : Redis.execAll db (clearQueue queues) = some db') {q : String} (hq : q ∈ queues) :
    HoldsList db' ("queue:" ++ q) := by
  induction queues generalizing db with
  | nil => simp at hq
  | cons q' queues ih =>
    simp only [clearQueue, List.flatMap_cons, List.cons_append, List.nil_append] at h
    have h1 := execAll_cons h
    have h2 := execAll_cons h1.2
    rcases List.mem_cons.mp hq with rfl | hq
    · have hdel : HoldsList (exec db (.del ("queue:" ++ q))).1 ("queue:" ++ q) := by
        intro v hv
        simp [exec] at hv
      have hsrem := hdel.exec (c := .srem "queues" q) (fun m => by simp)
      exact hsrem.execAll (fun c hc m => clearQueue_ne_sadd hc _ m) h2.2
    · exact ih h2.2 hq

theorem holdsList_preTrialClear {queues : List String} {allowFlushdb : Bool} {db db' : Db Entry}
    (h : Redis.execAll db (preTrialClear queues allowFlushdb) = some db') {q : String}
    (hq : q ∈ queues) : HoldsList db' ("queue:" ++ q) := by
  cases allowFlushdb with
  | false => exact holdsList_clearQueue (by simpa [preTrialClear] using h) hq
  | true =>
    simp only [preTrialClear, flushdb, if_true, Redis.execAll, exec, Reply.isError,
      Bool.false_eq_true, if_false, Option.some.injEq] at h
    intro v hv
    simp [← h] at hv

/-- A filled queue is a list, or empty, so no worker's `LPOP` errs on it. -/
theorem Filled.holdsList {serde : Serde} {clock : Nat → Option Nat} {trial : Nat}
    {queues : List String} {nJobs : Nat} {db : Db Entry}
    (h : Filled serde clock trial queues nJobs db) {q : String} (hq : q ∈ queues) :
    HoldsList db ("queue:" ++ q) := by
  obtain ⟨allowFlushdb, db₀, hfill⟩ := h
  obtain ⟨pipes, hp, he⟩ := Option.bind_eq_some_iff.mp hfill
  obtain ⟨pipes', hp', hflat⟩ := bulkEnqueue_spec serde clock trial
    (List.ne_nil_of_mem hq) nJobs
  have heq : pipes = pipes' := Option.some.inj (hp.symm.trans hp')
  subst heq
  rw [execAll_append] at he
  obtain ⟨db₁, hc, he⟩ := Option.bind_eq_some_iff.mp he
  refine (holdsList_preTrialClear hc hq).execAll (fun c hm m => ?_) he
  rw [hflat, List.mem_append, List.mem_map, List.mem_map] at hm
  rcases hm with ⟨q', _, rfl⟩ | ⟨i, _, rfl⟩
  · intro hs
    simp only [Cmd.sadd.injEq] at hs
    exact queueKey_ne_queues q hs.1.symm
  · simp [pushOf]

end ResqueBench
