import ResqueBench.TrialRuns

/-! What the server holds for a phase. Only the head of a queue ever leaves while
the phase runs, so each queue stays a suffix of what it was. -/

namespace ResqueBench

open Redis Threads

def queued (keys : List String) (db : Db Entry) : Multiset Entry :=
  total (fun key => (listAt db key : Multiset Entry)) keys

theorem queued_congr {keys : List String} {db db' : Db Entry}
    (h : ∀ key ∈ keys, listAt db' key = listAt db key) : queued keys db' = queued keys db := by
  simp only [queued, total]
  exact congrArg List.sum (List.map_congr_left (fun key hk => by rw [h key hk]))

theorem queued_update {keys : List String} (hnd : keys.Nodup) {db db' : Db Entry} {key : String}
    {xs : List Entry} (hk : key ∈ keys)
    (hdb : ∀ key', listAt db' key' = if key' = key then xs else listAt db key') :
    queued keys db' + (listAt db key : Multiset Entry) = queued keys db + xs := by
  induction keys with
  | nil => simp at hk
  | cons k keys ih =>
    obtain ⟨hnk, hnd⟩ := List.nodup_cons.mp hnd
    have hcons : ∀ db, queued (k :: keys) db = (listAt db k : Multiset Entry) + queued keys db :=
      fun db => total_cons _ k keys
    rcases List.mem_cons.mp hk with rfl | hk
    · have hrest : queued keys db' = queued keys db := by
        apply queued_congr
        intro key' hk'
        rw [hdb, if_neg (by rintro rfl; exact hnk hk')]
      rw [hcons, hcons, hrest, hdb, if_pos rfl]
      ac_rfl
    · have hne : k ≠ key := by rintro rfl; exact hnk hk
      rw [hcons, hcons, hdb, if_neg hne, add_assoc, ih hnd hk, add_assoc]

theorem queued_pop {keys : List String} (hnd : keys.Nodup) {db db' : Db Entry} {key : String}
    {e : Entry} {rest : List Entry} (hk : key ∈ keys) (hl : listAt db key = e :: rest)
    (hdb : ∀ key', listAt db' key' = if key' = key then rest else listAt db key') :
    queued keys db = e ::ₘ queued keys db' := by
  have hu := queued_update hnd hk hdb
  rw [hl, ← Multiset.cons_coe, Multiset.add_cons, ← Multiset.cons_add] at hu
  exact (add_right_cancel hu).symm

theorem queued_push {keys : List String} (hnd : keys.Nodup) {db : Db Entry} {key : String}
    (hk : key ∈ keys) {e : Entry} (hok : (exec db (.rpush key e)).2.isError = false) :
    queued keys (exec db (.rpush key e)).1 = queued keys db + {e} := by
  have hdb := fun key' => listAt_exec_rpush db key e key' hok
  have hu := queued_update hnd hk hdb
  rw [← Multiset.coe_add, Multiset.coe_singleton, add_left_comm, add_comm] at hu
  exact add_left_cancel hu

theorem queued_mono {keys : List String} {db db' : Db Entry}
    (h : ∀ key ∈ keys, (listAt db' key : Multiset Entry) ≤ listAt db key) :
    queued keys db' ≤ queued keys db :=
  List.sum_le_sum h

theorem mem_queued {keys : List String} {db : Db Entry} {key : String} {e : Entry}
    (hk : key ∈ keys) (he : e ∈ listAt db key) : e ∈ queued keys db := by
  induction keys with
  | nil => simp at hk
  | cons k keys ih =>
    have hcons : queued (k :: keys) db = (listAt db k : Multiset Entry) + queued keys db :=
      total_cons _ k keys
    rw [hcons, Multiset.mem_add]
    rcases List.mem_cons.mp hk with rfl | hk
    · exact .inl he
    · exact .inr (ih hk)

theorem card_queued (keys : List String) (db : Db Entry) :
    Multiset.card (queued keys db) = (keys.map (fun key => (listAt db key).length)).sum := by
  induction keys with
  | nil => simp [queued]
  | cons k keys ih =>
    have hc : queued (k :: keys) db = (listAt db k : Multiset Entry) + queued keys db :=
      total_cons _ k keys
    simp [hc, ih]

theorem queued_eq_zero_iff {keys : List String} {db : Db Entry} :
    queued keys db = 0 ↔ ∀ key ∈ keys, listAt db key = [] := by
  have hh := total_eq_zero_iff (fun key => (listAt db key).length) keys
  rw [← Multiset.card_eq_zero, card_queued]
  simpa [total] using hh

theorem Filled.queued {serde : Serde} {clock : Nat → Option Nat} {trial : Nat}
    {queues : List String} {nJobs : Nat} {db : Db Entry}
    (h : Filled serde clock trial queues nJobs db) (hnd : queues.Nodup) (hne : queues ≠ []) :
    queued (queueKeys queues) db = pushedJobs serde clock trial nJobs := by
  have hl : 0 < queues.length := List.length_pos_iff.mpr hne
  have hlines : (queueKeys queues).map (fun key => (listAt db key : Multiset Entry)) =
      (List.range queues.length).map (fun line =>
        ((pushedJobs serde clock trial nJobs).filter (fun e => e.index % queues.length == line) :
          Multiset Entry)) := by
    apply List.ext_getElem (by simp [queueKeys])
    intro line h₁ h₂
    have hline : line < queues.length := by simpa [queueKeys] using h₁
    simp [queueKeys, h.listAt_queue hnd hline, dealt_map_jobEntry]
  rw [ResqueBench.queued, total, hlines]
  exact RoundRobin.sum_filter_eq _ _ (fun e _ => Nat.mod_lt _ hl)

/-- A fleet step leaves the server as it is, or pops the head of one queue. -/
theorem FleetMove.server {serde : Serde} {pw : PollWorker} {f f' : Fleet} {a : FleetAct}
    (h : FleetMove serde pw f a f') :
    (f'.shared.db = f.shared.db ∧ f'.shared.hub.ledger.removed = f.shared.hub.ledger.removed) ∨
    ∃ (k : Nat) (key : String) (e : Entry) (rest : List Entry),
      pw.queueKeys[k]? = some key ∧ listAt f.shared.db key = e :: rest ∧
      f'.shared.db = (exec f.shared.db (.lpop key)).1 ∧
      f'.shared.hub.ledger.removed = f.shared.hub.ledger.removed ++ [e] ∧
      ∀ key', listAt f'.shared.db key' = if key' = key then rest else listAt f.shared.db key' := by
  cases h with
  | worker i a w w' s' hw hm =>
    cases hm with
    | pop k key e rest hpc hk hl hdb => exact .inr ⟨k, key, e, rest, hk, hl, rfl, rfl, hdb⟩
    | _ => exact .inl ⟨rfl, rfl⟩
  | latePop j k key e rest hj hk hl hdb => exact .inr ⟨k, key, e, rest, hk, hl, rfl, rfl, hdb⟩
  | lateEmpty j k key hj hk hl => exact .inl ⟨rfl, rfl⟩
  | shutdown => exact .inl ⟨rfl, rfl⟩
  | recv sample rest hl => exact .inl ⟨rfl, rfl⟩

/-- The server against what it held when the phase began. -/
structure Drained (keys : List String) (db₀ : Db Entry) (f : Fleet) : Prop where
  stock : queued keys f.shared.db + (f.shared.hub.ledger.removed : Multiset Entry) =
    queued keys db₀
  suffix : ∀ key, listAt f.shared.db key <:+ listAt db₀ key
  holds : ∀ key, HoldsList db₀ key → HoldsList f.shared.db key

theorem Drained.new (keys : List String) (db₀ : Db Entry) (nWorkers : Nat) :
    Drained keys db₀ (.new db₀ nWorkers) where
  stock := by simp [Fleet.new, Hub.new]
  suffix key := List.suffix_rfl
  holds key h := h

theorem Drained.step {serde : Serde} {pw : PollWorker} {db₀ : Db Entry} {f f' : Fleet}
    {a : FleetAct} (hnd : pw.queueKeys.Nodup) (hf : Drained pw.queueKeys db₀ f)
    (h : FleetMove serde pw f a f') : Drained pw.queueKeys db₀ f' := by
  rcases h.server with ⟨hdb, hr⟩ | ⟨k, key, e, rest, hk, hl, hex, hr, hdb⟩
  · exact ⟨by rw [hdb, hr]; exact hf.stock, by rw [hdb]; exact hf.suffix,
      by rw [hdb]; exact hf.holds⟩
  · have hpop := queued_pop hnd (List.mem_of_getElem? hk) hl hdb
    refine ⟨?_, fun key' => ?_, fun key' h₀ => ?_⟩
    · rw [← hf.stock, hpop, hr, ← Multiset.coe_add, Multiset.coe_singleton,
        ← Multiset.singleton_add e]
      ac_rfl
    · rw [hdb]
      by_cases hkey : key' = key
      · subst hkey
        have hs := hf.suffix key'
        rw [hl] at hs
        rw [if_pos rfl]
        exact (List.suffix_cons e rest).trans hs
      · rw [if_neg hkey]
        exact hf.suffix key'
    · rw [hex]
      exact (hf.holds key' h₀).exec (fun m hm => by cases hm)

end ResqueBench
