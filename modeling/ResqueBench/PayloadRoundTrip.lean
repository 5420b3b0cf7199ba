import ResqueBench.JsonText
import ResqueBench.Worker

/-! What `bulk_enqueue` pushes and `record_job` makes of it. The two agree on the place
of the timestamp only by position. -/

namespace ResqueBench

section Envelope

variable {idx : Nat} {clock : Option Nat}

theorem nanosU64_lt (sinceEpoch : Option Nat) : nanosU64 sinceEpoch < 2 ^ 64 :=
  Nat.mod_lt _ (by positivity)

theorem plain_keys : Plain "class" ∧ Plain "args" ∧ Plain "mike" := by
  refine ⟨?_, ?_, ?_⟩ <;> simp [Plain]

theorem plain_values : Plain "LoadWorker" ∧ Plain "string" ∧ Plain "bob" := by
  refine ⟨?_, ?_, ?_⟩ <;> simp [Plain]

theorem denotes_args (hidx : idx < 2 ^ 64) (clock : Option Nat) (d : Nat) : ∃ text,
    Denotes (d + 2) (.value (.array (ResqueJob.new idx clock).args)) text ∧
      text = "[\"string\",".toList ++ Nat.toDigits 10 idx ++ ",\x7b\"mike\":\"bob\"\x7d,".toList ++
        Nat.toDigits 10 (nanosU64 clock) ++ [']'] := by
  have hobject : Denotes (d + 1) (.value (.object [("mike", .string "bob")])) _ :=
    .object d _ _ (by simp) (.member d true "mike" _ _ _ _ plain_keys.2.2
      (.string d "bob" plain_values.2.2) (.noMembers d false))
  refine ⟨_, .array (d + 1) _ _ (.element _ true _ _ _ _ (.string _ "string" plain_values.2.1)
    (.element _ false _ _ _ _ (.numeral _ idx hidx) (.element _ false _ _ _ _ hobject
      (.element _ false _ _ _ _ (.numeral _ _ (nanosU64_lt clock)) (.noElements _ _))))), ?_⟩
  simp [separator, quoted]

theorem toList_envelope (idx enqueuedAtNs : Nat) : (envelope idx enqueuedAtNs).toList =
    '\x7b' :: "\"class\":\"LoadWorker\",\"args\":[\"string\",".toList ++ Nat.toDigits 10 idx ++
      ",\x7b\"mike\":\"bob\"\x7d,".toList ++ Nat.toDigits 10 enqueuedAtNs ++ "]\x7d".toList := by
  unfold envelope
  simp

theorem denotes_envelope (hidx : idx < 2 ^ 64) (clock : Option Nat) (d : Nat) : ∃ text,
    Denotes (d + 2) (.members true (ResqueJob.new idx clock).fields) text ∧
      String.ofList ('\x7b' :: text) = envelope idx (nanosU64 clock) := by
  obtain ⟨args, hargs, htext⟩ := denotes_args hidx clock d
  have hmembers : Denotes (d + 2)
      (.members false [("args", .array (ResqueJob.new idx clock).args)]) _ :=
    .member _ false "args" _ _ _ _ plain_keys.2.1 hargs (.noMembers _ _)
  have hfields : Denotes (d + 2) (.members true (ResqueJob.new idx clock).fields) _ :=
    .member _ true "class" _ _ _ _ plain_keys.1 (.string _ "LoadWorker" plain_values.1) hmembers
  refine ⟨_, hfields, ?_⟩
  rw [← String.toList_inj, String.toList_ofList, htext, toList_envelope]
  simp [separator, quoted]

theorem payload_eq {serde : Serde} (hs : serde.Lawful) (hidx : idx < 2 ^ 64)
    (clock : Option Nat) :
    serde.toString (ResqueJob.new idx clock) = envelope idx (nanosU64 clock) := by
  obtain ⟨text, htext, hpayload⟩ := denotes_envelope hidx clock 0
  rw [hs.prints _ _ _ htext, hpayload]

theorem fromStr_payload {serde : Serde} (hs : serde.Lawful) (hidx : idx < 2 ^ 64)
    (clock : Option Nat) :
    serde.fromStr (envelope idx (nanosU64 clock)) = some (ResqueJob.new idx clock) := by
  obtain ⟨text, htext, hpayload⟩ := denotes_envelope hidx clock 124
  rw [← hpayload, hs.reads _ _ htext (by simp [ResqueJob.fields])]
  rfl

end Envelope

/-- `a - b` on `u64`, or `none` where it underflows. -/
def checkedSub (a b : Nat) : Option Nat := if b ≤ a then some (a - b) else none

/-- What `record_job` computes, with the subtraction checked. -/
def checkedLatencyUs (nowNs enqueuedAtNs : Nat) : Option Nat :=
  (if enqueuedAtNs ≤ nowNs then (checkedSub nowNs enqueuedAtNs).map (· / 1000) else some 1).map
    (max · 1)

theorem checkedLatencyUs_eq (nowNs enqueuedAtNs : Nat) :
    checkedLatencyUs nowNs enqueuedAtNs = some (latencyUs nowNs enqueuedAtNs) := by
  unfold checkedLatencyUs latencyUs checkedSub
  by_cases hle : enqueuedAtNs ≤ nowNs
  · simp [hle]
  · simp [hle]

theorem latencyUs_eq (nowNs enqueuedAtNs : Nat) : latencyUs nowNs enqueuedAtNs =
    if enqueuedAtNs ≤ nowNs then max 1 ((nowNs - enqueuedAtNs) / 1000) else 1 := by
  unfold latencyUs
  by_cases hle : enqueuedAtNs ≤ nowNs
  · rw [if_pos hle, if_pos hle, Nat.max_comm]
  · rw [if_neg hle, if_neg hle, Nat.max_self]

structure SendsOne (s s' : Shared) (us : Nat) : Prop where
  latency : s'.hub.latency.map Sample.us = s.hub.latency.map Sample.us ++ [us]
  metrics : s'.hub.metrics = s.hub.metrics

structure AddsError (s s' : Shared) : Prop where
  latency : s'.hub.latency = s.hub.latency
  metrics : s'.hub.metrics = s.hub.metrics.incError

theorem SendsOne.not_addsError {s s' : Shared} {us : Nat} (h : SendsOne s s' us) :
    ¬ AddsError s s' := by
  intro he
  have hlatency := h.latency
  rw [he.latency] at hlatency
  simp at hlatency

section Record

variable {serde : Serde} {w : Worker} {e : Entry} {now : Option Nat}

theorem record_sends {sample : Sample} (hpc : w.pc = .hit e)
    (hr : recordJob serde now e = some sample) (pw : PollWorker) (s : Shared) :
    ∃ s' w', pw.step serde s w (.record now) = some (s', w') ∧ SendsOne s s' sample.us := by
  have hm : Move serde pw s w (.record now) _ _ := .record now e sample hpc hr
  exact ⟨_, _, hm.step (by simp), ⟨by simp, rfl⟩⟩

theorem record_rejects (hpc : w.pc = .hit e) (hr : recordJob serde now e = none)
    (pw : PollWorker) (s : Shared) :
    ∃ s' w', pw.step serde s w (.record now) = some (s', w') ∧ AddsError s s' := by
  have hm : Move serde pw s w (.record now) _ _ := .reject now e hpc hr
  exact ⟨_, _, hm.step (by simp), ⟨rfl, rfl⟩⟩

theorem record_total (hpc : w.pc = .hit e) (now : Option Nat) (pw : PollWorker) (s : Shared) :
    ∃ s' w', pw.step serde s w (.record now) = some (s', w') ∧
      Xor (∃ us, SendsOne s s' us) (AddsError s s') := by
  cases hr : recordJob serde now e with
  | some sample =>
    obtain ⟨s', w', hstep, hsends⟩ := record_sends hpc hr pw s
    exact ⟨s', w', hstep, .inl ⟨⟨_, hsends⟩, hsends.not_addsError⟩⟩
  | none =>
    obtain ⟨s', w', hstep, hrejects⟩ := record_rejects hpc hr pw s
    exact ⟨s', w', hstep, .inr ⟨hrejects, fun ⟨_, hsends⟩ => hsends.not_addsError hrejects⟩⟩

theorem recordJob_payload (hs : serde.Lawful) {idx trial : Nat} (hidx : idx < 2 ^ 64)
    (clock : Nat → Option Nat) (now : Option Nat) :
    ∃ sample, recordJob serde now (jobEntry serde clock trial idx) = some sample ∧
      sample.us = latencyUs (nanosU64 now) (nanosU64 (clock idx)) := by
  have hdecoded : serde.fromStr (jobEntry serde clock trial idx).payload =
      some (ResqueJob.new idx (clock idx)) := by
    rw [jobEntry, payload_eq hs hidx, fromStr_payload hs hidx]
  refine ⟨⟨latencyUs (nanosU64 now) (nanosU64 (clock idx)), jobEntry serde clock trial idx,
    nanosU64 now, nanosU64 (clock idx)⟩, ?_, rfl⟩
  rw [recordJob, hdecoded]
  rfl

end Record

/-- The text that is pushed for a job is read back as the same envelope, its index and
timestamp at their places, and the worker that pops it sends exactly one sample. On
every payload a worker either sends one sample or counts one error. -/
theorem payload_round_trip {serde : Serde} (hs : serde.Lawful) {clock : Nat → Option Nat}
    {idx t : Nat} (hidx : idx < 2 ^ 64) (ht : nanosU64 (clock idx) = t) (trial : Nat)
    (pw : PollWorker) (s : Shared) (w : Worker) (now : Option Nat) :
    (∃ text, Denotes 126 (.members true [("class", .string "LoadWorker"), ("args", .array
        [.string "string", .posInt idx, .object [("mike", .string "bob")], .posInt t])]) text ∧
      (jobEntry serde clock trial idx).payload = String.ofList ('\x7b' :: text)) ∧
    (∃ job, serde.fromStr (jobEntry serde clock trial idx).payload = some job ∧
      job = ResqueJob.new idx (clock idx) ∧ job.args[1]? = some (.posInt idx) ∧
      ResqueJob.enqueuedAtNs job.args = some t) ∧
    (∀ c, nanosU64 now = c →
      checkedLatencyUs c t = some (if t ≤ c then max 1 ((c - t) / 1000) else 1) ∧
      (w.pc = .hit (jobEntry serde clock trial idx) →
        ∃ s' w', pw.step serde s w (.record now) = some (s', w') ∧
          SendsOne s s' (if t ≤ c then max 1 ((c - t) / 1000) else 1))) ∧
    ∀ e, w.pc = .hit e → ∃ s' w', pw.step serde s w (.record now) = some (s', w') ∧
      Xor (∃ us, SendsOne s s' us) (AddsError s s') := by
  subst ht
  refine ⟨?_, ?_, ?_, fun e hpc => record_total hpc now pw s⟩
  · obtain ⟨text, htext, hpayload⟩ := denotes_envelope hidx (clock idx) 124
    exact ⟨text, htext, (payload_eq hs hidx (clock idx)).trans hpayload.symm⟩
  · refine ⟨ResqueJob.new idx (clock idx), ?_, rfl, rfl, rfl⟩
    rw [jobEntry, payload_eq hs hidx, fromStr_payload hs hidx]
  · rintro c rfl
    rw [checkedLatencyUs_eq, ← latencyUs_eq]
    refine ⟨rfl, fun hpc => ?_⟩
    obtain ⟨sample, hr, hus⟩ := recordJob_payload hs hidx clock now
    rw [← hus]
    exact record_sends hpc hr pw s

theorem payload_round_trip_seven : ∃ (clock : Nat → Option Nat) (s s' : Shared) (w w' : Worker),
    clock 7 = some 1000 ∧
    Serde.json.fromStr (jobEntry Serde.json clock 0 7).payload =
      some (ResqueJob.new 7 (clock 7)) ∧
    PollWorker.step Serde.json ⟨none, []⟩ s w (.record (some 8500)) = some (s', w') ∧
    SendsOne s s' 7 := by
  let clock : Nat → Option Nat := fun _ => some 1000
  let s : Shared := ⟨fun _ => none, .new⟩
  let w : Worker := { Worker.new with pc := .hit (jobEntry Serde.json clock 0 7) }
  have hidx : 7 < 2 ^ 64 := by decide
  have hclock : nanosU64 (clock 7) = 1000 := by decide
  have hnow : nanosU64 (some 8500) = 8500 := by decide
  have hus : (if 1000 ≤ 8500 then max 1 ((8500 - 1000) / 1000) else 1) = 7 := by decide
  obtain ⟨_, ⟨job, hread, rfl, _⟩, hsend, _⟩ :=
    payload_round_trip Serde.json_lawful hidx hclock 0 ⟨none, []⟩ s w (some 8500)
  obtain ⟨s', w', hstep, hsends⟩ := (hsend 8500 hnow).2 rfl
  rw [hus] at hsends
  exact ⟨clock, s, s', w, w', rfl, hread, hstep, hsends⟩

end ResqueBench
