import ResqueBench.Worker

/-! The fleet: all workers of one phase with the server, the late commands on the
wire, and the two things other tasks do to it (the shutdown, reading a message).
Counters and ledger balance against what the workers hold. -/

namespace ResqueBench

open Redis

structure Fleet where
  shared : Shared
  workers : List Worker

inductive FleetAct
  | worker (i : Nat) (a : WorkerAct)
  | late (j : Nat) -- the server executes an `LPOP` nobody awaits
  | shutdown
  | recv
deriving DecidableEq, Repr

def Fleet.step (serde : Serde) (pw : PollWorker) (f : Fleet) : FleetAct → Option Fleet
  | .worker i a =>
    (Threads.stepAt (pw.step serde) f.shared f.workers i a).map (fun r => ⟨r.1, r.2⟩)
  | .late j =>
    match f.shared.hub.late[j]? with
    | some k =>
      match pw.queueKeys[k]? with
      | some key =>
        let r := f.shared.lpop key
        some { f with shared := ⟨r.1.db, { r.1.hub with
          late := r.1.hub.late.eraseIdx j
          ledger := { r.1.hub.ledger with lost := r.1.hub.ledger.lost ++ r.2.jobs } }⟩ }
      | none => none
    | none => none
  | .shutdown => some { f with shared := ⟨f.shared.db,
      { f.shared.hub with shutdown := f.shared.hub.shutdown.send true }⟩ }
  | .recv =>
    match f.shared.hub.latency with
    | [] => none
    | sample :: rest => some { f with shared := ⟨f.shared.db, { f.shared.hub with
        latency := rest
        ledger := { f.shared.hub.ledger with
          received := f.shared.hub.ledger.received ++ [sample] } }⟩ }

/-- Everything one fleet step can do. -/
inductive FleetMove (serde : Serde) (pw : PollWorker) (f : Fleet) : FleetAct → Fleet → Prop
  | worker (i : Nat) (a : WorkerAct) (w w' : Worker) (s' : Shared) (hw : f.workers[i]? = some w)
      (hm : Move serde pw f.shared w a s' w') :
      FleetMove serde pw f (.worker i a) ⟨s', f.workers.set i w'⟩
  | latePop (j k : Nat) (key : String) (e : Entry) (rest : List Entry)
      (hj : f.shared.hub.late[j]? = some k) (hk : pw.queueKeys[k]? = some key)
      (hl : listAt f.shared.db key = e :: rest)
      (hdb : ∀ key', listAt (exec f.shared.db (.lpop key)).1 key' =
        if key' = key then rest else listAt f.shared.db key') :
      FleetMove serde pw f (.late j) { f with shared := ⟨(exec f.shared.db (.lpop key)).1,
        { f.shared.hub with
          late := f.shared.hub.late.eraseIdx j
          ledger := { f.shared.hub.ledger with
            removed := f.shared.hub.ledger.removed ++ [e]
            lost := f.shared.hub.ledger.lost ++ [e] } }⟩ }
  | lateEmpty (j k : Nat) (key : String) (hj : f.shared.hub.late[j]? = some k)
      (hk : pw.queueKeys[k]? = some key) (hl : listAt f.shared.db key = []) :
      FleetMove serde pw f (.late j) { f with shared := ⟨f.shared.db,
        { f.shared.hub with late := f.shared.hub.late.eraseIdx j }⟩ }
  | shutdown : FleetMove serde pw f .shutdown { f with shared := ⟨f.shared.db,
      { f.shared.hub with shutdown := f.shared.hub.shutdown.send true }⟩ }
  | recv (sample : Sample) (rest : List Sample) (hl : f.shared.hub.latency = sample :: rest) :
      FleetMove serde pw f .recv { f with shared := ⟨f.shared.db, { f.shared.hub with
        latency := rest
        ledger := { f.shared.hub.ledger with
          received := f.shared.hub.ledger.received ++ [sample] } }⟩ }

theorem Fleet.step_move {serde : Serde} {pw : PollWorker} {f f' : Fleet} {a : FleetAct}
    (h : f.step serde pw a = some f') : FleetMove serde pw f a f' := by
  cases a with
  | worker i a =>
    simp only [Fleet.step, Option.map_eq_some_iff] at h
    obtain ⟨⟨s', ws'⟩, hs, rfl⟩ := h
    obtain ⟨w, w', hw, hm, rfl⟩ := Threads.stepAt_cases hs
    exact .worker i a w w' s' hw (PollWorker.step_move hm)
  | late j =>
    simp only [Fleet.step] at h
    split at h
    · rename_i k hj
      split at h
      · rename_i key hk
        cases h
        rcases f.shared.lpop_cases key with ⟨e, rest, hl, hp, hdb⟩ | ⟨a, hl, hp, ha⟩
        · rw [hp]; exact .latePop j k key e rest hj hk hl hdb
        · rw [hp, ha]; simpa using FleetMove.lateEmpty j k key hj hk hl
      · cases h
    · cases h
  | shutdown => cases h; exact .shutdown
  | recv =>
    simp only [Fleet.step] at h
    split at h
    · cases h
    · rename_i sample rest hl
      cases h
      exact .recv sample rest hl

theorem FleetMove.length_workers {serde : Serde} {pw : PollWorker} {f f' : Fleet} {a : FleetAct}
    (h : FleetMove serde pw f a f') : f'.workers.length = f.workers.length := by
  cases h with
  | worker i a w w' s' hw hm => exact List.length_set
  | _ => rfl

theorem FleetMove.metrics_le {serde : Serde} {pw : PollWorker} {f f' : Fleet} {a : FleetAct}
    (h : FleetMove serde pw f a f') :
    Metrics.Le f.shared.hub.metrics f'.shared.hub.metrics := by
  cases h with
  | worker i a w w' s' hw hm => exact hm.metrics_le
  | _ => exact .refl _

end ResqueBench
