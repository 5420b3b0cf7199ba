import ResqueBench.Redis

/-! What commands leave alone. A client that stays within some list keys, and within
some members of one registry set, changes nothing else of a database. -/

namespace Redis

/-- The keys whose value a command may change. -/
def Cmd.writes {ε : Type*} : Cmd ε → String → Prop
  | .del k, k' | .srem k _, k' | .sadd k _, k' | .rpush k _, k' | .lpop k, k' => k' = k
  | .llen _, _ | .info _, _ => False
  | .flushdb, _ => True

theorem exec_frame {ε : Type*} (db : Db ε) {c : Cmd ε} {k : String} (h : ¬ c.writes k) :
    (exec db c).1 k = db k := by
  have hupdate : ∀ k' v, ¬ k = k' → Function.update db k' v k = db k := fun k' v hk =>
    Function.update_of_ne hk v db
  cases c with
  | del k' => exact hupdate k' none h
  | srem k' m | sadd k' m | rpush k' x | lpop k' =>
    simp only [exec]
    split <;> first | rfl | exact hupdate k' _ h
  | llen k' => rw [exec_llen_fst]
  | info _ => rfl
  | flushdb => exact absurd trivial h

/-- The members of the set under a key; a missing key has none. -/
def setAt {ε : Type*} (db : Db ε) (k : String) : Finset String :=
  match db k with
  | some (.set ms) => ms
  | _ => ∅

def HoldsSet {ε : Type*} (db : Db ε) (k : String) : Prop :=
  ∀ v, db k = some v → ∃ ms, v = .set ms

theorem setAt_ofSet {ε : Type*} (db : Db ε) (k : String) (ms : Finset String) :
    setAt (Function.update db k (ofSet ms)) k = ms := by
  by_cases h : ms = ∅ <;> simp [setAt, ofSet, h]

theorem HoldsSet.update_ofSet {ε : Type*} (db : Db ε) (k : String) (ms : Finset String) :
    HoldsSet (Function.update db k (ofSet ms)) k := by
  intro v hv
  rw [Function.update_self] at hv
  unfold ofSet at hv
  split at hv
  · cases hv
  · exact ⟨ms, (Option.some.inj hv).symm⟩

theorem mem_setAt_sadd {ε : Type*} {db : Db ε} {k m : String}
    (hok : (exec db (.sadd k m)).2.isError = false) {x : String} :
    x ∈ setAt (exec db (.sadd k m)).1 k ↔ x = m ∨ x ∈ setAt db k := by
  simp only [exec] at hok ⊢
  split
  · rename_i hk
    simp [setAt, hk]
  · rename_i ms hk
    simp [setAt, hk]
  · rename_i v hs hn hk
    simp [hk, Reply.isError] at hok

/-- `db'` keeps every key of `db` but some list keys and the registry, and of the
registry's members all but some names. A registry that is no set is kept too. -/
structure Confined {ε : Type*} (keys : List String) (registry : String) (names : List String)
    (db db' : Db ε) : Prop where
  others : ∀ k, k ∉ keys → k ≠ registry → db' k = db k
  kept : ¬ HoldsSet db registry → db' registry = db registry
  isSet : HoldsSet db registry → HoldsSet db' registry
  members : ∀ m, m ∉ names → (m ∈ setAt db' registry ↔ m ∈ setAt db registry)

/-- Commands on the list keys, on the membership of the names, and reads. -/
def Cmd.confined {ε : Type*} (keys : List String) (registry : String) (names : List String) :
    Cmd ε → Prop
  | .del k | .rpush k _ | .lpop k => k ∈ keys
  | .srem k m | .sadd k m => k = registry ∧ m ∈ names
  | .llen _ | .info _ => True
  | .flushdb => False

section Confined

variable {ε : Type*} {keys : List String} {registry : String} {names : List String}
  {db db' db'' : Db ε}

theorem Confined.of_registry (hothers : ∀ k, k ∉ keys → k ≠ registry → db' k = db k)
    (h : db' registry = db registry) : Confined keys registry names db db' where
  others := hothers
  kept _ := h
  isSet hs := by rwa [HoldsSet, h]
  members m _ := by rw [setAt, setAt, h]

theorem Confined.refl (db : Db ε) : Confined keys registry names db db :=
  .of_registry (fun _ _ _ => rfl) rfl

theorem Confined.trans (h : Confined keys registry names db db')
    (h' : Confined keys registry names db' db'') : Confined keys registry names db db'' where
  others k hk hr := (h'.others k hk hr).trans (h.others k hk hr)
  kept hs := by
    have hr := h.kept hs
    have hs' : ¬ HoldsSet db' registry := by rwa [HoldsSet, hr]
    rw [h'.kept hs', hr]
  isSet hs := h'.isSet (h.isSet hs)
  members m hm := (h'.members m hm).trans (h.members m hm)

theorem Confined.replaceSet (h : HoldsSet db registry) {ms : Finset String}
    (hm : ∀ m, m ∉ names → (m ∈ ms ↔ m ∈ setAt db registry)) :
    Confined keys registry names db (Function.update db registry (ofSet ms)) where
  others k _ hr := Function.update_of_ne hr _ db
  kept hs := absurd h hs
  isSet _ := .update_ofSet db registry ms
  members m hn := by rw [setAt_ofSet, hm m hn]

theorem Confined.exec (hr : registry ∉ keys) {c : Cmd ε}
    (hc : c.confined keys registry names) : Confined keys registry names db (exec db c).1 := by
  have hkey : ∀ {k}, k ∈ keys → (∀ k', c.writes k' → k' = k) →
      Confined keys registry names db (Redis.exec db c).1 := by
    intro k hk hw
    refine .of_registry (fun k' hk' _ => exec_frame db (fun he => ?_))
      (exec_frame db (fun he => ?_))
    · exact hk' (hw k' he ▸ hk)
    · exact hr (hw registry he ▸ hk)
  cases c with
  | del k | rpush k x | lpop k => exact hkey hc (fun _ he => he)
  | llen k => rw [exec_llen_fst]; exact .refl db
  | info _ => exact .refl db
  | flushdb => exact absurd hc id
  | srem k m =>
    obtain ⟨rfl, hm⟩ := hc
    simp only [Redis.exec]
    split
    · exact .refl db
    · rename_i ms hk
      refine .replaceSet (fun v hv => ⟨ms, by simpa [hk] using hv.symm⟩) (fun x hx => ?_)
      have hne : x ≠ m := fun he => hx (he ▸ hm)
      simp [setAt, hk, hne]
    · exact .refl db
  | sadd k m =>
    obtain ⟨rfl, hm⟩ := hc
    have hne : ∀ x, x ∉ names → x ≠ m := fun x hx he => hx (he ▸ hm)
    simp only [Redis.exec]
    split
    · rename_i hk
      have hset : HoldsSet db k := fun v hv => by simp [hk] at hv
      have hc : Confined keys k names db (Function.update db k (ofSet {m})) :=
        .replaceSet hset (fun x hx => by simp [setAt, hk, hne x hx])
      simpa [ofSet] using hc
    · rename_i ms hk
      have hset : HoldsSet db k := fun v hv => ⟨ms, by simpa [hk] using hv.symm⟩
      have hc : Confined keys k names db (Function.update db k (ofSet (insert m ms))) :=
        .replaceSet hset (fun x hx => by simp [setAt, hk, hne x hx])
      simpa [ofSet] using hc
    · exact .refl db

/-- The database after the server has executed some commands, whatever it replied. -/
def serve (db : Db ε) (cs : List (Cmd ε)) : Db ε := cs.foldl (fun db c => (Redis.exec db c).1) db

theorem Confined.serve (hr : registry ∉ keys) {cs : List (Cmd ε)}
    (hc : ∀ c ∈ cs, c.confined keys registry names) :
    Confined keys registry names db (serve db cs) := by
  induction cs generalizing db with
  | nil => exact .refl db
  | cons c cs ih =>
    have hfirst : Confined keys registry names db (Redis.exec db c).1 :=
      .exec hr (hc c List.mem_cons_self)
    exact hfirst.trans (ih (fun c' hc' => hc c' (List.mem_cons_of_mem _ hc')))

end Confined

end Redis
