import ResqueBench.Startup
import ResqueBench.PasswordRedaction

/-! The database that the connection selects, and the warning before main flushes it. The
warning reads the number as eight bits without a sign; the client reads 64 with one. -/

namespace ResqueBench

open Web

def i64FromStr : List Char → Option Int
  | '-' :: ds => ((digitsValue ds).filter (· ≤ 2 ^ 63)).map (fun n : Nat => -(n : Int))
  | cs => (unsignedFromStr (2 ^ 63) cs).map Int.ofNat

/-- The database that redis-rs selects over TCP. -/
def selectedDb (u : Url) : Option Int :=
  match connectionAddr u with
  | none | some .unix => none
  | some _ =>
    if u.host = none then none
    else if trimSlashes u.path.toList = [] then some 0
    else i64FromStr (trimSlashes u.path.toList)

def SelectsDb (lib : UrlLibrary) (client : String → Option Int) : Prop :=
  ∀ s n, client s = some n → ∃ u, lib.parse s = .ok u ∧ selectedDb u = some n

/-- What the URL library documents of paths. -/
structure KeepsPath (lib : UrlLibrary) : Prop where
  setPath_number : ∀ {u} (n : Nat), u.host ≠ none →
    (lib.setPath u ("/" ++ toString n)).path = "/" ++ toString n
  reparse : ∀ {u v}, lib.Made u → lib.parse (lib.serialize u) = .ok v →
    v.host = u.host ∧ (u.host ≠ none → v.path = u.path)

/-- The database that the arguments ask for, `u` being `--url`. -/
def RedisCli.asksFor (cli : RedisCli) (u : Url) : Option Int :=
  match cli.db with
  | some db => some db.toNat
  | none =>
    if u.path.toList.all (· == '/') then some 13 else i64FromStr (trimSlashes u.path.toList)

def connecting (lib : UrlLibrary) (s : String) : Option Int :=
  match lib.parse s with
  | .ok u => selectedDb u
  | .error _ => none

theorem connecting_selectsDb (lib : UrlLibrary) : SelectsDb lib (connecting lib) := by
  intro s n h
  unfold connecting at h
  split at h
  · exact ⟨_, by assumption, h⟩
  · cases h

section Numbers

variable {cs ds : List Char} {n : Int} {k bound : Nat}

theorem digitsValue_of_notDigit {c : Char} (h : c.isDigit = false) :
    digitsValue (c :: ds) = none := by
  simp [digitsValue, h]

theorem unsignedFromStr_eq_some :
    unsignedFromStr bound cs = some k ↔ unsignedValue cs = some k ∧ k < bound := by
  simp [unsignedFromStr, Option.filter_eq_some_iff]

/-- A number with a minus sign is not positive, and is none for the warning. -/
theorem i64FromStr_cases (h : i64FromStr cs = some n) :
    (unsignedValue cs = none ∧ n ≤ 0) ∨ ∃ k, unsignedValue cs = some k ∧ n = k := by
  unfold i64FromStr at h
  split at h
  · rename_i ds
    obtain ⟨k, _, rfl⟩ := Option.map_eq_some_iff.mp h
    have hnone : unsignedValue ('-' :: ds) = none := digitsValue_of_notDigit (by decide)
    exact .inl ⟨hnone, by omega⟩
  · obtain ⟨k, hk, rfl⟩ := Option.map_eq_some_iff.mp h
    exact .inr ⟨k, (unsignedFromStr_eq_some.mp hk).1, rfl⟩

theorem eightBits_eq_zero_iff (h : i64FromStr cs = some n) :
    (unsignedFromStr (2 ^ 8) cs).getD 0 = 0 ↔ ¬ (1 ≤ n ∧ n ≤ 255) := by
  rcases i64FromStr_cases h with ⟨hnone, hle⟩ | ⟨k, hk, rfl⟩
  · have hnumber : unsignedFromStr (2 ^ 8) cs = none := by rw [unsignedFromStr, hnone]; rfl
    rw [hnumber, Option.getD_none]
    omega
  · by_cases hlt : k < 2 ^ 8
    · rw [unsignedFromStr_eq_some.mpr ⟨hk, hlt⟩, Option.getD_some]
      omega
    · have hnumber : unsignedFromStr (2 ^ 8) cs = none := by
        rw [unsignedFromStr, hk, Option.filter_some, if_neg (by simpa using hlt)]
      rw [hnumber, Option.getD_none]
      omega

theorem unsignedValue_toDigits (k : Nat) : unsignedValue (Nat.toDigits 10 k) = some k := by
  have hdigits : ∀ c ∈ Nat.toDigits 10 k, c.isDigit = true := fun c hc =>
    Nat.isDigit_of_mem_toDigits (by omega) (by omega) hc
  have hvalue : digitsValue (Nat.toDigits 10 k) = some k := by
    rw [digitsValue, if_pos ⟨Nat.toDigits_ne_nil, List.all_eq_true.mpr hdigits⟩,
      Nat.ofDigitChars_ten_toDigits]
  unfold unsignedValue
  split
  · rename_i ds hds
    have hplus := hdigits '+' (by rw [hds]; exact List.mem_cons_self)
    exact absurd hplus (by decide)
  · exact hvalue

theorem i64FromStr_toDigits (hk : k < 2 ^ 63) : i64FromStr (Nat.toDigits 10 k) = some (k : Int) := by
  unfold i64FromStr
  split
  · rename_i ds hds
    have hminus := Nat.isDigit_of_mem_toDigits (n := k) (b := 10) (by omega) (by omega)
      (by rw [hds]; exact List.mem_cons_self)
    exact absurd hminus (by decide)
  · rw [unsignedFromStr_eq_some.mpr ⟨unsignedValue_toDigits k, hk⟩]
    rfl

theorem dropWhile_slash_of_notMem (h : '/' ∉ cs) : cs.dropWhile (· == '/') = cs := by
  cases cs with
  | nil => rfl
  | cons c cs => simp [Ne.symm (List.ne_of_not_mem_cons h)]

theorem trimSlashes_number (h : '/' ∉ cs) : trimSlashes ('/' :: cs) = cs := by
  have hrev : '/' ∉ cs.reverse := by rwa [List.mem_reverse]
  simp [trimSlashes, dropWhile_slash_of_notMem h, dropWhile_slash_of_notMem hrev]

theorem trimSlashes_eq_nil_iff : trimSlashes cs = [] ↔ cs.all (· == '/') = true := by
  have hidem := List.dropWhile_idempotent (p := (· == '/')) (l := cs)
  rw [trimSlashes, List.reverse_eq_nil_iff, List.dropWhile_eq_nil_iff, List.all_eq_true]
  constructor
  · intro h
    rw [← List.dropWhile_eq_nil_iff, ← hidem, List.dropWhile_eq_nil_iff]
    exact fun c hc => h c (List.mem_reverse.mpr hc)
  · intro h c hc
    rw [List.dropWhile_eq_nil_iff.mpr h, List.reverse_nil] at hc
    cases hc

end Numbers

section Path

variable {lib : UrlLibrary} {cli : RedisCli} {u v w : Url}

theorem upgradeScheme_path (hl : lib.Lawful) (h : upgradeScheme lib cli u = .ok v) :
    v.path = u.path := by
  rcases upgradeScheme_cases hl h with ⟨_, rfl⟩ | ⟨_, _, port, rfl⟩
  · rfl
  · rfl

theorem disableVerification_path (hl : lib.Lawful) (h : disableVerification lib cli u = .ok v) :
    v.path = u.path := by
  rcases disableVerification_ok h with ⟨_, rfl⟩ | ⟨_, _, rfl⟩
  · rfl
  · rw [hl.setFragment_unreserved unreserved_insecure]

theorem Chain.path {u₁ u₂ u₃ u₄ u₅ : Url} (hl : lib.Lawful)
    (h : Chain lib cli u u₁ u₂ u₃ u₄ u₅) : u₅.path = u.path := by
  obtain ⟨_, hpassword⟩ := overridePassword_only hl h.password
  have hinsecure := disableVerification_path hl h.insecure
  have htls := upgradeScheme_path hl h.tls
  obtain ⟨_, hport⟩ := overridePort_only hl h.port
  obtain ⟨_, _, hhost⟩ := overrideHost_only hl h.host
  calc
    u₅.path = u₄.path := by rw [hpassword]
    _ = u₃.path := hinsecure
    _ = u₂.path := htls
    _ = u₁.path := by rw [hport]
    _ = u.path := by rw [hhost]

theorem trimSlashes_setPath (hk : KeepsPath lib) (hu : u.host ≠ none) (k : Nat) :
    trimSlashes (lib.setPath u ("/" ++ toString k)).path.toList = Nat.toDigits 10 k := by
  have hslash : '/' ∉ Nat.toDigits 10 k := fun hc =>
    absurd (Nat.isDigit_of_mem_toDigits (by omega) (by omega) hc) (by decide)
  rw [hk.setPath_number k hu, String.toList_append, Nat.toString_eq_ofList_toDigits,
    String.toList_ofList, String.toList_ofList]
  exact trimSlashes_number hslash

/-- What redis-rs reads in the path is what the arguments ask for. -/
theorem overrideDb_asksFor (hk : KeepsPath lib) (hu : u.host ≠ none) (hp : u.path = v.path)
    {n : Int} (hn : (if trimSlashes (overrideDb lib cli u).path.toList = [] then some 0
      else i64FromStr (trimSlashes (overrideDb lib cli u).path.toList)) = some n) :
    cli.asksFor v = some n ∧
      i64FromStr (trimSlashes (overrideDb lib cli u).path.toList) = some n := by
  have hnumber : ∀ k : Nat, k < 2 ^ 63 →
      overrideDb lib cli u = lib.setPath u ("/" ++ toString k) → n = k ∧
        i64FromStr (trimSlashes (overrideDb lib cli u).path.toList) = some (k : Int) := by
    intro k hk63 he
    have htrim := trimSlashes_setPath hk hu k
    rw [← he] at htrim
    rw [htrim, if_neg Nat.toDigits_ne_nil, i64FromStr_toDigits hk63] at hn
    exact ⟨(Option.some.inj hn).symm, by rw [htrim, i64FromStr_toDigits hk63]⟩
  unfold RedisCli.asksFor
  cases hdb : cli.db with
  | some db =>
    obtain ⟨rfl, hread⟩ := hnumber db.toNat (by have := db.toNat_lt; omega)
      (by simp only [overrideDb, hdb])
    exact ⟨rfl, hread⟩
  | none =>
    by_cases hall : u.path.toList.all (· == '/') = true
    · obtain ⟨rfl, hread⟩ := hnumber 13 (by omega) (by simp only [overrideDb, hdb, hall, if_true]; rfl)
      simp only [← hp, hall, if_true]
      exact ⟨rfl, hread⟩
    · have hsame : overrideDb lib cli u = u := by simp only [overrideDb, hdb, hall]; rfl
      have htrim : trimSlashes u.path.toList ≠ [] := fun he =>
        hall (trimSlashes_eq_nil_iff.mp he)
      rw [hsame, if_neg htrim] at hn
      simp only [← hp, hall]
      rw [hsame]
      exact ⟨hn, hn⟩

theorem selectedDb_ok {n : Int} (h : selectedDb u = some n) : u.host ≠ none ∧
    (if trimSlashes u.path.toList = [] then some 0
      else i64FromStr (trimSlashes u.path.toList)) = some n := by
  unfold selectedDb at h
  split at h
  · cases h
  · cases h
  · by_cases hhost : u.host = none
    · rw [if_pos hhost] at h
      cases h
    · rw [if_neg hhost] at h
      exact ⟨hhost, h⟩

theorem buildRedisUrl_asksFor (hl : lib.Lawful) (hk : KeepsPath lib) {s : String} {n : Int}
    (h : buildRedisUrl lib cli = .ok s) (hv : lib.parse s = .ok v) (hn : selectedDb v = some n) :
    (∃ u, lib.parse cli.url = .ok u ∧ cli.asksFor u = some n) ∧
      i64FromStr (trimSlashes v.path.toList) = some n := by
  unfold buildRedisUrl at h
  split at h
  · rename_i u hu
    cases hw : applyArgs lib cli u with
    | error texts =>
      rw [hw] at h
      cases h
    | ok w =>
      rw [hw] at h
      cases h
      have hmade := (applyArgs_upgraded hl (.parse hu) hw).made
      obtain ⟨hhost, hpath⟩ := hk.reparse hmade hv
      obtain ⟨hvhost, hn⟩ := selectedDb_ok hn
      rw [hhost] at hvhost
      rw [hpath hvhost] at hn ⊢
      obtain ⟨u₁, u₂, u₃, u₄, u₅, hc, rfl⟩ := applyArgs_ok hw
      rw [(overrideDb_login hl cli u₅).host] at hvhost
      obtain ⟨hasks, hread⟩ := overrideDb_asksFor hk hvhost (hc.path hl) hn
      exact ⟨⟨u, hu, hasks⟩, hread⟩
  · cases h

end Path

theorem encodePath_number (n : Nat) :
    Plain.encodePath ("/" ++ toString n) = "/" ++ toString n := by
  have hplain : ∀ c ∈ (toString n).toList,
      (if Plain.isPlain c || c == '/' then c else '~') = c := by
    intro c hc
    rw [Nat.toString_eq_ofList_toDigits, String.toList_ofList] at hc
    have hdigit := Nat.isDigit_of_mem_toDigits (by omega) (by omega) hc
    rw [Plain.isPlain_of_isDigit hdigit, Bool.true_or, if_pos rfl]
  rw [← String.toList_inj, Plain.encodePath, String.toList_ofList, String.toList_append]
  show '/' :: List.map _ (toString n).toList = '/' :: (toString n).toList
  rw [List.map_congr_left hplain, List.map_id']

theorem plain_keepsPath : KeepsPath Plain.library where
  setPath_number n _ := encodePath_number n
  reparse := by
    intro u v hu hv
    obtain rfl := Plain.reparse_eq hu hv
    exact ⟨rfl, fun _ => rfl⟩

section Warning

variable {lib : UrlLibrary} {lookup : String → TagLookup}
  {connect : String → Except (List String) Unit} {args : Arguments} {r : Ready}
  {log : List Event}

theorem take_flushesDb0 : flushesDb0.toList.take 12 = "warning: --a".toList := by decide +kernel

/-- The first twelve characters tell the warnings apart. -/
theorem ne_flushesDb0 {start : String} (hlen : 12 ≤ start.toList.length)
    (h : start.toList.take 12 ≠ "warning: --a".toList) (rest : String) :
    start ++ rest ≠ flushesDb0 := by
  intro he
  apply h
  rw [← take_flushesDb0, ← he, String.toList_append, List.take_append_of_le_length hlen]

theorem flushesDb0_notMem_cliWarnings : flushesDb0 ∉ cliWarnings args := by
  have hpolls : ∀ ms, aggressivePolls ms ≠ flushesDb0 := by
    intro ms
    unfold aggressivePolls
    simp only [String.append_assoc]
    exact ne_flushesDb0 (by decide +kernel) (by decide +kernel) _
  have hconnections : ∀ n, manyConnections n ≠ flushesDb0 := by
    intro n
    unfold manyConnections
    simp only [String.append_assoc]
    exact ne_flushesDb0 (by decide +kernel) (by decide +kernel) _
  intro h
  rcases List.mem_append.mp h with h | h
  · split at h
    · exact hpolls _ (List.mem_singleton.mp h).symm
    · cases h
  · split at h
    · split at h
      · exact hconnections _ (List.mem_singleton.mp h).symm
      · cases h
    · cases h

theorem flushesDb0_notMem_events (lookup : TagLookup) :
    Event.warn flushesDb0 ∉ lookup.events := by
  have htag : ∀ text, (tagOfLookup lookup).1 = some text → text ≠ flushesDb0 := by
    intro text h
    cases lookup with
    | noClient e =>
      cases h
      exact ne_flushesDb0 (by decide +kernel) (by decide +kernel) _
    | noConnection e =>
      cases h
      exact ne_flushesDb0 (by decide +kernel) (by decide +kernel) _
    | noInfo e =>
      cases h
      exact ne_flushesDb0 (by decide +kernel) (by decide +kernel) _
    | info answer =>
      simp only [tagOfLookup] at h
      split at h <;> cases h
  intro h
  rcases List.mem_append.mp h with h | h
  · split at h <;> simp at h
  · rw [Option.mem_toList, Option.map_eq_some_iff] at h
    obtain ⟨text, htext, he⟩ := h
    exact htag text htext (Event.warn.inj he)

theorem flushesDb0_notMem_memoryWarning (jobs : Nat) : flushesDb0 ∉ memoryWarning jobs := by
  intro h
  unfold memoryWarning at h
  split at h
  · rw [List.mem_singleton] at h
    simp only [String.append_assoc] at h
    exact ne_flushesDb0 (by decide +kernel) (by decide +kernel) _ h.symm
  · cases h

theorem flushesDb0_mem_urlWarnings {url : String} :
    flushesDb0 ∈ urlWarnings lib args url ↔ args.allowFlushdb = true ∧ dbInUrl lib url = 0 := by
  have hunverified : flushesDb0 ≠ unverified := by decide +kernel
  unfold urlWarnings
  rw [List.mem_append]
  constructor
  · rintro (h | h)
    · split at h
      · exact absurd (List.mem_singleton.mp h) hunverified
      · cases h
    · split at h
      · rename_i hboth
        simpa using hboth
      · cases h
  · intro h
    right
    simp [h.1, h.2]

theorem Started.warns_iff (hs : Started lib lookup connect args r log) :
    Event.warn flushesDb0 ∈ log ↔ args.allowFlushdb = true ∧ dbInUrl lib r.url = 0 := by
  have hmap : ∀ texts : List String,
      Event.warn flushesDb0 ∈ texts.map Event.warn ↔ flushesDb0 ∈ texts := fun texts => by simp
  have hevents : Event.warn flushesDb0 ∉
      (if args.tag.isSome then [] else (lookup r.url).events) := by
    split
    · exact List.not_mem_nil
    · exact flushesDb0_notMem_events _
  have hheader : Event.warn flushesDb0 ∉ [Event.header (header args r.tag r.displayUrl)] := by simp
  rw [hs.log, List.mem_append, List.mem_append, List.mem_append, List.mem_append, hmap, hmap,
    hmap, ← flushesDb0_mem_urlWarnings]
  simp only [flushesDb0_notMem_cliWarnings, hevents, hheader, flushesDb0_notMem_memoryWarning,
    false_or, or_false]

/-- The connection selects the database that the arguments ask for. Before main flushes it,
the warning comes for database 0, and for any that does not fit into eight bits. -/
theorem flush_warned_iff (hl : lib.Lawful) (hk : KeepsPath lib) {client : String → Option Int}
    (hc : SelectsDb lib client) (h : (startup lib lookup connect args).Ends [] r log) {n : Int}
    (hn : client r.url = some n) :
    (∃ u, lib.parse args.redis.url = .ok u ∧ args.redis.asksFor u = some n) ∧
      (Event.warn flushesDb0 ∈ log ↔ args.allowFlushdb = true ∧ ¬ (1 ≤ n ∧ n ≤ 255)) := by
  have hs := startup_ends h
  obtain ⟨v, hv, hselected⟩ := hc _ _ hn
  obtain ⟨hasks, hread⟩ := buildRedisUrl_asksFor hl hk hs.url hv hselected
  have hdb : dbInUrl lib r.url = 0 ↔ ¬ (1 ≤ n ∧ n ≤ 255) := by
    rw [dbInUrl, hv]
    exact eightBits_eq_zero_iff hread
  rw [hs.warns_iff, hdb]
  exact ⟨hasks, Iff.rfl⟩

end Warning

/-- Database 300 is none that the warning can read. -/
theorem flush_warned_iff_above : ∃ (args : Arguments) (r : Ready) (log : List Event),
    args.allowFlushdb = true ∧ connecting Plain.library r.url = some 300 ∧
    (startup Plain.library (fun _ => .info "redis_version:7.4.0\r\n") (fun _ => .ok ())
      args).Ends [] r log ∧ Event.warn flushesDb0 ∈ log := by
  let redis : RedisCli := ⟨"redis://127.0.0.1:6379/300", none, none, none, false, false, none⟩
  let args : Arguments := { Arguments.default with redis := redis, allowFlushdb := true }
  obtain ⟨r, log, hends⟩ : ∃ r log, (startup Plain.library
      (fun _ => .info "redis_version:7.4.0\r\n") (fun _ => .ok ()) args).Ends [] r log :=
    Script.ends_of_isOk (by decide +kernel)
  have hurl : r.url = "redis://127.0.0.1:6379/300" := by
    have hbuilt : buildRedisUrl Plain.library redis = .ok "redis://127.0.0.1:6379/300" := by
      decide +kernel
    exact Except.ok.inj ((startup_ends hends).url.symm.trans hbuilt)
  have hdb : connecting Plain.library r.url = some 300 := by
    rw [hurl]
    decide +kernel
  have hwarned := (flush_warned_iff Plain.library_lawful plain_keepsPath
    (connecting_selectsDb _) hends hdb).2.mpr ⟨rfl, by omega⟩
  exact ⟨args, r, log, rfl, hdb, hends, hwarned⟩

end ResqueBench
