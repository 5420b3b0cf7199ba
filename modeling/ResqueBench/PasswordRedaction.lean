import ResqueBench.RedisUrl

/-! Passwords in what is displayed. Two command lines that differ in nothing but a
password build their URLs in lockstep; what is left is whether the URL that comes out
can be parsed again, since a string that cannot is not redacted. -/

namespace ResqueBench

open Web

/-- Two command lines that differ at most in a password: in one of unreserved characters
in `--url`, or in any `--password` that is not empty. -/
structure EqualButPassword (cli cli' : RedisCli) : Prop where
  url : cli'.url = cli.url ∨ ∃ scheme user password password' rest,
    BeforePassword scheme user ∧ Unreserved password ∧ Unreserved password' ∧
      cli.url = withUserinfo scheme user password rest ∧
      cli'.url = withUserinfo scheme user password' rest
  password : cli'.password = cli.password ∨ ∃ password password',
    password ≠ "" ∧ password' ≠ "" ∧
      cli.password = some password ∧ cli'.password = some password'
  host : cli'.host = cli.host
  port : cli'.port = cli.port
  tls : cli'.tls = cli.tls
  insecure : cli'.insecure = cli.insecure
  db : cli'.db = cli.db

/-- `--host` leaves `--url` without a host, and no argument after it is refused. -/
structure HostEmptied (lib : UrlLibrary) (cli : RedisCli) (u : Url) : Prop where
  host : ∃ host v, cli.host = some host ∧ lib.setHost u host = some v ∧ v.host = none
  port : cli.port = none
  password : cli.password = none
  insecure : cli.insecure = true → (cli.tls = true ∧ u.scheme = "redis") ∨ u.scheme = "rediss"

/-- The same URL, or the same up to its password. -/
inductive Alike : Url → Url → Prop
  | same (u : Url) : Alike u u
  | password {u : Url} (hu : u.password ≠ none) (q : String) : Alike u (u.withPassword q)

/-- The same error, or two URLs that are alike. -/
inductive Lockstep : Except (List String) Url → Except (List String) Url → Prop
  | error (texts : List String) : Lockstep (.error texts) (.error texts)
  | ok {u v : Url} (h : Alike u v) : Lockstep (.ok u) (.ok v)

theorem Lockstep.same (x : Except (List String) Url) : Lockstep x x := by
  cases x with
  | error texts => exact .error texts
  | ok u => exact .ok (.same u)

theorem Lockstep.bind {x y : Except (List String) Url} {f g : Url → Except (List String) Url}
    (h : Lockstep x y) (hfg : ∀ u v, Alike u v → Lockstep (f u) (g v)) :
    Lockstep (x >>= f) (y >>= g) := by
  cases h with
  | error texts => exact .error texts
  | ok h => exact hfg _ _ h

theorem Lockstep.of_error {texts : List String} {y : Except (List String) Url}
    (h : Lockstep (.error texts) y) : y = .error texts := by
  cases h
  rfl

theorem Lockstep.of_ok {u : Url} {y : Except (List String) Url} (h : Lockstep (.ok u) y) :
    ∃ v, y = .ok v ∧ Alike u v := by
  cases h with
  | ok h => exact ⟨_, rfl, h⟩

section Alike

variable {lib : UrlLibrary} {cli cli' : RedisCli} {u v w : Url}

theorem Alike.withPassword (h : Alike u v) (q : String) : v.withPassword q = u.withPassword q := by
  cases h with
  | same => rfl
  | password hu p => rfl

theorem Alike.scheme (h : Alike u v) : v.scheme = u.scheme := by
  cases h with
  | same => rfl
  | password hu q => rfl

theorem Alike.hosted (h : Alike u v) : v.Hosted ↔ u.Hosted := by
  cases h with
  | same => exact Iff.rfl
  | password hu q => exact ⟨fun h => ⟨h.host, h.scheme⟩, fun h => ⟨h.host, h.scheme⟩⟩

theorem override_alike {α : Type} {arg : Option α} {set : Url → α → Option Url} {text : α → String}
    (hblind : ∀ a, UrlLibrary.Blind (set · a))
    (hkeep : ∀ a w, arg = some a → set u a = some w → w.password = u.password)
    (h : Alike u v) : Lockstep (override arg set text u) (override arg set text v) := by
  cases h with
  | same => exact .same _
  | password hu q =>
    cases arg with
    | none => exact .ok (.password hu q)
    | some a =>
      have hv := hblind a u q hu
      cases hw : set u a with
      | none =>
        simp only [hw, Option.map_none] at hv
        simp only [override, hw, hv]
        exact .error _
      | some w =>
        simp only [hw, Option.map_some] at hv
        simp only [override, hw, hv]
        have hp : w.password ≠ none := by rwa [hkeep a w rfl hw]
        exact .ok (.password hp q)

theorem disableVerification_alike (hl : lib.Lawful) (h : Alike u v) :
    Lockstep (disableVerification lib cli u) (disableVerification lib cli v) := by
  cases h with
  | same => exact .same _
  | password hu q =>
    have hscheme : (u.withPassword q).scheme = u.scheme := rfl
    simp only [disableVerification, hl.setFragment_unreserved unreserved_insecure, hscheme]
    by_cases hi : cli.insecure = true
    · by_cases hs : (u.scheme == "rediss") = true
      · rw [if_pos hi, if_pos hi, if_pos hs, if_pos hs]
        exact .ok (.password (u := { u with fragment := some "insecure" }) hu q)
      · rw [if_pos hi, if_pos hi, if_neg hs, if_neg hs]
        exact .error _
    · rw [if_neg hi, if_neg hi]
      exact .ok (.password hu q)

theorem overrideDb_alike (hl : lib.Lawful) (h : Alike u v) :
    Alike (overrideDb lib cli u) (overrideDb lib cli v) := by
  cases h with
  | same => exact .same _
  | password hu q =>
    have hset : ∀ p, Alike (lib.setPath u p) (lib.setPath (u.withPassword q) p) := by
      intro p
      have hblind := Option.some.inj (hl.setPath_blind p u q hu)
      obtain ⟨path, hp⟩ := hl.setPath_only u p
      rw [hblind]
      exact .password (by rw [hp]; exact hu) q
    unfold overrideDb
    cases cli.db with
    | some db => exact hset _
    | none =>
      have hpath : (u.withPassword q).path = u.path := rfl
      simp only [hpath]
      by_cases hslashes : u.path.toList.all (· == '/') = true
      · rw [if_pos hslashes, if_pos hslashes]
        exact hset "/13"
      · rw [if_neg hslashes, if_neg hslashes]
        exact .password hu q

/-- Whatever the passwords are, a URL takes both or refuses both. -/
theorem setPassword_alike (hl : lib.Lawful) {p p' : String} {text text' : String → String}
    (htext : text' p' = text p) (hp : p' = p ∨ (p ≠ "" ∧ p' ≠ "")) (h : Alike u v) :
    Lockstep (override (some p) lib.setPassword text u)
      (override (some p') lib.setPassword text' v) := by
  by_cases hu : u.Hosted
  · have hv : v.Hosted := h.hosted.mpr hu
    by_cases hne : p = ""
    · have hne' : p' = "" := by
        rcases hp with he | ⟨hp, _⟩
        · rw [he, hne]
        · exact absurd hne hp
      have hcleared : { v with password := none } = { u with password := none } := by
        cases h with
        | same => rfl
        | password hu q => rfl
      simp only [override, hne, hne', hl.setPassword_empty hu, hl.setPassword_empty hv, hcleared]
      exact .same _
    · have hne' : p' ≠ "" := by
        rcases hp with he | ⟨_, hp'⟩
        · rwa [he]
        · exact hp'
      simp only [override, hl.setPassword_hosted hu hne, hl.setPassword_hosted hv hne',
        h.withPassword]
      exact .ok (.password (u := u.withPassword (lib.encode p)) (by simp [Url.withPassword])
        (lib.encode p'))
  · have hv : ¬ v.Hosted := fun hv => hu (h.hosted.mp hv)
    simp only [override, hl.setPassword_refused p hu, hl.setPassword_refused p' hv, htext]
    exact .error _

theorem redactUrl_alike (hl : lib.Lawful) {s s' : String} (hs : lib.parse s = .ok u)
    (hs' : lib.parse s' = .ok v) (h : Alike u v) : redactUrl lib s' = redactUrl lib s := by
  cases h with
  | same => simp only [redactUrl, hs, hs']
  | password hu q =>
    have hhosted := hl.parse_hosted hs hu
    have hhosted' := (Alike.password hu q).hosted.mpr hhosted
    have hsome : u.password.isSome = true := Option.isSome_iff_ne_none.mpr hu
    have hsome' : (u.withPassword q).password.isSome = true := rfl
    have hstars : "****" ≠ "" := by decide
    simp only [redactUrl, hs, hs', hsome, hsome', hl.setPassword_hosted hhosted hstars,
      hl.setPassword_hosted hhosted' hstars]
    rfl

theorem redactUrl_unparsed {s : String} (h : ∀ u, lib.parse s ≠ .ok u) : redactUrl lib s = s := by
  unfold redactUrl
  split
  · exact absurd (by assumption) (h _)
  · rfl

theorem overridePassword_alike (hl : lib.Lawful) (h : EqualButPassword cli cli')
    (htext : redactUrl lib cli'.url = redactUrl lib cli.url) (hu : Alike u v) :
    Lockstep (overridePassword lib cli u) (overridePassword lib cli' v) := by
  unfold overridePassword
  rw [htext]
  rcases h.password with he | ⟨p, p', hp, hp', hc, hc'⟩
  · rw [he]
    cases cli.password with
    | none => exact .ok hu
    | some p => exact setPassword_alike hl rfl (.inl rfl) hu
  · rw [hc, hc']
    exact setPassword_alike hl rfl (.inr ⟨hp, hp'⟩) hu

theorem applyArgs_alike (hl : lib.Lawful) (h : EqualButPassword cli cli')
    (htext : redactUrl lib cli'.url = redactUrl lib cli.url) (hu : Alike u v) :
    Lockstep (applyArgs lib cli u) (applyArgs lib cli' v) := by
  have hhost : overrideHost lib cli' = overrideHost lib cli := by
    unfold overrideHost
    rw [h.host]
  have hport : overridePort lib cli' = overridePort lib cli := by
    unfold overridePort
    rw [h.port, htext]
  have htls : upgradeScheme lib cli' = upgradeScheme lib cli := by
    unfold upgradeScheme
    rw [h.tls]
  have hinsecure : disableVerification lib cli' = disableVerification lib cli := by
    unfold disableVerification
    rw [h.insecure]
  have hdb : overrideDb lib cli' = overrideDb lib cli := by
    unfold overrideDb
    rw [h.db]
  unfold applyArgs
  rw [hhost, hport, htls, hinsecure, hdb]
  have hhostStep : Lockstep (overrideHost lib cli u) (overrideHost lib cli v) := by
    refine override_alike hl.setHost_blind (fun host w _ hw => ?_) hu
    obtain ⟨_, rfl⟩ := hl.setHost_only hw
    rfl
  refine hhostStep.bind (fun u₁ v₁ h₁ => ?_)
  have hportStep : Lockstep (overridePort lib cli u₁) (overridePort lib cli v₁) := by
    refine override_alike hl.setPort_blind (fun port w _ hw => ?_) h₁
    obtain ⟨_, rfl⟩ := hl.setPort_only hw
    rfl
  refine hportStep.bind (fun u₂ v₂ h₂ => ?_)
  have htlsStep : Lockstep (upgradeScheme lib cli u₂) (upgradeScheme lib cli v₂) := by
    unfold upgradeScheme
    rw [h₂.scheme]
    refine override_alike hl.setScheme_blind (fun s w hs hw => ?_) h₂
    obtain ⟨_, rfl⟩ := upgrade_arg hs
    obtain ⟨_, rfl⟩ := hl.setScheme_only (by simp) hw
    rfl
  refine htlsStep.bind (fun u₃ v₃ h₃ => ?_)
  refine (disableVerification_alike hl h₃).bind (fun u₄ v₄ h₄ => ?_)
  refine (overridePassword_alike hl h htext h₄).bind (fun u₅ v₅ h₅ => ?_)
  exact .ok (overrideDb_alike hl h₅)

end Alike

section Emptied

variable {lib : UrlLibrary} {cli cli' : RedisCli} {u v w : Url}

theorem overrideHost_password (hl : lib.Lawful) (h : overrideHost lib cli u = .ok v) :
    v.password = u.password := by
  obtain ⟨_, _, rfl⟩ := overrideHost_only hl h
  rfl

/-- A URL with the host and the password of `u`. -/
structure SameLogin (u v : Url) : Prop where
  host : v.host = u.host
  password : v.password = u.password

theorem SameLogin.trans (h : SameLogin u v) (h' : SameLogin v w) : SameLogin u w :=
  ⟨h'.host.trans h.host, h'.password.trans h.password⟩

theorem overridePort_login (hl : lib.Lawful) (h : overridePort lib cli u = .ok v) :
    SameLogin u v := by
  obtain ⟨_, rfl⟩ := overridePort_only hl h
  exact ⟨rfl, rfl⟩

theorem upgradeScheme_login (hl : lib.Lawful) (h : upgradeScheme lib cli u = .ok v) :
    SameLogin u v := by
  rcases upgradeScheme_cases hl h with ⟨_, rfl⟩ | ⟨_, _, port, rfl⟩
  · exact ⟨rfl, rfl⟩
  · exact ⟨rfl, rfl⟩

theorem disableVerification_login (hl : lib.Lawful) (h : disableVerification lib cli u = .ok v) :
    SameLogin u v := by
  rcases disableVerification_ok h with ⟨_, rfl⟩ | ⟨_, _, rfl⟩
  · exact ⟨rfl, rfl⟩
  · rw [hl.setFragment_unreserved unreserved_insecure]
    exact ⟨rfl, rfl⟩

theorem overrideDb_login (hl : lib.Lawful) (cli : RedisCli) (u : Url) :
    SameLogin u (overrideDb lib cli u) := by
  obtain ⟨path, hp⟩ := overrideDb_only hl cli u
  rw [hp]
  exact ⟨rfl, rfl⟩

theorem Chain.login {u₁ u₂ u₃ u₄ u₅ : Url} (hl : lib.Lawful)
    (h : Chain lib cli u u₁ u₂ u₃ u₄ u₅) : SameLogin u₁ u₄ :=
  ((overridePort_login hl h.port).trans (upgradeScheme_login hl h.tls)).trans
    (disableVerification_login hl h.insecure)

theorem Chain.unchanged {u₁ u₂ u₃ u₄ u₅ : Url} (h : Chain lib cli u u₁ u₂ u₃ u₄ u₅)
    (hp : cli.password = none) : u₅ = u₄ := by
  rcases override_ok h.password with ⟨_, rfl⟩ | ⟨password, hpassword, _⟩
  · rfl
  · rw [hp] at hpassword
    cases hpassword

theorem applyArgs_password (hl : lib.Lawful) (h : applyArgs lib cli u = .ok w)
    (hp : cli.password = none) : w.password = u.password := by
  obtain ⟨u₁, u₂, u₃, u₄, u₅, hc, rfl⟩ := applyArgs_ok h
  obtain rfl := hc.unchanged hp
  rw [(overrideDb_login hl cli u₅).password, (hc.login hl).password,
    overrideHost_password hl hc.host]

theorem Upgraded.not_file (h : Upgraded lib cli u w) (hu : u.scheme ≠ "file") :
    w.scheme ≠ "file" := by
  rw [h.scheme]
  split
  · decide
  · exact hu

/-- A URL that comes out with a password has a host, but for the one exception. -/
theorem applyArgs_hosted (hl : lib.Lawful) (hu : lib.parse cli.url = .ok u)
    (h : applyArgs lib cli u = .ok w) (hw : w.password ≠ none) :
    w.Hosted ∨ HostEmptied lib cli u := by
  have hup := applyArgs_upgraded hl (.parse hu) h
  by_cases hp : cli.password = none
  · have hhosted : u.Hosted := by
      refine hl.parse_hosted hu ?_
      rwa [← applyArgs_password hl h hp]
    by_cases hhost : w.host = none
    · right
      obtain ⟨u₁, u₂, u₃, u₄, u₅, hc, rfl⟩ := applyArgs_ok h
      obtain rfl := hc.unchanged hp
      rw [(overrideDb_login hl cli u₅).host, (hc.login hl).host] at hhost
      refine ⟨?_, ?_, hp, fun hi => ?_⟩
      · rcases override_ok hc.host with ⟨_, rfl⟩ | ⟨host, harg, hv⟩
        · exact absurd hhost hhosted.host
        · exact ⟨host, u₁, harg, hv, hhost⟩
      · rcases override_ok hc.port with ⟨harg, _⟩ | ⟨port, _, hv⟩
        · exact harg
        · rw [hl.setPort_hostless port hhost] at hv
          cases hv
      · have hs := hup.insecure hi
        rw [hup.scheme] at hs
        split at hs
        · exact .inl (by assumption)
        · exact .inr hs
    · exact .inl ⟨hhost, hup.not_file hhosted.scheme⟩
  · left
    obtain ⟨u₁, u₂, u₃, u₄, u₅, hc, rfl⟩ := applyArgs_ok h
    rcases override_ok hc.password with ⟨harg, _⟩ | ⟨password, _, hv⟩
    · exact absurd harg hp
    · have hhosted : u₄.Hosted := by
        by_contra hn
        rw [hl.setPassword_refused password hn] at hv
        cases hv
      obtain ⟨_, rfl⟩ := hl.setPassword_only hv
      obtain ⟨path, hpath⟩ := overrideDb_only hl cli { u₄ with password := _ }
      rw [hpath]
      exact ⟨hhosted.host, hhosted.scheme⟩

theorem HostEmptied.applyArgs_ok (hl : lib.Lawful) (h : HostEmptied lib cli u) :
    ∃ w, applyArgs lib cli u = .ok w ∧ w.host = none := by
  obtain ⟨host, v, hc, hv, hempty⟩ := h.host
  have hhost : overrideHost lib cli u = .ok v := by
    simp only [overrideHost, override, hc, hv]
  have hport : overridePort lib cli v = .ok v := by
    simp only [overridePort, override, h.port]
  have hpassword : ∀ x, overridePassword lib cli x = .ok x := by
    intro x
    simp only [overridePassword, override, h.password]
  have hvs : v.scheme = u.scheme := by
    obtain ⟨_, rfl⟩ := hl.setHost_only hv
    rfl
  have htls : ∃ x, upgradeScheme lib cli v = .ok x ∧ (cli.insecure = true → x.scheme = "rediss") := by
    by_cases hup : cli.tls = true ∧ u.scheme = "redis"
    · have hs : (lib.setScheme v "rediss").isSome = true := by
        refine hl.setScheme_ok ?_ (by decide) (by decide) (by simp)
        rw [hvs, hup.2]
        decide
      obtain ⟨x, hx⟩ := Option.isSome_iff_exists.mp hs
      have hrediss : x.scheme = "rediss" := by
        obtain ⟨_, rfl⟩ := hl.setScheme_only (by simp) hx
        rfl
      exact ⟨x, by simp [upgradeScheme, override, hup.1, hvs, hup.2, hx], fun _ => hrediss⟩
    · refine ⟨v, ?_, fun hi => ?_⟩
      · have hnone : (cli.tls && v.scheme == "redis") = false := by
          simpa [hvs] using hup
        simp [upgradeScheme, override, hnone]
      · rw [hvs]
        exact (h.insecure hi).resolve_left hup
  obtain ⟨x, hx, hrediss⟩ := htls
  have hinsecure : ∃ y, disableVerification lib cli x = .ok y := by
    by_cases hi : cli.insecure = true
    · exact ⟨_, by simp [disableVerification, hi, hrediss hi]; rfl⟩
    · exact ⟨x, by simp [disableVerification, hi]⟩
  obtain ⟨y, hy⟩ := hinsecure
  have hlogin : SameLogin v y :=
    (upgradeScheme_login hl hx).trans (disableVerification_login hl hy)
  have hchain : Chain lib cli u v v x y y := ⟨hhost, hport, hx, hy, hpassword y⟩
  refine ⟨overrideDb lib cli y, hchain.applyArgs_eq, ?_⟩
  rw [(overrideDb_login hl cli y).host, hlogin.host, hempty]

end Emptied

section Displayed

variable {lib : UrlLibrary} {cli cli' : RedisCli} {u v w : Url} {e : String}

theorem EqualButPassword.symm (h : EqualButPassword cli cli') : EqualButPassword cli' cli where
  url := by
    rcases h.url with he | ⟨scheme, user, p, p', rest, hb, hp, hp', hu, hu'⟩
    · exact .inl he.symm
    · exact .inr ⟨scheme, user, p', p, rest, hb, hp', hp, hu', hu⟩
  password := by
    rcases h.password with he | ⟨p, p', hp, hp', hc, hc'⟩
    · exact .inl he.symm
    · exact .inr ⟨p', p, hp', hp, hc', hc⟩
  host := h.host.symm
  port := h.port.symm
  tls := h.tls.symm
  insecure := h.insecure.symm
  db := h.db.symm

/-- The parser takes both URLs or neither, and keeps two passwords apart. -/
theorem EqualButPassword.parse_ok (hl : lib.Lawful) (h : EqualButPassword cli cli')
    (hu : lib.parse cli.url = .ok u) :
    ∃ v, lib.parse cli'.url = .ok v ∧ Alike u v ∧ (cli'.url ≠ cli.url →
      u.password ≠ none ∧ v.password ≠ u.password) := by
  rcases h.url with he | ⟨scheme, user, p, p', rest, hb, hp, hp', hc, hc'⟩
  · exact ⟨u, by rw [he, hu], .same u, fun hne => absurd he hne⟩
  · rw [hc] at hu
    obtain ⟨t, t', ht, hinj, hv⟩ := hl.parse_password hb hp hp' hu
    have hsome : u.password ≠ none := by simp [ht]
    refine ⟨_, by rw [hc', hv], .password hsome t', fun hne => ⟨hsome, fun heq => hne ?_⟩⟩
    rw [ht] at heq
    rw [hc, hc', hinj (Option.some.inj heq).symm]

theorem displayed_error (hu : lib.parse cli.url = .error e) :
    displayed lib cli = .error ["invalid Redis URL: " ++ cli.url, e] := by
  have hraw : redactUrl lib cli.url = cli.url := redactUrl_unparsed (by simp [hu])
  simp only [displayed, buildRedisUrl, hu, hraw]
  rfl

theorem displayed_ok (hu : lib.parse cli.url = .ok u) :
    displayed lib cli = (applyArgs lib cli u).map (fun w => redactUrl lib (lib.serialize w)) := by
  simp only [displayed, buildRedisUrl, hu]
  cases applyArgs lib cli u with
  | error texts => rfl
  | ok w => rfl

theorem displayed_unparsed (hl : lib.Lawful) (h : EqualButPassword cli cli')
    (hu : lib.parse cli.url = .error e) (hne : cli'.url ≠ cli.url) :
    displayed lib cli' ≠ displayed lib cli := by
  cases hv : lib.parse cli'.url with
  | ok v =>
    obtain ⟨u, hu', _⟩ := h.symm.parse_ok hl hv
    rw [hu] at hu'
    cases hu'
  | error e' =>
    rw [displayed_error hu, displayed_error hv]
    intro heq
    have htexts := List.cons.inj (Except.error.inj heq)
    exact hne ((String.append_right_inj _).mp htexts.1)

theorem displayed_same (hl : lib.Lawful) (h : EqualButPassword cli cli')
    (hu : lib.parse cli.url = .ok u) (hn : ¬ HostEmptied lib cli u) :
    displayed lib cli' = displayed lib cli := by
  obtain ⟨v, hv, halike, _⟩ := h.parse_ok hl hu
  have hstep := applyArgs_alike hl h (redactUrl_alike hl hu hv halike) halike
  rw [displayed_ok hu, displayed_ok hv]
  cases hx : applyArgs lib cli u with
  | error texts =>
    rw [hx] at hstep
    rw [hstep.of_error]
  | ok w =>
    rw [hx] at hstep
    obtain ⟨w', hy, hw⟩ := hstep.of_ok
    have hmade := (applyArgs_upgraded hl (.parse hu) hx).made
    have hmade' := (applyArgs_upgraded hl (.parse hv) hy).made
    rw [hy]
    cases hw with
    | same => rfl
    | password hp q =>
      have hhosted := (applyArgs_hosted hl hu hx hp).resolve_right hn
      have hhosted' := (Alike.password hp q).hosted.mpr hhosted
      have hparse := hl.reparse_hosted hmade hhosted hp
      have hparse' := hl.reparse_hosted hmade' hhosted' (by simp [Url.withPassword])
      exact congrArg Except.ok (redactUrl_alike hl hparse hparse' (.password hp q))

/-- A URL with a password and without a host is not parsed again, and so not redacted. -/
theorem displayed_emptied (hl : lib.Lawful) (h : EqualButPassword cli cli')
    (hu : lib.parse cli.url = .ok u) (hn : HostEmptied lib cli u) (hne : cli'.url ≠ cli.url) :
    displayed lib cli' ≠ displayed lib cli := by
  obtain ⟨v, hv, halike, hdiffer⟩ := h.parse_ok hl hu
  obtain ⟨husome, hpasswords⟩ := hdiffer hne
  obtain ⟨w, hx, hhost⟩ := hn.applyArgs_ok hl
  have hstep := applyArgs_alike hl h (redactUrl_alike hl hu hv halike) halike
  have hp' : cli'.password = none := by
    rcases h.password with he | ⟨p, p', _, _, hc, _⟩
    · rw [he, hn.password]
    · rw [hn.password] at hc
      cases hc
  rw [hx] at hstep
  obtain ⟨w', hy, hw⟩ := hstep.of_ok
  have hwp := applyArgs_password hl hx hn.password
  have hwp' := applyArgs_password hl hy hp'
  rw [displayed_ok hu, displayed_ok hv, hx, hy]
  cases hw with
  | same => exact absurd (hwp'.symm.trans hwp) hpasswords
  | password hp q =>
    have hmade := (applyArgs_upgraded hl (.parse hu) hx).made
    have hmade' := (applyArgs_upgraded hl (.parse hv) hy).made
    have hraw := redactUrl_unparsed (fun x => hl.reparse_hostless (v := x) hmade hp hhost)
    have hraw' := redactUrl_unparsed (fun x =>
      hl.reparse_hostless (v := x) hmade' (by simp [Url.withPassword]) hhost)
    intro heq
    have htext : lib.serialize (w.withPassword q) = lib.serialize w := by
      rw [← hraw, ← hraw']
      exact Except.ok.inj heq
    obtain ⟨p, hwsome⟩ := Option.ne_none_iff_exists'.mp hp
    have hq := hl.serialize_password hmade hwsome htext
    rw [← hwp', ← hwp, hwsome, ← hq] at hpasswords
    exact hpasswords rfl

/-- With the same `--url` and no `--password` there is nothing left to differ. -/
theorem EqualButPassword.eq (h : EqualButPassword cli cli') (hu : cli'.url = cli.url)
    (hp : cli.password = none) : cli' = cli := by
  have hp' : cli'.password = cli.password := by
    rcases h.password with he | ⟨p, p', _, _, hc, _⟩
    · exact he
    · rw [hp] at hc
      cases hc
  cases cli
  cases cli'
  rw [RedisCli.mk.injEq]
  exact ⟨hu, h.host, h.port, hp', h.tls, h.insecure, h.db⟩

/-- Two passwords make no difference to what is displayed just where `--url` is the same,
or is parsed and keeps its host. -/
theorem passwords_redacted_iff (hl : lib.Lawful) (h : EqualButPassword cli cli') :
    displayed lib cli' = displayed lib cli ↔
      cli'.url = cli.url ∨ ∃ u, lib.parse cli.url = .ok u ∧ ¬ HostEmptied lib cli u := by
  constructor
  · intro heq
    by_contra hn
    rw [not_or] at hn
    obtain ⟨hne, hn⟩ := hn
    cases hu : lib.parse cli.url with
    | error e => exact displayed_unparsed hl h hu hne heq
    | ok u =>
      by_cases hempty : HostEmptied lib cli u
      · exact displayed_emptied hl h hu hempty hne heq
      · exact hn ⟨u, hu, hempty⟩
  · rintro (hsame | ⟨u, hu, hn⟩)
    · cases hu : lib.parse cli.url with
      | error e =>
        have hu' : lib.parse cli'.url = .error e := by rw [hsame, hu]
        rw [displayed_error hu, displayed_error hu', hsame]
      | ok u =>
        by_cases hempty : HostEmptied lib cli u
        · rw [h.eq hsame hempty.password]
        · exact displayed_same hl h hu hempty
    · exact displayed_same hl h hu hn

end Displayed

theorem EqualButPassword.ofUrl (cli : RedisCli) {scheme user password password' : String}
    (hb : BeforePassword scheme user) (hp : Unreserved password) (hp' : Unreserved password')
    (rest : String) :
    EqualButPassword { cli with url := withUserinfo scheme user password rest }
      { cli with url := withUserinfo scheme user password' rest } where
  url := .inr ⟨scheme, user, password, password', rest, hb, hp, hp', rfl, rfl⟩
  password := .inl rfl
  host := rfl
  port := rfl
  tls := rfl
  insecure := rfl
  db := rfl

theorem equalButPassword_hunter (cli : RedisCli) (rest : String) :
    EqualButPassword { cli with url := withUserinfo "redis" "" "hunter2" rest }
      { cli with url := withUserinfo "redis" "" "hunter3" rest } :=
  .ofUrl cli ⟨by simp, by simp, by simp⟩ ⟨by decide, by simp [isUnreserved]⟩
    ⟨by decide, by simp [isUnreserved]⟩ rest

theorem passwords_redacted_iff_hunter : ∃ cli cli' : RedisCli, cli' ≠ cli ∧
    displayed Plain.library cli' = displayed Plain.library cli := by
  let base : RedisCli := ⟨"", none, none, none, false, false, none⟩
  have hequal := equalButPassword_hunter base "127.0.0.1:6379/0"
  have hparse : Plain.library.parse (withUserinfo "redis" "" "hunter2" "127.0.0.1:6379/0") =
      .ok ⟨"redis", "", some "hunter2", some "127.0.0.1", some 6379, "/0", none, none, true,
        false⟩ := by
    decide +kernel
  refine ⟨_, _, ?_, (passwords_redacted_iff Plain.library_lawful hequal).mpr
    (.inr ⟨_, hparse, ?_⟩)⟩
  · decide +kernel
  · rintro ⟨⟨host, v, hhost, _⟩, _⟩
    cases hhost

/-- The port is none, so the URL does not parse, and the error shows it as it is. -/
theorem password_in_error : ∃ cli cli', EqualButPassword cli cli' ∧
    displayed Plain.library cli = .error
      ["invalid Redis URL: redis://:hunter2@127.0.0.1:99999/0", "invalid port number"] ∧
    displayed Plain.library cli' = .error
      ["invalid Redis URL: redis://:hunter3@127.0.0.1:99999/0", "invalid port number"] :=
  ⟨_, _, equalButPassword_hunter ⟨"", none, none, none, false, false, none⟩ "127.0.0.1:99999/0",
    by decide +kernel, by decide +kernel⟩

example : displayed Plain.library
    ⟨"redis://:hunter2@127.0.0.1/0", some "", none, none, false, false, none⟩ =
      .ok "redis://:hunter2@/0" := by
  decide +kernel

end ResqueBench
