import ResqueBench.Url

/-! A small URL library: URLs with an authority, in characters that need no encoding.
Its parser reads back what its serializer writes. -/

namespace Web.Plain

/-- A text up to its first `d`, and what follows it. -/
def cut (d : Char) : List Char → List Char × Option (List Char)
  | [] => ([], none)
  | c :: cs => if c = d then ([], some cs) else (c :: (cut d cs).1, (cut d cs).2)

def tail (d : Char) : Option (List Char) → List Char
  | none => []
  | some cs => d :: cs

theorem cut_append {d : Char} {as : List Char} (h : d ∉ as) (bs : List Char) :
    cut d (as ++ bs) = (as ++ (cut d bs).1, (cut d bs).2) := by
  induction as with
  | nil => rfl
  | cons a as ih =>
    obtain ⟨ha, has⟩ := List.ne_and_not_mem_of_not_mem_cons h
    simp [cut, Ne.symm ha, ih has]

theorem cut_tail (d : Char) (cs : Option (List Char)) : cut d (tail d cs) = ([], cs) := by
  cases cs <;> simp [tail, cut]

theorem cut_append_tail {d : Char} {as : List Char} (h : d ∉ as) (cs : Option (List Char)) :
    cut d (as ++ tail d cs) = (as, cs) := by
  rw [cut_append h, cut_tail, List.append_nil]

def isPlain (c : Char) : Bool := isUnreserved c || ['+', '%', '*'].contains c

def text (s : String) : Bool := s.toList.all isPlain

def filled (s : String) : Bool := s != "" && text s

/-- Percent-encoding is out of scope: another character stands in for what needs it. -/
def encode (s : String) : String :=
  String.ofList (s.toList.map (fun c => if isPlain c then c else '~'))

def encodePath (path : String) : String :=
  String.ofList ('/' :: (path.toList.drop 1).map (fun c => if isPlain c || c == '/' then c else '~'))

def pathText (path : String) : Bool :=
  match path.toList with
  | [] => true
  | c :: cs => c == '/' && cs.all (fun c => isPlain c || c == '/')

def wellFormed (u : Url) : Bool :=
  filled u.scheme && text u.username && u.password.all filled && u.host.all filled &&
    pathText u.path && u.query.all text && u.fragment.all text &&
    (u.password.isNone || u.scheme != "file") && u.authority && !u.cannotBeABase

def valid (u : Url) : Bool :=
  u.host.isSome || (u.username == "" && u.password.isNone && u.port.isNone)

def chars (s : Option String) : Option (List Char) := s.map String.toList

def pathChars (path : String) : Option (List Char) :=
  match path.toList with
  | [] => none
  | _ :: cs => some cs

def portChars (port : Option UInt16) : Option (List Char) :=
  port.map (fun n => Nat.toDigits 10 n.toNat)

def userinfo (u : Url) : List Char :=
  if u.username = "" ∧ u.password = none then []
  else u.username.toList ++ tail ':' (chars u.password) ++ ['@']

def hostPort (u : Url) : List Char :=
  (u.host.getD "").toList ++ tail ':' (portChars u.port)

def afterScheme (u : Url) : List Char :=
  userinfo u ++ hostPort u ++ tail '/' (pathChars u.path) ++ tail '?' (chars u.query) ++
    tail '#' (chars u.fragment)

def serialize (u : Url) : String :=
  String.ofList (u.scheme.toList ++ ':' :: '/' :: '/' :: afterScheme u)

def nonempty (cs : Option (List Char)) : Option String :=
  (cs.filter (fun cs => !cs.isEmpty)).map String.ofList

def readPath : Option (List Char) → String
  | none => ""
  | some cs => String.ofList ('/' :: cs)

def readPort : Option (List Char) → Option (Option UInt16)
  | none => some none
  | some ds =>
    if ds.isEmpty || !ds.all Char.isDigit || 65536 ≤ Nat.ofDigitChars 10 ds 0 then none
    else some (some (UInt16.ofNat (Nat.ofDigitChars 10 ds 0)))

/-- The username, the password, and the host with the port. -/
def readAuthority (cs : List Char) : List Char × Option (List Char) × List Char :=
  match cut '@' cs with
  | (hostPort, none) => ([], none, hostPort)
  | (userinfo, some hostPort) => ((cut ':' userinfo).1, (cut ':' userinfo).2, hostPort)

def build (scheme : List Char) (authority : List Char × Option (List Char) × List Char)
    (path query fragment : Option (List Char)) : Except String Url :=
  let host := cut ':' authority.2.2
  match readPort host.2 with
  | none => .error "invalid port number"
  | some port =>
    let u : Url := ⟨String.ofList scheme, String.ofList authority.1, nonempty authority.2.1,
      nonempty (some host.1), port, readPath path, query.map String.ofList,
      fragment.map String.ofList, true, false⟩
    if wellFormed u && valid u then .ok u else .error "empty host"

def read (scheme rest : List Char) : Except String Url :=
  let fragment := cut '#' rest
  let query := cut '?' fragment.1
  let path := cut '/' query.1
  build scheme (readAuthority path.1) path.2 query.2 fragment.2

def parse (s : String) : Except String Url :=
  match cut ':' s.toList with
  | (scheme, some ('/' :: '/' :: rest)) => read scheme rest
  | _ => .error "relative URL without a base"

def library : UrlLibrary where
  parse := parse
  serialize := serialize
  setScheme u s := if filled s && s != "file" then some { u with scheme := s } else none
  setHost u host :=
    if text host && !(host == "" && special u.scheme) then
      some { u with host := if host = "" then none else some host, authority := true }
    else none
  setPort u port :=
    if u.host = none ∨ u.scheme = "file" then none else some { u with port := some port }
  setPassword u password :=
    if u.host = none ∨ u.scheme = "file" then none
    else some { u with password := if password = "" then none else some (encode password) }
  setPath u path := { u with path := encodePath path }
  setFragment u fragment := { u with fragment := some (encode fragment) }
  encode := encode

theorem mem_text {s : String} {c : Char} (h : text s = true) (hc : c ∈ s.toList) :
    isPlain c = true := List.all_eq_true.mp h c hc

theorem mem_chars {s : Option String} {cs : List Char} {c : Char} (h : s.all text = true)
    (hs : chars s = some cs) (hc : c ∈ cs) : isPlain c = true := by
  obtain ⟨t, rfl, rfl⟩ := Option.map_eq_some_iff.mp hs
  exact mem_text h hc

theorem mem_tail {d c : Char} {cs : Option (List Char)} (hc : c ∈ tail d cs) :
    c = d ∨ ∃ as, cs = some as ∧ c ∈ as := by
  cases cs with
  | none => simp [tail] at hc
  | some as => simpa [tail] using hc

theorem isPlain_of_isDigit {c : Char} (h : c.isDigit = true) : isPlain c = true := by
  simp [isPlain, isUnreserved, Char.isAlphanum, h]

structure WellFormed (u : Url) : Prop where
  scheme : filled u.scheme = true
  username : text u.username = true
  password : u.password.all filled = true
  host : u.host.all filled = true
  path : pathText u.path = true
  query : u.query.all text = true
  fragment : u.fragment.all text = true
  file : u.password = none ∨ u.scheme ≠ "file"
  authority : u.authority = true
  cannotBeABase : u.cannotBeABase = false

theorem wellFormed_iff (u : Url) : wellFormed u = true ↔ WellFormed u := by
  constructor
  · intro h
    simp only [wellFormed, Bool.and_eq_true, Bool.or_eq_true, Option.isNone_iff_eq_none, bne_iff_ne,
      Bool.not_eq_true'] at h
    obtain ⟨⟨⟨⟨⟨⟨⟨⟨⟨h₁, h₂⟩, h₃⟩, h₄⟩, h₅⟩, h₆⟩, h₇⟩, h₈⟩, h₉⟩, h₁₀⟩ := h
    exact ⟨h₁, h₂, h₃, h₄, h₅, h₆, h₇, h₈, h₉, h₁₀⟩
  · intro h
    simp [wellFormed, h.scheme, h.username, h.password, h.host, h.path, h.query, h.fragment, h.file,
      h.authority, h.cannotBeABase]

theorem text_of_filled {s : String} (h : filled s = true) : text s = true := by
  simp only [filled, Bool.and_eq_true] at h
  exact h.2

theorem all_text {s : Option String} (h : s.all filled = true) : s.all text = true := by
  cases s with
  | none => rfl
  | some s => exact text_of_filled h

section WellFormed

variable {u : Url}

theorem WellFormed.mem_userinfo (h : WellFormed u) {c : Char} (hc : c ∈ userinfo u) :
    isPlain c = true ∨ c = ':' ∨ c = '@' := by
  unfold userinfo at hc
  split at hc
  · cases hc
  · simp only [List.mem_append, List.mem_singleton] at hc
    rcases hc with (hc | hc) | hc
    · exact .inl (mem_text h.username hc)
    · rcases mem_tail hc with hc | ⟨as, has, hc⟩
      · exact .inr (.inl hc)
      · exact .inl (mem_chars (all_text h.password) has hc)
    · exact .inr (.inr hc)

theorem WellFormed.mem_hostPort (h : WellFormed u) {c : Char} (hc : c ∈ hostPort u) :
    isPlain c = true ∨ c = ':' := by
  rw [hostPort, List.mem_append] at hc
  rcases hc with hc | hc
  · cases hhost : u.host with
    | none => simp [hhost] at hc
    | some host =>
      have hh := h.host
      rw [hhost] at hc hh
      exact .inl (mem_text (text_of_filled hh) hc)
  · rcases mem_tail hc with hc | ⟨as, has, hc⟩
    · exact .inr hc
    · obtain ⟨n, _, rfl⟩ := Option.map_eq_some_iff.mp has
      exact .inl (isPlain_of_isDigit (Nat.isDigit_of_mem_toDigits (by omega) (by omega) hc))

theorem WellFormed.mem_path (h : WellFormed u) {c : Char} (hc : c ∈ tail '/' (pathChars u.path)) :
    isPlain c = true ∨ c = '/' := by
  rcases mem_tail hc with hc | ⟨as, has, hc⟩
  · exact .inr hc
  · have hp := h.path
    unfold pathText at hp
    unfold pathChars at has
    split at has
    · cases has
    · rename_i d ds hd
      cases has
      simp only [hd, Bool.and_eq_true, List.all_eq_true, Bool.or_eq_true, beq_iff_eq] at hp
      exact hp.2 c hc

theorem WellFormed.mem_query (h : WellFormed u) {c : Char} (hc : c ∈ tail '?' (chars u.query)) :
    isPlain c = true ∨ c = '?' := by
  rcases mem_tail hc with hc | ⟨as, has, hc⟩
  · exact .inr hc
  · exact .inl (mem_chars h.query has hc)

theorem WellFormed.notMem_authority (h : WellFormed u) {d : Char} (hd : isPlain d = false)
    (hcolon : d ≠ ':') (hat : d ≠ '@') : d ∉ userinfo u ++ hostPort u := by
  intro hc
  rcases List.mem_append.mp hc with hc | hc
  · rcases h.mem_userinfo hc with hp | hp | hp
    · rw [hd] at hp
      cases hp
    · exact hcolon hp
    · exact hat hp
  · rcases h.mem_hostPort hc with hp | hp
    · rw [hd] at hp
      cases hp
    · exact hcolon hp

theorem WellFormed.notMem_path (h : WellFormed u) {d : Char} (hd : isPlain d = false)
    (hslash : d ≠ '/') : d ∉ tail '/' (pathChars u.path) := by
  intro hc
  rcases h.mem_path hc with hp | hp
  · rw [hd] at hp
    cases hp
  · exact hslash hp

theorem WellFormed.notMem_query (h : WellFormed u) : '#' ∉ tail '?' (chars u.query) := by
  intro hc
  rcases h.mem_query hc with hp | hp
  · exact absurd hp (by decide)
  · exact absurd hp (by decide)

theorem WellFormed.cut_afterScheme (h : WellFormed u) :
    cut '#' (afterScheme u) = (userinfo u ++ hostPort u ++ tail '/' (pathChars u.path) ++
      tail '?' (chars u.query), chars u.fragment) := by
  refine cut_append_tail ?_ _
  rw [List.mem_append, List.mem_append, not_or, not_or]
  exact ⟨⟨h.notMem_authority (by decide) (by decide) (by decide),
    h.notMem_path (by decide) (by decide)⟩, h.notMem_query⟩

theorem WellFormed.cut_query (h : WellFormed u) :
    cut '?' (userinfo u ++ hostPort u ++ tail '/' (pathChars u.path) ++ tail '?' (chars u.query)) =
      (userinfo u ++ hostPort u ++ tail '/' (pathChars u.path), chars u.query) := by
  refine cut_append_tail ?_ _
  rw [List.mem_append, not_or]
  exact ⟨h.notMem_authority (by decide) (by decide) (by decide),
    h.notMem_path (by decide) (by decide)⟩

theorem WellFormed.cut_path (h : WellFormed u) :
    cut '/' (userinfo u ++ hostPort u ++ tail '/' (pathChars u.path)) =
      (userinfo u ++ hostPort u, pathChars u.path) :=
  cut_append_tail (h.notMem_authority (by decide) (by decide) (by decide)) _

theorem WellFormed.notMem_username (h : WellFormed u) {d : Char} (hd : isPlain d = false) :
    d ∉ u.username.toList := by
  intro hc
  have hp := mem_text h.username hc
  rw [hd] at hp
  cases hp

theorem WellFormed.notMem_password (h : WellFormed u) :
    '@' ∉ tail ':' (chars u.password) := by
  intro hc
  rcases mem_tail hc with hp | ⟨as, has, hc⟩
  · exact absurd hp (by decide)
  · exact absurd (mem_chars (all_text h.password) has hc) (by decide)

theorem WellFormed.readAuthority (h : WellFormed u) :
    Plain.readAuthority (userinfo u ++ hostPort u) =
      (u.username.toList, chars u.password, hostPort u) := by
  by_cases hnone : u.username = "" ∧ u.password = none
  · have hat : '@' ∉ hostPort u := by
      intro hc
      rcases h.mem_hostPort hc with hp | hp
      · exact absurd hp (by decide)
      · exact absurd hp (by decide)
    have hcut : cut '@' (hostPort u) = (hostPort u, none) := by
      simpa [tail] using cut_append_tail hat none
    simp [Plain.readAuthority, userinfo, hnone, hcut, chars]
  · have hat : '@' ∉ u.username.toList ++ tail ':' (chars u.password) := by
      rw [List.mem_append, not_or]
      exact ⟨h.notMem_username (by decide), h.notMem_password⟩
    have hcut : cut '@' (userinfo u ++ hostPort u) =
        (u.username.toList ++ tail ':' (chars u.password), some (hostPort u)) := by
      rw [userinfo, if_neg hnone, List.append_assoc]
      exact cut_append_tail hat (some (hostPort u))
    have hcolon : ':' ∉ u.username.toList := h.notMem_username (by decide)
    simp only [Plain.readAuthority, hcut, cut_append_tail hcolon]

theorem readPort_portChars (port : Option UInt16) : readPort (portChars port) = some port := by
  cases port with
  | none => rfl
  | some n =>
    have hlt : Nat.ofDigitChars 10 (Nat.toDigits 10 n.toNat) 0 < 65536 := by
      rw [Nat.ofDigitChars_ten_toDigits]
      exact n.toNat_lt
    have hdigits : (Nat.toDigits 10 n.toNat).all Char.isDigit = true :=
      List.all_eq_true.mpr (fun c hc => Nat.isDigit_of_mem_toDigits (by omega) (by omega) hc)
    have hne : (Nat.toDigits 10 n.toNat).isEmpty = false := by simp
    simp only [portChars, Option.map_some, readPort, hne, hdigits, Nat.not_le.mpr hlt]
    simp [Nat.ofDigitChars_ten_toDigits]

theorem readPath_pathChars {path : String} (h : pathText path = true) :
    readPath (pathChars path) = path := by
  unfold pathText at h
  unfold pathChars
  split at h
  · rename_i hnil
    exact (String.toList_eq_nil_iff.mp hnil).symm
  · rename_i c cs hcons
    simp only [Bool.and_eq_true, beq_iff_eq] at h
    simp only [readPath, ← h.1]
    rw [← hcons, String.ofList_toList]

theorem nonempty_chars {s : Option String} (h : s.all filled = true) : nonempty (chars s) = s := by
  cases s with
  | none => rfl
  | some s =>
    simp only [Option.all_some, filled, Bool.and_eq_true, bne_iff_ne] at h
    have hne : s.toList ≠ [] := fun hnil => h.1 (String.toList_eq_nil_iff.mp hnil)
    simp [nonempty, chars, Option.filter, hne]

theorem WellFormed.cut_hostPort (h : WellFormed u) :
    cut ':' (hostPort u) = ((u.host.getD "").toList, portChars u.port) := by
  refine cut_append_tail ?_ _
  cases hhost : u.host with
  | none => simp
  | some host =>
    have hh := h.host
    rw [hhost] at hh
    exact fun hc => absurd (mem_text (text_of_filled hh) hc) (by decide)

theorem WellFormed.host_getD (h : WellFormed u) :
    nonempty (some (u.host.getD "").toList) = u.host := by
  cases hhost : u.host with
  | none => simp [nonempty, Option.filter]
  | some host =>
    have hh := h.host
    rw [hhost] at hh
    exact nonempty_chars hh

theorem map_chars (s : Option String) : (chars s).map String.ofList = s := by
  cases s <;> simp [chars]

theorem WellFormed.read (h : WellFormed u) :
    Plain.read u.scheme.toList (afterScheme u) = if valid u then .ok u else .error "empty host" := by
  have hu : (⟨String.ofList u.scheme.toList, String.ofList u.username.toList,
      nonempty (chars u.password), nonempty (some (u.host.getD "").toList), u.port,
      readPath (pathChars u.path), (chars u.query).map String.ofList,
      (chars u.fragment).map String.ofList, true, false⟩ : Url) = u := by
    rw [String.ofList_toList, String.ofList_toList, nonempty_chars h.password, h.host_getD,
      readPath_pathChars h.path, map_chars, map_chars, ← h.authority, ← h.cannotBeABase]
  have hwell : wellFormed u = true := (wellFormed_iff u).mpr h
  simp only [Plain.read, build, h.cut_afterScheme, h.cut_query, h.cut_path, h.readAuthority,
    h.cut_hostPort, readPort_portChars, hu, hwell, Bool.true_and]

theorem WellFormed.cut_serialize (h : WellFormed u) :
    cut ':' (serialize u).toList = (u.scheme.toList, some ('/' :: '/' :: afterScheme u)) := by
  have hcolon : ':' ∉ u.scheme.toList := fun hc =>
    absurd (mem_text (text_of_filled h.scheme) hc) (by decide)
  rw [serialize, String.toList_ofList]
  exact cut_append_tail hcolon (some ('/' :: '/' :: afterScheme u))

/-- The parser reads back a well-formed URL, and refuses it where it has no host but
something that needs one. -/
theorem WellFormed.parse_serialize (h : WellFormed u) :
    parse (serialize u) = if valid u then .ok u else .error "empty host" := by
  rw [parse, h.cut_serialize]
  exact h.read

theorem build_ok {scheme : List Char} {authority : List Char × Option (List Char) × List Char}
    {path query fragment : Option (List Char)} (h : build scheme authority path query fragment = .ok u) :
    WellFormed u ∧ valid u = true := by
  unfold build at h
  dsimp only at h
  split at h
  · cases h
  · split at h
    · rename_i hok
      cases h
      rw [Bool.and_eq_true] at hok
      exact ⟨(wellFormed_iff _).mp hok.1, hok.2⟩
    · cases h

theorem parse_ok {s : String} (h : parse s = .ok u) : WellFormed u ∧ valid u = true := by
  unfold parse at h
  split at h
  · exact build_ok h
  · cases h

theorem filled_of_unreserved {s : String} (h : Unreserved s) : filled s = true := by
  simp only [filled, text, Bool.and_eq_true, bne_iff_ne, List.all_eq_true]
  exact ⟨h.nonempty, fun c hc => by simp [isPlain, h.unreserved c hc]⟩

theorem text_encode (s : String) : text (encode s) = true := by
  simp only [text, encode, String.toList_ofList, List.all_eq_true, List.mem_map]
  rintro c ⟨d, _, rfl⟩
  by_cases hd : isPlain d = true
  · simp [hd]
  · simpa [hd] using (by decide : isPlain '~' = true)

theorem encode_of_text {s : String} (h : text s = true) : encode s = s := by
  have hmap : s.toList.map (fun c => if isPlain c then c else '~') = s.toList := by
    conv_rhs => rw [← List.map_id s.toList]
    exact List.map_congr_left (fun c hc => by simp [mem_text h hc])
  rw [encode, hmap, String.ofList_toList]

theorem filled_encode {s : String} (h : s ≠ "") : filled (encode s) = true := by
  have hne : encode s ≠ "" := by
    intro he
    have hlen := congrArg (fun t => t.toList.length) he
    simp only [encode, String.toList_ofList, List.length_map] at hlen
    exact h (String.toList_eq_nil_iff.mp (List.length_eq_zero_iff.mp hlen))
  simp [filled, hne, text_encode]

theorem pathText_encodePath (path : String) : pathText (encodePath path) = true := by
  simp only [pathText, encodePath, String.toList_ofList, Bool.and_eq_true, beq_self_eq_true,
    List.all_eq_true, List.mem_map, true_and]
  rintro c ⟨d, _, rfl⟩
  by_cases hd : (isPlain d || d == '/') = true
  · simp [hd]
  · simpa [hd] using (Or.inl (by decide) : isPlain '~' = true ∨ '~' = '/')

theorem made_wellFormed (h : library.Made u) : WellFormed u := by
  induction h with
  | parse h => exact (parse_ok h).1
  | setScheme h hv ih =>
    simp only [library] at hv
    split at hv
    · rename_i hs
      simp only [Bool.and_eq_true, bne_iff_ne] at hs
      cases hv
      exact { ih with scheme := hs.1, file := .inr hs.2 }
    · cases hv
  | @setHost u v host h hv ih =>
    simp only [library] at hv
    split at hv
    · rename_i hs
      simp only [Bool.and_eq_true] at hs
      cases hv
      refine { ih with host := ?_, authority := rfl }
      by_cases hempty : host = ""
      · simp [hempty]
      · simp [hempty, filled, hs.1]
    · cases hv
  | setPort h hv ih =>
    simp only [library] at hv
    split at hv
    · cases hv
    · cases hv
      exact { ih with }
  | @setPassword u v password h hv ih =>
    simp only [library] at hv
    split at hv
    · cases hv
    · rename_i hs
      cases hv
      refine { ih with password := ?_, file := .inr (fun he => hs (.inr he)) }
      by_cases hempty : password = ""
      · simp [hempty]
      · simp [hempty, filled_encode]
  | setPath h hs ih => exact { ih with path := pathText_encodePath _ }
  | setFragment h hf ih => exact { ih with fragment := text_encode _ }

theorem toList_withUserinfo (scheme user password rest : String) :
    (withUserinfo scheme user password rest).toList =
      scheme.toList ++ tail ':' (some ('/' :: '/' :: ((user.toList ++ ':' :: password.toList ++ ['@']) ++
        rest.toList))) := by
  simp [withUserinfo, tail]

theorem notMem_user {scheme user : String} (h : BeforePassword scheme user) {d : Char}
    (hd : ['/', '?', '#', ':'].contains d = true) : d ∉ user.toList := fun hc => by
  rw [h.delimiter d hc] at hd
  cases hd

theorem notMem_unreserved {s : String} (h : Unreserved s) {d : Char} (hd : isUnreserved d = false) :
    d ∉ s.toList := fun hc => by
  rw [h.unreserved d hc] at hd
  cases hd

theorem read_userinfo {scheme user password : String} (hb : BeforePassword scheme user)
    (hp : Unreserved password) (cs rest : List Char) :
    read cs ((user.toList ++ ':' :: password.toList ++ ['@']) ++ rest) =
      build cs (readAuthority ((user.toList ++ ':' :: password.toList ++ ['@']) ++
          (cut '/' (cut '?' (cut '#' rest).1).1).1))
        (cut '/' (cut '?' (cut '#' rest).1).1).2 (cut '?' (cut '#' rest).1).2 (cut '#' rest).2 := by
  have hfree : ∀ d, ['/', '?', '#', ':'].contains d = true → d ≠ ':' → d ≠ '@' →
      isUnreserved d = false → d ∉ user.toList ++ ':' :: password.toList ++ ['@'] := by
    intro d hd hcolon hat hun
    simp only [List.mem_append, List.mem_cons, not_or]
    exact ⟨⟨notMem_user hb hd, hcolon, notMem_unreserved hp hun⟩, hat, List.not_mem_nil⟩
  simp only [read, cut_append (hfree '#' (by decide) (by decide) (by decide) (by decide)),
    cut_append (hfree '?' (by decide) (by decide) (by decide) (by decide)),
    cut_append (hfree '/' (by decide) (by decide) (by decide) (by decide))]

theorem cut_mem {d : Char} {as : List Char} (h : d ∈ as) (bs : List Char) :
    ∃ cs, (∀ c ∈ cs, c ∈ as) ∧ cut d (as ++ bs) = ((cut d as).1, some (cs ++ bs)) := by
  induction as with
  | nil => cases h
  | cons a as ih =>
    by_cases ha : a = d
    · exact ⟨as, fun c hc => List.mem_cons_of_mem a hc, by simp [cut, ha]⟩
    · obtain ⟨cs, hsub, hcut⟩ := ih ((List.mem_cons.mp h).resolve_left (Ne.symm ha))
      exact ⟨cs, fun c hc => List.mem_cons_of_mem a (hsub c hc), by simp [cut, ha, hcut]⟩

/-- Where the user holds an `@`, the password would be part of the port. -/
theorem build_at {user password : List Char} (hcolon : ':' ∉ user) (hat : '@' ∈ user)
    (cs r : List Char) (path query fragment : Option (List Char)) :
    build cs (readAuthority ((user ++ ':' :: password ++ ['@']) ++ r)) path query fragment =
      .error "invalid port number" := by
  obtain ⟨as, hsub, hcut⟩ := cut_mem hat (':' :: (password ++ ['@'] ++ r))
  have hshape : (user ++ ':' :: password ++ ['@']) ++ r = user ++ ':' :: (password ++ ['@'] ++ r) := by
    simp
  have hhost : cut ':' (as ++ ':' :: (password ++ ['@'] ++ r)) = (as, some (password ++ ['@'] ++ r)) :=
    cut_append_tail (fun hc => hcolon (hsub ':' hc)) (some (password ++ ['@'] ++ r))
  have hport : readPort (some (password ++ ['@'] ++ r)) = none := by
    have hdigits : (password ++ ['@'] ++ r).all Char.isDigit = false := by
      rw [List.all_eq_false]
      exact ⟨'@', by simp, by decide⟩
    simp only [readPort, hdigits]
    simp
  simp only [readAuthority, hshape, hcut, build, hhost, hport]

theorem readAuthority_userinfo {user password : List Char} (hcolon : ':' ∉ user) (hat : '@' ∉ user)
    (hp : '@' ∉ password) (r : List Char) :
    readAuthority ((user ++ ':' :: password ++ ['@']) ++ r) = (user, some password, r) := by
  have hnone : '@' ∉ user ++ ':' :: password := by
    simp [hat, hp]
  have hcut : cut '@' ((user ++ ':' :: password ++ ['@']) ++ r) = (user ++ ':' :: password, some r) := by
    rw [List.append_assoc]
    exact cut_append_tail hnone (some r)
  have huser : cut ':' (user ++ ':' :: password) = (user, some password) :=
    cut_append_tail hcolon (some password)
  simp only [readAuthority, hcut, huser]

theorem WellFormed.withPassword (h : WellFormed u) (hu : u.password ≠ none) {p : String}
    (hp : filled p = true) : WellFormed (u.withPassword p) :=
  { h with password := hp, file := .inr (h.file.resolve_left hu) }

theorem valid_withPassword (p : String) (h : valid u = true) (hu : u.password ≠ none) :
    valid (u.withPassword p) = true := by
  simp only [valid, Bool.or_eq_true, Bool.and_eq_true, Option.isNone_iff_eq_none] at h
  have hhost : u.host.isSome = true := h.resolve_right (fun hn => hu hn.1.2)
  simp [valid, Url.withPassword, hhost]

theorem build_password {cs user password password' r : List Char}
    {path query fragment : Option (List Char)} (hne : password ≠ [])
    (hfilled : filled (String.ofList password') = true)
    (h : build cs (user, some password, r) path query fragment = .ok u) :
    u.password = some (String.ofList password) ∧
      build cs (user, some password', r) path query fragment =
        .ok (u.withPassword (String.ofList password')) := by
  have hne' : password' ≠ [] := by
    rintro rfl
    simp [filled] at hfilled
  have hsome : nonempty (some password) = some (String.ofList password) := by
    simp [nonempty, Option.filter, hne]
  have hsome' : nonempty (some password') = some (String.ofList password') := by
    simp [nonempty, Option.filter, hne']
  obtain ⟨hwell, hvalid⟩ := build_ok h
  simp only [build, hsome, hsome'] at h ⊢
  split at h
  · cases h
  · rename_i port hport
    split at h
    · cases h
      have hwell' := (wellFormed_iff _).mpr (hwell.withPassword (by simp) hfilled)
      have hvalid' := valid_withPassword (String.ofList password') hvalid (by simp)
      exact ⟨rfl, if_pos (by rw [Bool.and_eq_true]; exact ⟨hwell', hvalid'⟩)⟩
    · cases h

theorem parse_password {scheme user password password' rest : String}
    (hb : BeforePassword scheme user) (hp : Unreserved password) (hp' : Unreserved password')
    (h : parse (withUserinfo scheme user password rest) = .ok u) :
    u.password = some password ∧
      parse (withUserinfo scheme user password' rest) = .ok (u.withPassword password') := by
  have hread : ∀ pw, Unreserved pw → parse (withUserinfo scheme user pw rest) =
      read scheme.toList ((user.toList ++ ':' :: pw.toList ++ ['@']) ++ rest.toList) := by
    intro pw hpw
    rw [parse, toList_withUserinfo, cut_append_tail hb.colon]
    rfl
  have hcolon : ':' ∉ user.toList := notMem_user hb (by decide)
  have hat : ∀ pw, Unreserved pw → '@' ∉ pw.toList := fun pw hpw =>
    notMem_unreserved hpw (by decide)
  rw [hread password hp, read_userinfo hb hp] at h
  rw [hread password' hp', read_userinfo hb hp']
  by_cases huser : '@' ∈ user.toList
  · rw [build_at hcolon huser] at h
    cases h
  · rw [readAuthority_userinfo hcolon huser (hat password hp)] at h
    rw [readAuthority_userinfo hcolon huser (hat password' hp')]
    have hne : password.toList ≠ [] := fun hnil => hp.nonempty (String.toList_eq_nil_iff.mp hnil)
    have hfilled : filled (String.ofList password'.toList) = true := by
      rw [String.ofList_toList]
      exact filled_of_unreserved hp'
    simpa [String.ofList_toList] using build_password hne hfilled h

theorem serialize_password {p q : String} (hp : u.password = some p)
    (h : serialize (u.withPassword q) = serialize u) : q = p := by
  have hchars := congrArg String.toList h
  simp only [serialize, String.toList_ofList, Url.withPassword, afterScheme, userinfo, hp,
    reduceCtorEq, and_false, if_false, chars, Option.map_some, hostPort, tail, List.append_assoc,
    List.append_cancel_left_eq, List.cons_append, List.cons.injEq, true_and] at hchars
  exact String.toList_inj.mp (List.append_cancel_right hchars)

theorem schemeOf_serialize (h : WellFormed u) : schemeOf (serialize u) = u.scheme := by
  have hcolon : ∀ c ∈ u.scheme.toList, decide (c ≠ ':') = true := fun c hc => by
    rw [decide_eq_true_eq]
    rintro rfl
    exact absurd (mem_text (text_of_filled h.scheme) hc) (by decide)
  rw [schemeOf, serialize, String.toList_ofList, List.takeWhile_append_of_pos hcolon]
  simp

theorem hosted_iff : u.Hosted ↔ ¬ (u.host = none ∨ u.scheme = "file") := by
  rw [not_or]
  exact ⟨fun h => ⟨h.host, h.scheme⟩, fun h => ⟨h.1, h.2⟩⟩

end WellFormed

section Library

variable {u v : Url}

theorem library_parse (s : String) : library.parse s = parse s := rfl

theorem library_serialize (u : Url) : library.serialize u = serialize u := rfl

theorem setScheme_ok {s : String} (hs : special s = false) (hne : s ≠ "")
    (hlower : ∀ c ∈ s.toList, c.isLower = true) : (library.setScheme u s).isSome = true := by
  have hfile : s ≠ "file" := by
    rintro rfl
    exact absurd hs (by decide)
  have htext : text s = true := List.all_eq_true.mpr (fun c hc => by
    simp [isPlain, isUnreserved, Char.isAlphanum, Char.isAlpha, hlower c hc])
  simp [library, filled, hne, htext, hfile]

theorem setPassword_hosted {password : String} (hu : u.Hosted) (hne : password ≠ "") :
    library.setPassword u password = some (u.withPassword (encode password)) := by
  simp only [library, if_neg (hosted_iff.mp hu), hne, if_false]
  rfl

theorem setFragment_unreserved {fragment : String} (hf : Unreserved fragment) :
    library.setFragment u fragment = { u with fragment := some fragment } := by
  have htext := text_of_filled (filled_of_unreserved hf)
  simp only [library, encode_of_text htext]

theorem setScheme_blind (s : String) : UrlLibrary.Blind (library.setScheme · s) := by
  intro u q _
  simp only [library, Url.withPassword]
  split <;> rfl

theorem setHost_blind (host : String) : UrlLibrary.Blind (library.setHost · host) := by
  intro u q _
  simp only [library, Url.withPassword]
  split <;> rfl

theorem setPort_blind (port : UInt16) : UrlLibrary.Blind (library.setPort · port) := by
  intro u q _
  simp only [library, Url.withPassword]
  split <;> rfl

theorem parse_hosted {s : String} (h : parse s = .ok u) (hu : u.password ≠ none) : u.Hosted := by
  obtain ⟨hwell, hvalid⟩ := parse_ok h
  simp only [valid, Bool.or_eq_true, Bool.and_eq_true, Option.isNone_iff_eq_none] at hvalid
  have hhost := hvalid.resolve_right (fun hn => hu hn.1.2)
  exact ⟨Option.isSome_iff_ne_none.mp hhost, hwell.file.resolve_left hu⟩

theorem reparse_hosted (h : library.Made u) (hu : u.Hosted) : parse (serialize u) = .ok u := by
  have hvalid : valid u = true := by simp [valid, Option.isSome_iff_ne_none, hu.host]
  rw [(made_wellFormed h).parse_serialize, if_pos hvalid]

theorem reparse_hostless (h : library.Made u) (hp : u.password ≠ none) (hu : u.host = none) :
    parse (serialize u) ≠ .ok v := by
  have hvalid : ¬ valid u = true := by simp [valid, hu, hp]
  rw [(made_wellFormed h).parse_serialize, if_neg hvalid]
  simp

theorem reparse_eq (h : library.Made u) (hv : parse (serialize u) = .ok v) : v = u := by
  rw [(made_wellFormed h).parse_serialize] at hv
  split at hv <;> cases hv
  rfl

end Library

theorem library_lawful : library.Lawful where
  setScheme_only := by
    intro u v s _ hv
    simp only [library] at hv
    split at hv <;> cases hv
    exact ⟨u.port, rfl⟩
  setScheme_ok _ hs hne hlower := setScheme_ok hs hne hlower
  setHost_only := by
    intro u v host hv
    simp only [library] at hv
    split at hv <;> cases hv
    exact ⟨_, rfl⟩
  setPort_only := by
    intro u v port hv
    simp only [library] at hv
    split at hv <;> cases hv
    exact ⟨_, rfl⟩
  setPort_hostless port hu := by simp [library, hu]
  setPassword_only := by
    intro u v password hv
    simp only [library] at hv
    split at hv <;> cases hv
    exact ⟨_, rfl⟩
  setPassword_refused := by
    intro u password hu
    rw [hosted_iff, not_not] at hu
    simp [library, hu]
  setPassword_hosted hu hne := setPassword_hosted hu hne
  setPassword_empty hu := by simp [library, if_neg (hosted_iff.mp hu)]
  setPath_only u p := ⟨_, rfl⟩
  setFragment_unreserved hf := setFragment_unreserved hf
  setScheme_blind := setScheme_blind
  setHost_blind := setHost_blind
  setPort_blind := setPort_blind
  setPath_blind p u q _ := rfl
  parse_hosted := by
    intro s u h hu
    rw [library_parse] at h
    exact parse_hosted h hu
  parse_password := by
    intro scheme user password password' rest u hb hp hp' h
    rw [library_parse] at h
    obtain ⟨hu, hparse⟩ := parse_password hb hp hp' h
    exact ⟨password, password', hu, id, by rw [library_parse, hparse]⟩
  reparse_hosted := by
    intro u h hu _
    rw [library_parse, library_serialize, reparse_hosted h hu]
  reparse_hostless := by
    intro u v h hp hu
    rw [library_parse, library_serialize]
    exact reparse_hostless h hp hu
  reparse_keeps := by
    intro u v h hv
    rw [library_parse, library_serialize] at hv
    obtain rfl := reparse_eq h hv
    exact ⟨rfl, rfl⟩
  serialize_scheme := by
    intro u h
    rw [library_serialize, schemeOf_serialize (made_wellFormed h)]
  serialize_password := by
    intro u p q _ hp h
    rw [library_serialize, library_serialize] at h
    exact serialize_password hp h

end Web.Plain
