import ResqueBench.Trial
import ResqueBench.Decimal

/-! The values of `--latency-percentiles`. The divisor of a quantile is taken from the
length of its text, the numerator from the integer parser of the standard library,
and that parser takes a sign which is no digit. -/

namespace ResqueBench

open Nat (ofDigitChars)

inductive Failure
  | panicked
  | bailed (texts : List String) -- the outermost context first
deriving DecidableEq, Repr

/-- `anyhow::ensure!`. -/
def ensure (cond : Prop) [Decidable cond] (text : String) : Except Failure Unit :=
  if cond then .ok () else .error (.bailed [text])

def byteLen (cs : List Char) : Nat := (cs.map Char.utf8Size).sum

/-- `&s[k..]`, which panics inside of a character. -/
def sliceFrom : List Char → Nat → Except Failure (List Char)
  | cs, 0 => .ok cs
  | [], _ + 1 => .error .panicked
  | c :: cs, k + 1 =>
    if c.utf8Size ≤ k + 1 then sliceFrom cs (k + 1 - c.utf8Size) else .error .panicked

/-- The loop of `u64::from_str`: it ends at the first bad digit or overflow. -/
def u64FromDigits (acc : Nat) : List Char → Except String Nat
  | [] => .ok acc
  | c :: cs =>
    if c.isDigit then
      if 10 * acc + (c.toNat - 48) < 2 ^ 64 then u64FromDigits (10 * acc + (c.toNat - 48)) cs
      else .error "number too large to fit in target type"
    else .error "invalid digit found in string"

def u64FromStr : List Char → Except String Nat
  | [] => .error "cannot parse integer from empty string"
  | c :: cs =>
    if cs = [] ∧ (c = '+' ∨ c = '-') then .error "invalid digit found in string"
    else if c = '+' then u64FromDigits 0 cs
    else u64FromDigits 0 (c :: cs)

/-- `u64::checked_pow`. -/
def checkedPow (base exp : Nat) : Option Nat :=
  if base ^ exp < 2 ^ 64 then some (base ^ exp) else none

def parsePercentileSpec (s : String) : Except Failure PercentileSpec :=
  if s = "max" then .ok .max
  else if s = "mean" then .ok .mean
  else if s.toList.head? = some 'p' then do
    let digits ← sliceFrom s.toList 1
    ensure (digits ≠ []) ("invalid percentile spec: '" ++ s ++ "'")
    ensure (byteLen digits ≤ 15) ("percentile spec '" ++ s ++
      "' has too many digits (max 15) — use e.g. p99, p999, p99999")
    let n ← (u64FromStr digits).mapError
      (fun cause => .bailed ["invalid percentile spec: '" ++ s ++ "'", cause])
    let divisor ← (checkedPow 10 (byteLen digits % 2 ^ 32)).elim
      (.error (.bailed ["percentile spec '" ++ s ++ "' out of range"])) .ok
    -- both are exact as `f64`, and rounding keeps a quotient on its side of 0 and of 1
    let q : Rat := n / divisor
    ensure (0 < q ∧ q ≤ 1) ("percentile out of range (0, 1]: '" ++ s ++ "'")
    return .quantile s q
  else .error (.bailed ["unknown percentile spec '" ++ s ++
    "' — use p50, p99, p999, max, mean"])

section Digits

variable {s : String} {cs ds : List Char} {n acc : Nat} {spec : PercentileSpec}

theorem u64FromDigits_ok_iff (hacc : acc < 2 ^ 64) : u64FromDigits acc cs = .ok n ↔
    (∀ c ∈ cs, c.isDigit = true) ∧ ofDigitChars 10 cs acc = n ∧ n < 2 ^ 64 := by
  induction cs generalizing acc with
  | nil => simp [u64FromDigits]; omega
  | cons c cs ih =>
    have hstep : ofDigitChars 10 (c :: cs) acc = ofDigitChars 10 cs (10 * acc + (c.toNat - 48)) :=
      rfl
    have hle := Decimal.le_ofDigitChars (10 * acc + (c.toNat - 48)) cs
    rw [u64FromDigits, List.forall_mem_cons, hstep]
    by_cases hc : c.isDigit = true
    · rw [if_pos hc]
      by_cases hlt : 10 * acc + (c.toNat - 48) < 2 ^ 64
      · rw [if_pos hlt, ih hlt]
        simp [hc]
      · rw [if_neg hlt]
        constructor
        · intro h
          cases h
        · rintro ⟨_, hn, hbound⟩
          omega
    · rw [if_neg hc]
      constructor
      · intro h
        cases h
      · intro h
        exact absurd h.1.1 hc

theorem u64FromStr_ok_iff : u64FromStr cs = .ok n ↔ ∃ ds, (cs = ds ∨ cs = '+' :: ds) ∧ ds ≠ [] ∧
    (∀ c ∈ ds, c.isDigit = true) ∧ ofDigitChars 10 ds 0 = n ∧ n < 2 ^ 64 := by
  cases cs with
  | nil => simp [u64FromStr]
  | cons c cs =>
    rw [u64FromStr]
    by_cases hsign : cs = [] ∧ (c = '+' ∨ c = '-')
    · rw [if_pos hsign]
      obtain ⟨rfl, rfl | rfl⟩ := hsign <;> simp
    · rw [if_neg hsign]
      by_cases hplus : c = '+'
      · subst hplus
        have hne : cs ≠ [] := fun he => hsign ⟨he, .inl rfl⟩
        rw [if_pos rfl, u64FromDigits_ok_iff (by omega)]
        simp [hne]
      · rw [if_neg hplus, u64FromDigits_ok_iff (by omega)]
        simp [hplus]

theorem byteLen_of_digits (h : ∀ c ∈ cs, c.isDigit = true) : byteLen cs = cs.length := by
  induction cs with
  | nil => rfl
  | cons c cs ih =>
    have hrest := ih (fun d hd => h d (List.mem_cons_of_mem c hd))
    have hdigit := Decimal.isDigit_iff.mp (h c List.mem_cons_self)
    have hsize : c.utf8Size = 1 :=
      Char.utf8Size_eq_one_iff.mpr (UInt32.le_iff_toNat_le.mpr (by show c.toNat ≤ 127; omega))
    rw [byteLen, List.map_cons, List.sum_cons, hsize, List.length_cons, ← hrest, byteLen]
    omega

theorem byteLen_plus (cs : List Char) : byteLen ('+' :: cs) = byteLen cs + 1 := by
  rw [byteLen, List.map_cons, List.sum_cons, Nat.add_comm]
  rfl

/-- What is read after the `p` of an accepted text. -/
structure Numerator (cs : List Char) (n : Nat) : Prop where
  short : byteLen cs ≤ 15
  read : u64FromStr cs = .ok n
  pos : 0 < n
  le : n ≤ 10 ^ byteLen cs

theorem parsePercentileSpec_p (hs : s.toList = 'p' :: cs) :
    (∃ n, Numerator cs n ∧
      parsePercentileSpec s = .ok (.quantile s (n / (10 ^ byteLen cs : Nat)))) ∨
    (∀ n, ¬ Numerator cs n) ∧ ∃ texts, parsePercentileSpec s = .error (.bailed texts) := by
  have hmax : s ≠ "max" := by
    rintro rfl
    simp at hs
  have hmean : s ≠ "mean" := by
    rintro rfl
    simp at hs
  have hslice : sliceFrom s.toList 1 = .ok cs := by
    have hsize : 'p'.utf8Size = 1 := by decide
    simp [hs, sliceFrom, hsize]
  rw [parsePercentileSpec, if_neg hmax, if_neg hmean, if_pos (by rw [hs]; rfl), hslice]
  simp only [bind, Except.bind, ensure]
  by_cases hne : cs = []
  · exact .inr ⟨fun n h => by simpa [hne, u64FromStr] using h.read, by simp [hne]⟩
  rw [if_pos hne]
  by_cases hlen : byteLen cs ≤ 15
  swap
  · exact .inr ⟨fun n h => hlen h.short, by simp [hlen]⟩
  rw [if_pos hlen]
  have hpow : checkedPow 10 (byteLen cs % 2 ^ 32) = some (10 ^ byteLen cs) := by
    have hle : 10 ^ byteLen cs ≤ 10 ^ 15 := Nat.pow_le_pow_right (by omega) hlen
    rw [Nat.mod_eq_of_lt (by omega), checkedPow, if_pos (by omega)]
  cases hn : u64FromStr cs with
  | error cause => exact .inr ⟨fun n h => by simpa [hn] using h.read, by simp [Except.mapError]⟩
  | ok n =>
    have hpos : (0 : Rat) < (10 ^ byteLen cs : Nat) := by positivity
    have hrange : (0 < (n : Rat) / (10 ^ byteLen cs : Nat) ∧
        (n : Rat) / (10 ^ byteLen cs : Nat) ≤ 1) ↔ 0 < n ∧ n ≤ 10 ^ byteLen cs := by
      rw [div_pos_iff_of_pos_right hpos, div_le_one hpos, Nat.cast_pos, Nat.cast_le]
    simp only [Except.mapError, hpow, Option.elim_some]
    by_cases hq : 0 < n ∧ n ≤ 10 ^ byteLen cs
    · rw [if_pos (hrange.mpr hq)]
      exact .inl ⟨n, ⟨hlen, hn, hq.1, hq.2⟩, rfl⟩
    · rw [if_neg (mt hrange.mp hq)]
      refine .inr ⟨fun m h => hq ?_, _, rfl⟩
      cases hn.symm.trans h.read
      exact ⟨h.pos, h.le⟩

/-- Digits for at most `most` decimal places, not all of them zero. -/
structure Places (most : Nat) (ds : List Char) : Prop where
  nonempty : ds ≠ []
  short : ds.length ≤ most
  digits : ∀ c ∈ ds, c.isDigit = true
  nonzero : ∃ c ∈ ds, c ≠ '0'

theorem Places.fraction_pos {most : Nat} (h : Places most ds) : 0 < Decimal.fraction ds :=
  (Decimal.fraction_pos_iff h.digits).mpr h.nonzero

theorem Places.numerator_pos {most : Nat} (h : Places most ds) : 0 < ofDigitChars 10 ds 0 := by
  obtain ⟨c, hc, hne⟩ := h.nonzero
  rw [Nat.pos_iff_ne_zero, Ne, Decimal.ofDigitChars_eq_zero_iff h.digits]
  exact fun hzero => hne (hzero c hc)

theorem Places.read {most : Nat} (h : Places most ds) (hmost : most ≤ 15)
    (hcs : cs = ds ∨ cs = '+' :: ds) : u64FromStr cs = .ok (ofDigitChars 10 ds 0) := by
  have hlt := Decimal.ofDigitChars_lt h.digits
  have hpow : 10 ^ ds.length ≤ 10 ^ 15 := Nat.pow_le_pow_right (by omega) (h.short.trans hmost)
  exact u64FromStr_ok_iff.mpr ⟨ds, hcs, h.nonempty, h.digits, rfl, by omega⟩

theorem Places.append_zeros {most k : Nat} (h : Places most ds) (hk : ds.length + k ≤ most) :
    Places most (ds ++ List.replicate k '0') where
  nonempty := by simp [h.nonempty]
  short := by simpa using hk
  digits c hc := by
    rcases List.mem_append.mp hc with hc | hc
    · exact h.digits c hc
    · rw [List.eq_of_mem_replicate hc]
      rfl
  nonzero := by
    obtain ⟨c, hc, hne⟩ := h.nonzero
    exact ⟨c, List.mem_append_left _ hc, hne⟩

theorem numerator_iff : Numerator cs n ↔
    ∃ ds, (cs = ds ∧ Places 15 ds ∨ cs = '+' :: ds ∧ Places 14 ds) ∧ ofDigitChars 10 ds 0 = n := by
  constructor
  · intro h
    obtain ⟨ds, hcs, hne, hdigits, rfl, _⟩ := u64FromStr_ok_iff.mp h.read
    have hlen := h.short
    have hnonzero : ∃ c ∈ ds, c ≠ '0' := by
      by_contra hall
      push Not at hall
      have hzero := (Decimal.ofDigitChars_eq_zero_iff hdigits).mpr hall
      exact absurd hzero h.pos.ne'
    refine ⟨ds, ?_, rfl⟩
    rcases hcs with rfl | rfl
    · rw [byteLen_of_digits hdigits] at hlen
      exact .inl ⟨rfl, hne, hlen, hdigits, hnonzero⟩
    · rw [byteLen_plus, byteLen_of_digits hdigits] at hlen
      exact .inr ⟨rfl, hne, by omega, hdigits, hnonzero⟩
  · rintro ⟨ds, ⟨rfl, h⟩ | ⟨rfl, h⟩, rfl⟩
    · have hlen := byteLen_of_digits h.digits
      refine ⟨hlen ▸ h.short, h.read le_rfl (.inl rfl), h.numerator_pos, ?_⟩
      rw [hlen]
      exact (Decimal.ofDigitChars_lt h.digits).le
    · have hlen := (byteLen_plus ds).trans (congrArg (· + 1) (byteLen_of_digits h.digits))
      refine ⟨?_, h.read (Nat.le_succ 14) (.inr rfl), h.numerator_pos, ?_⟩
      · have hshort := h.short
        omega
      · rw [hlen, Nat.pow_succ]
        have hlt := Decimal.ofDigitChars_lt h.digits
        omega

/-- The documented values and what they mean. -/
inductive Percentile : String → PercentileSpec → Prop
  | max : Percentile "max" .max
  | mean : Percentile "mean" .mean
  | quantile (s : String) (ds : List Char) (hs : s.toList = 'p' :: ds) (h : Places 15 ds) :
      Percentile s (.quantile s (Decimal.fraction ds))

def PlusSigned (s : String) : Prop := ∃ ds, s.toList = 'p' :: '+' :: ds ∧ Places 14 ds

theorem PlusSigned.notMem_percentile (h : PlusSigned s) (spec : PercentileSpec) :
    ¬ Percentile s spec := by
  obtain ⟨ds, hs, -⟩ := h
  intro hp
  cases hp with
  | max | mean => simp at hs
  | quantile _ ds' hs' hplaces =>
    have hplus : '+' ∈ ds' := by
      rw [hs, List.cons.injEq] at hs'
      rw [← hs'.2]
      exact List.mem_cons_self
    exact absurd (hplaces.digits _ hplus) (by decide)

theorem parsePercentileSpec_numerator (hs : s.toList = 'p' :: cs) (h : Numerator cs n) :
    parsePercentileSpec s = .ok (.quantile s (n / (10 ^ byteLen cs : Nat))) := by
  rcases parsePercentileSpec_p hs with ⟨m, hm, hparse⟩ | ⟨hnone, _⟩
  · cases hm.read.symm.trans h.read
    exact hparse
  · exact absurd h (hnone n)

/-- A sign counts as a decimal place of the divisor. -/
theorem parsePercentileSpec_plus (hs : s.toList = 'p' :: '+' :: ds) (h : Places 14 ds) :
    parsePercentileSpec s = .ok (.quantile s (Decimal.fraction ds / 10)) := by
  have hnum := numerator_iff.mpr ⟨ds, .inr ⟨rfl, h⟩, rfl⟩
  rw [parsePercentileSpec_numerator hs hnum, byteLen_plus, byteLen_of_digits h.digits,
    Decimal.fraction_eq]
  push_cast
  rw [pow_succ, div_div]

theorem parsePercentileSpec_digits (hs : s.toList = 'p' :: ds) (h : Places 15 ds) :
    parsePercentileSpec s = .ok (.quantile s (Decimal.fraction ds)) := by
  have hnum := numerator_iff.mpr ⟨ds, .inl ⟨rfl, h⟩, rfl⟩
  rw [parsePercentileSpec_numerator hs hnum, byteLen_of_digits h.digits, Decimal.fraction_eq]
  push_cast
  rfl

/-- Everything that the parser can do with a text. -/
inductive Parsed (s : String) : Except Failure PercentileSpec → Prop
  | percentile (spec : PercentileSpec) (h : Percentile s spec) : Parsed s (.ok spec)
  | plus (ds : List Char) (hs : s.toList = 'p' :: '+' :: ds) (h : Places 14 ds) :
      Parsed s (.ok (.quantile s (Decimal.fraction ds / 10)))
  | bailed (texts : List String) (h : ∀ spec, ¬ Percentile s spec) (hplus : ¬ PlusSigned s) :
      Parsed s (.error (.bailed texts))

theorem parsePercentileSpec_parsed (s : String) : Parsed s (parsePercentileSpec s) := by
  by_cases hplus : PlusSigned s
  · obtain ⟨ds, hs, h⟩ := hplus
    rw [parsePercentileSpec_plus hs h]
    exact .plus ds hs h
  by_cases hmax : s = "max"
  · subst hmax
    exact .percentile .max .max
  by_cases hmean : s = "mean"
  · subst hmean
    exact .percentile .mean .mean
  by_cases hp : s.toList.head? = some 'p'
  · obtain ⟨cs, hs⟩ := List.head?_eq_some_iff.mp hp
    rcases parsePercentileSpec_p hs with ⟨n, hn, _⟩ | ⟨hnone, texts, hparse⟩
    · obtain ⟨ds, ⟨rfl, h⟩ | ⟨rfl, h⟩, rfl⟩ := numerator_iff.mp hn
      · rw [parsePercentileSpec_digits hs h]
        exact .percentile _ (.quantile s cs hs h)
      · exact absurd ⟨ds, hs, h⟩ hplus
    · rw [hparse]
      refine .bailed texts (fun spec hspec => ?_) hplus
      cases hspec with
      | max => exact hmax rfl
      | mean => exact hmean rfl
      | quantile _ ds hs' h =>
        cases hs.symm.trans hs'
        exact hnone _ (numerator_iff.mpr ⟨cs, .inl ⟨rfl, h⟩, rfl⟩)
  · rw [parsePercentileSpec, if_neg hmax, if_neg hmean, if_neg hp]
    refine .bailed _ (fun spec hspec => ?_) hplus
    cases hspec with
    | max => exact hmax rfl
    | mean => exact hmean rfl
    | quantile _ ds hs h => exact hp (by rw [hs]; rfl)

theorem parsePercentileSpec_ok_iff (hplus : ¬ PlusSigned s) :
    parsePercentileSpec s = .ok spec ↔ Percentile s spec := by
  have hparsed := parsePercentileSpec_parsed s
  constructor
  · intro h
    rw [h] at hparsed
    cases hparsed with
    | percentile _ h => exact h
    | plus ds hs hplaces => exact absurd ⟨ds, hs, hplaces⟩ hplus
  · intro h
    cases h with
    | max => rfl
    | mean => rfl
    | quantile _ ds hs h => exact parsePercentileSpec_digits hs h

end Digits

theorem name_of_parsed {s : String} {spec : PercentileSpec}
    (h : parsePercentileSpec s = .ok spec) : spec.name = s := by
  have hparsed := parsePercentileSpec_parsed s
  rw [h] at hparsed
  cases hparsed with
  | percentile _ h => cases h <;> rfl
  | plus ds hs h => rfl

/-- What the documentation promises of a text. -/
structure AcceptsExactly (s : String) : Prop where
  clean : parsePercentileSpec s ≠ .error .panicked
  accepted : ∀ spec, parsePercentileSpec s = .ok spec ↔ Percentile s spec
  between : ∀ name q, parsePercentileSpec s = .ok (.quantile name q) → name = s ∧ 0 < q ∧ q < 1
  zeros : ∀ name q k, parsePercentileSpec s = .ok (.quantile name q) → s.toList.length + k ≤ 16 →
    parsePercentileSpec (s ++ String.ofList (List.replicate k '0')) =
      .ok (.quantile (s ++ String.ofList (List.replicate k '0')) q)

/-- The parser meets its grammar on every text but those with a sign after the `p`. -/
theorem percentile_grammar_iff (s : String) : AcceptsExactly s ↔ ¬ PlusSigned s := by
  constructor
  · rintro h ⟨ds, hs, hplaces⟩
    have hspec := (h.accepted _).mp (parsePercentileSpec_plus hs hplaces)
    exact PlusSigned.notMem_percentile ⟨ds, hs, hplaces⟩ _ hspec
  · intro hplus
    refine ⟨fun hpanic => ?_, fun _ => parsePercentileSpec_ok_iff hplus, fun name q h => ?_,
      fun name q k h hk => ?_⟩
    · have hparsed := parsePercentileSpec_parsed s
      rw [hpanic] at hparsed
      cases hparsed
    · cases (parsePercentileSpec_ok_iff hplus).mp h with
      | quantile _ ds hs hplaces =>
        exact ⟨rfl, hplaces.fraction_pos, Decimal.fraction_lt_one hplaces.digits⟩
    · cases (parsePercentileSpec_ok_iff hplus).mp h with
      | quantile _ ds hs hplaces =>
        rw [← Decimal.fraction_append_zeros ds k]
        refine parsePercentileSpec_digits ?_ (hplaces.append_zeros ?_)
        · rw [String.toList_append, String.toList_ofList, hs, List.cons_append]
        · rw [hs, List.length_cons] at hk
          omega

theorem percentile_grammar_plus : (parsePercentileSpec "p+5" = .ok (.quantile "p+5" (1 / 20))) ∧
    (∀ spec, ¬ Percentile "p+5" spec) ∧ ¬ ∀ s, AcceptsExactly s := by
  have hplaces : Places 14 ['5'] :=
    ⟨by decide, by decide, List.forall_mem_singleton.mpr rfl, '5', by simp⟩
  have hs : "p+5".toList = 'p' :: '+' :: ['5'] := by decide
  have hplus : PlusSigned "p+5" := ⟨['5'], hs, hplaces⟩
  have hvalue : Decimal.fraction ['5'] / 10 = 1 / 20 := by
    rw [Decimal.fraction_eq, show Nat.ofDigitChars 10 ['5'] 0 = 5 from rfl]
    norm_num
  refine ⟨?_, hplus.notMem_percentile, fun hall => ?_⟩
  · rw [parsePercentileSpec_plus hs hplaces, hvalue]
  · have hspec := ((hall "p+5").accepted _).mp (parsePercentileSpec_plus hs hplaces)
    exact hplus.notMem_percentile _ hspec

end ResqueBench
