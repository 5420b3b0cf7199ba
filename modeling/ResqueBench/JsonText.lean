import ResqueBench.Job
import ResqueBench.Decimal

/-! The part of the JSON grammar that the payloads use, without white space and without
escapes, and what is assumed of the JSON library on it. A printer and a reader of just
this part satisfy the assumptions. -/

namespace ResqueBench

/-- A string that is written as it is. -/
def Plain (s : String) : Prop := ∀ c ∈ s.toList, c ≠ '"' ∧ c ≠ '\\' ∧ 32 ≤ c.toNat

instance (s : String) : Decidable (Plain s) := inferInstanceAs (Decidable (∀ c ∈ s.toList, _))

def quoted (s : String) : List Char := '"' :: (s.toList ++ ['"'])

def separator (first : Bool) : List Char := if first then [] else [',']

def literals : List (List Char × Json) :=
  [("null".toList, .null), ("true".toList, .bool true), ("false".toList, .bool false)]

/-- The elements and the members come with the bracket that closes them; `first` is
whether they are the first behind the one that opens them. -/
inductive Phrase
  | value (v : Json)
  | elements (first : Bool) (xs : List Json)
  | members (first : Bool) (fields : List (String × Json))

/-- The texts of a phrase that is nested at most `d` deep. The keys of an object that is
kept as a value are in order. -/
inductive Denotes : Nat → Phrase → List Char → Prop
  | literal (d : Nat) (text : List Char) (v : Json) (h : (text, v) ∈ literals) :
      Denotes d (.value v) text
  | numeral (d n : Nat) (hn : n < 2 ^ 64) : Denotes d (.value (.posInt n)) (Nat.toDigits 10 n)
  | string (d : Nat) (s : String) (hs : Plain s) : Denotes d (.value (.string s)) (quoted s)
  | array (d : Nat) (xs : List Json) (text : List Char) (h : Denotes d (.elements true xs) text) :
      Denotes (d + 1) (.value (.array xs)) ('[' :: text)
  | object (d : Nat) (fields : List (String × Json)) (text : List Char)
      (hsorted : (fields.map Prod.fst).Pairwise (· < ·))
      (h : Denotes d (.members true fields) text) :
      Denotes (d + 1) (.value (.object fields)) ('\x7b' :: text)
  | noElements (d : Nat) (first : Bool) : Denotes d (.elements first []) [']']
  | element (d : Nat) (first : Bool) (x : Json) (xs : List Json) (text rest : List Char)
      (hx : Denotes d (.value x) text) (hxs : Denotes d (.elements false xs) rest) :
      Denotes d (.elements first (x :: xs)) (separator first ++ text ++ rest)
  | noMembers (d : Nat) (first : Bool) : Denotes d (.members first []) ['\x7d']
  | member (d : Nat) (first : Bool) (key : String) (x : Json) (fields : List (String × Json))
      (text rest : List Char) (hkey : Plain key) (hx : Denotes d (.value x) text)
      (hfields : Denotes d (.members false fields) rest) :
      Denotes d (.members first ((key, x) :: fields))
        (separator first ++ quoted key ++ ':' :: text ++ rest)

/-- The derived `Deserialize` of the envelope: both fields, each of its own type. -/
def ResqueJob.ofFields (fields : List (String × Json)) : Option ResqueJob :=
  match fields.lookup "class", fields.lookup "args" with
  | some (.string class_), some (.array args) => some ⟨class_, args⟩
  | _, _ => none

def ResqueJob.fields (job : ResqueJob) : List (String × Json) :=
  [("class", .string job.class_), ("args", .array job.args)]

/-- The JSON library prints an envelope compactly and reads what the grammar gives a
meaning, nested up to its recursion limit of 127 with the envelope. -/
structure Serde.Lawful (serde : Serde) : Prop where
  prints : ∀ (job : ResqueJob) (d : Nat) (text : List Char),
    Denotes d (.members true job.fields) text → serde.toString job = String.ofList ('\x7b' :: text)
  reads : ∀ (fields : List (String × Json)) (text : List Char),
    Denotes 126 (.members true fields) text → (fields.map Prod.fst).Nodup →
    serde.fromStr (String.ofList ('\x7b' :: text)) = ResqueJob.ofFields fields

mutual

def writeValue : Json → List Char
  | .null => "null".toList
  | .bool true => "true".toList
  | .bool false => "false".toList
  | .posInt n => Nat.toDigits 10 n
  | .negInt magnitude => '-' :: Nat.toDigits 10 magnitude
  | .float text => text.toList
  | .string s => quoted s
  | .array xs => '[' :: writeElements true xs
  | .object fields => '\x7b' :: writeMembers true fields

def writeElements : Bool → List Json → List Char
  | _, [] => [']']
  | first, x :: xs => separator first ++ writeValue x ++ writeElements false xs

def writeMembers : Bool → List (String × Json) → List Char
  | _, [] => ['\x7d']
  | first, (key, x) :: fields =>
    separator first ++ quoted key ++ ':' :: writeValue x ++ writeMembers false fields

end

def readString (cs : List Char) : Option (String × List Char) :=
  let s := String.ofList (cs.takeWhile (· ≠ '"'))
  match cs.dropWhile (· ≠ '"') with
  | [] => none
  | _ :: rest => if Plain s then some (s, rest) else none

def readNumeral (cs : List Char) : Option (Json × List Char) :=
  let digits := cs.takeWhile Char.isDigit
  let n := Nat.ofDigitChars 10 digits 0
  if n < 2 ^ 64 ∧ digits = Nat.toDigits 10 n then some (.posInt n, cs.dropWhile Char.isDigit)
  else none

def readLiteral (cs : List Char) : Option (Json × List Char) :=
  (literals.find? (fun entry => entry.1.isPrefixOf cs)).map
    (fun entry => (entry.2, cs.drop entry.1.length))

def expect (c : Char) : List Char → Option (List Char)
  | [] => none
  | d :: cs => if d = c then some cs else none

def skipSeparator (first : Bool) (cs : List Char) : Option (List Char) :=
  if first then some cs else expect ',' cs

mutual

def readValue : Nat → List Char → Option (Json × List Char)
  | 0, _ => none
  | _, [] => none
  | n + 1, c :: cs =>
    if c = '"' then (readString cs).map (fun r => (.string r.1, r.2))
    else if c = '[' then (readElements true n cs).map (fun r => (.array r.1, r.2))
    else if c = '\x7b' then (readMembers true n cs).map (fun r => (.object r.1, r.2))
    else if c.isDigit then readNumeral (c :: cs)
    else readLiteral (c :: cs)

def readElements (first : Bool) : Nat → List Char → Option (List Json × List Char)
  | 0, _ => none
  | n + 1, cs =>
    if cs.head? = some ']' then some ([], cs.tail)
    else do
      let cs ← skipSeparator first cs
      let (x, cs) ← readValue n cs
      let (xs, cs) ← readElements false n cs
      some (x :: xs, cs)

def readMembers (first : Bool) : Nat → List Char → Option (List (String × Json) × List Char)
  | 0, _ => none
  | n + 1, cs =>
    if cs.head? = some '\x7d' then some ([], cs.tail)
    else do
      let cs ← skipSeparator first cs
      let cs ← expect '"' cs
      let (key, cs) ← readString cs
      let cs ← expect ':' cs
      let (x, cs) ← readValue n cs
      let (fields, cs) ← readMembers false n cs
      some ((key, x) :: fields, cs)

end

def Serde.json : Serde where
  toString job := String.ofList ('\x7b' :: writeMembers true job.fields)
  fromStr s :=
    match s.toList with
    | '\x7b' :: cs =>
      match readMembers true cs.length cs with
      | some (fields, []) => if (fields.map Prod.fst).Nodup then ResqueJob.ofFields fields else none
      | _ => none
    | _ => none

section Texts

variable {d n : Nat} {p : Phrase} {text rest cs : List Char} {s : String}

/-- What is written by the grammar is what the printer writes. -/
def Phrase.write : Phrase → List Char
  | .value v => writeValue v
  | .elements first xs => writeElements first xs
  | .members first fields => writeMembers first fields

theorem mem_literals {v : Json} (h : (text, v) ∈ literals) :
    text = "null".toList ∧ v = .null ∨ text = "true".toList ∧ v = .bool true ∨
      text = "false".toList ∧ v = .bool false := by
  simpa [literals] using h

theorem Denotes.write (h : Denotes d p text) : p.write = text := by
  induction h with
  | literal d text v h =>
    rcases mem_literals h with ⟨rfl, rfl⟩ | ⟨rfl, rfl⟩ | ⟨rfl, rfl⟩ <;> rfl
  | numeral d n hn => simp [Phrase.write, writeValue]
  | string d s hs => simp [Phrase.write, writeValue]
  | array d xs text h ih => simpa [Phrase.write, writeValue] using ih
  | object d fields text hsorted h ih => simpa [Phrase.write, writeValue] using ih
  | noElements d first => simp [Phrase.write, writeElements]
  | element d first x xs text rest hx hxs ihx ihxs =>
    simp only [Phrase.write] at ihx ihxs ⊢
    rw [writeElements, ihx, ihxs]
  | noMembers d first => simp [Phrase.write, writeMembers]
  | member d first key x fields text rest hkey hx hfields ihx ihfields =>
    simp only [Phrase.write] at ihx ihfields ⊢
    rw [writeMembers, ihx, ihfields]

/-- Where a numeral ends. -/
def Stops (cs : List Char) : Prop := ∀ c ∈ cs.head?, c.isDigit = false

theorem readString_quoted (hs : Plain s) (rest : List Char) :
    readString (s.toList ++ '"' :: rest) = some (s, rest) := by
  have hall : ∀ c ∈ s.toList, decide (c ≠ '"') = true := fun c hc => decide_eq_true (hs c hc).1
  rw [readString, List.takeWhile_append_of_pos hall, List.dropWhile_append_of_pos hall]
  simp [hs]

theorem readNumeral_toDigits (hn : n < 2 ^ 64) (hrest : Stops rest) :
    readNumeral (Nat.toDigits 10 n ++ rest) = some (.posInt n, rest) := by
  have hall : ∀ c ∈ Nat.toDigits 10 n, c.isDigit = true :=
    fun c hc => Nat.isDigit_of_mem_toDigits (by omega) (by omega) hc
  have htake : rest.takeWhile Char.isDigit = [] := by
    cases rest with
    | nil => rfl
    | cons c cs => simp [hrest c rfl]
  have hdrop : rest.dropWhile Char.isDigit = rest := by
    cases rest with
    | nil => rfl
    | cons c cs => simp [hrest c rfl]
  rw [readNumeral, List.takeWhile_append_of_pos hall, List.dropWhile_append_of_pos hall, htake,
    hdrop, List.append_nil, Nat.ofDigitChars_ten_toDigits]
  exact if_pos ⟨hn, rfl⟩

theorem expect_cons (c : Char) (cs : List Char) : expect c (c :: cs) = some cs := by
  simp [expect]

theorem skipSeparator_append (first : Bool) (cs : List Char) :
    skipSeparator first (separator first ++ cs) = some cs := by
  cases first
  · exact expect_cons ',' cs
  · rfl

theorem Denotes.pos (h : Denotes d p text) : 0 < text.length := by
  induction h with
  | literal d text v h =>
    rcases mem_literals h with ⟨rfl, rfl⟩ | ⟨rfl, rfl⟩ | ⟨rfl, rfl⟩ <;> decide
  | numeral d n hn => exact List.length_pos_iff.mpr Nat.toDigits_ne_nil
  | element d first x xs text rest hx hxs ihx ihxs =>
    rw [List.length_append]
    omega
  | _ => simp [quoted]

theorem Denotes.fuel (h : Denotes d p text) (hn : text.length ≤ n) : ∃ m, n = m + 1 :=
  Nat.exists_eq_add_one.mpr (h.pos.trans_le hn)

theorem Denotes.head_value {v : Json} (h : Denotes d (.value v) text) (rest : List Char) :
    (text ++ rest).head? ≠ some ']' := by
  cases h with
  | literal _ _ _ h =>
    rcases mem_literals h with ⟨rfl, rfl⟩ | ⟨rfl, rfl⟩ | ⟨rfl, rfl⟩ <;> simp
  | numeral _ n hn =>
    intro hhead
    rw [List.head?_append_of_ne_nil _ Nat.toDigits_ne_nil] at hhead
    have hdigit := Nat.isDigit_of_mem_toDigits (by omega) (by omega) (List.mem_of_mem_head? hhead)
    exact absurd hdigit (by decide)
  | _ => simp [quoted]

theorem Denotes.stops_elements {xs : List Json} (h : Denotes d (.elements false xs) text)
    (rest : List Char) : Stops (text ++ rest) := by
  cases h <;> simp [Stops, separator, Char.isDigit]

theorem Denotes.stops_members {fields : List (String × Json)}
    (h : Denotes d (.members false fields) text) (rest : List Char) : Stops (text ++ rest) := by
  cases h <;> simp [Stops, separator, Char.isDigit]

def Phrase.Read (n : Nat) (cs rest : List Char) : Phrase → Prop
  | .value v => readValue n cs = some (v, rest)
  | .elements first xs => readElements first n cs = some (xs, rest)
  | .members first fields => readMembers first n cs = some (fields, rest)

theorem Denotes.read (h : Denotes d p text) : ∀ n, text.length ≤ n → ∀ rest, Stops rest →
    p.Read n (text ++ rest) rest := by
  -- each text uses up one unit of fuel, and so do its parts, which are shorter
  induction h with
  | literal d text v h =>
    intro n hn rest hrest
    obtain ⟨n, rfl⟩ := (Denotes.literal d text v h).fuel hn
    rcases mem_literals h with ⟨rfl, rfl⟩ | ⟨rfl, rfl⟩ | ⟨rfl, rfl⟩ <;>
      simp [Phrase.Read, readValue, readLiteral, literals, Char.isDigit]
  | numeral d m hm =>
    intro n hn rest hrest
    obtain ⟨n, rfl⟩ := (Denotes.numeral d m hm).fuel hn
    obtain ⟨c, cs, hdigits⟩ := List.exists_cons_of_ne_nil (Nat.toDigits_ne_nil (n := m) (b := 10))
    have hc : c.isDigit = true :=
      Nat.isDigit_of_mem_toDigits (by omega) (by omega) (hdigits ▸ List.mem_cons_self)
    have hne : c ≠ '"' ∧ c ≠ '[' ∧ c ≠ '\x7b' := by
      refine ⟨?_, ?_, ?_⟩ <;> rintro rfl <;> exact absurd hc (by decide)
    have hread := readNumeral_toDigits hm hrest
    rw [hdigits, List.cons_append] at hread ⊢
    rw [Phrase.Read, readValue, if_neg hne.1, if_neg hne.2.1, if_neg hne.2.2, if_pos hc, hread]
  | string d s hs =>
    intro n hn rest hrest
    obtain ⟨n, rfl⟩ := (Denotes.string d s hs).fuel hn
    rw [Phrase.Read, quoted, List.cons_append, List.append_assoc, readValue, if_pos rfl]
    exact congrArg (Option.map _) (readString_quoted hs rest)
  | array d xs text h ih =>
    intro n hn rest hrest
    obtain ⟨n, rfl⟩ := (Denotes.array d xs text h).fuel hn
    have hread := ih n (by simpa using hn) rest hrest
    rw [Phrase.Read] at hread
    rw [Phrase.Read, List.cons_append, readValue, if_neg (by decide), if_pos rfl, hread]
    rfl
  | object d fields text hsorted h ih =>
    intro n hn rest hrest
    obtain ⟨n, rfl⟩ := (Denotes.object d fields text hsorted h).fuel hn
    have hread := ih n (by simpa using hn) rest hrest
    rw [Phrase.Read] at hread
    rw [Phrase.Read, List.cons_append, readValue, if_neg (by decide), if_neg (by decide),
      if_pos rfl, hread]
    rfl
  | noElements d first =>
    intro n hn rest hrest
    obtain ⟨n, rfl⟩ := (Denotes.noElements d first).fuel hn
    simp [Phrase.Read, readElements]
  | element d first x xs text more hx hxs ihx ihxs =>
    intro n hn rest hrest
    have hpos := hx.pos
    have hpos' := hxs.pos
    rw [List.length_append, List.length_append] at hn
    obtain ⟨n, rfl⟩ : ∃ m, n = m + 1 := Nat.exists_eq_add_one.mpr (by omega)
    have hreadx := ihx n (by omega) (more ++ rest) (hxs.stops_elements rest)
    have hreadxs := ihxs n (by omega) rest hrest
    simp only [Phrase.Read] at hreadx hreadxs ⊢
    have hhead : (separator first ++ (text ++ (more ++ rest))).head? ≠ some ']' := by
      cases first
      · simp [separator]
      · exact hx.head_value (more ++ rest)
    rw [List.append_assoc, List.append_assoc, readElements, if_neg hhead, skipSeparator_append]
    simp [hreadx, hreadxs]
  | noMembers d first =>
    intro n hn rest hrest
    obtain ⟨n, rfl⟩ := (Denotes.noMembers d first).fuel hn
    simp [Phrase.Read, readMembers]
  | member d first key x fields text more hkey hx hfields ihx ihfields =>
    intro n hn rest hrest
    have hpos := hfields.pos
    simp only [List.length_append, List.length_cons, quoted, List.length_nil] at hn
    obtain ⟨n, rfl⟩ : ∃ m, n = m + 1 := Nat.exists_eq_add_one.mpr (by omega)
    have hreadx := ihx n (by omega) (more ++ rest) (hfields.stops_members rest)
    have hreadfields := ihfields n (by omega) rest hrest
    simp only [Phrase.Read] at hreadx hreadfields ⊢
    have hhead (cs : List Char) : (separator first ++ '"' :: cs).head? ≠ some '\x7d' := by
      cases first <;> simp [separator]
    have htext : separator first ++ quoted key ++ ':' :: text ++ more ++ rest =
        separator first ++ '"' :: (key.toList ++ '"' :: ':' :: (text ++ (more ++ rest))) := by
      simp [quoted]
    rw [htext, readMembers, if_neg (hhead _), skipSeparator_append]
    simp [expect_cons, readString_quoted hkey, hreadx, hreadfields]

theorem Serde.json_lawful : Serde.json.Lawful where
  prints job d text h := by
    have hwrite : writeMembers true job.fields = text := h.write
    simp only [Serde.json, hwrite]
  reads fields text h hnodup := by
    have hread : readMembers true text.length (text ++ []) = some (fields, []) :=
      h.read text.length le_rfl [] (by simp [Stops])
    rw [List.append_nil] at hread
    simp only [Serde.json, String.toList_ofList, hread]
    exact if_pos hnodup

end Texts

end ResqueBench
