import Bitmessage.Common.Json

/-! The grammar of JSON as a data type, each text with its white space, and the parser on it: every text is read,
and as the value that its parts name. What stands between the quotes of a string is a parameter. -/

namespace Bitmessage

/-! ### White space -/

structure Ws where
  bytes : Bytes
  blank : ∀ b ∈ bytes, isWs b = true

theorem skipWs_ws (w : Ws) (text : Bytes) : skipWs (w.bytes ++ text) = skipWs text :=
  List.dropWhile_append_of_pos w.blank

theorem skipWs_cons {c : UInt8} (hc : isWs c = false) (text : Bytes) : skipWs (c :: text) = c :: text := by
  rw [skipWs, List.dropWhile_cons_of_neg (by rw [hc]; decide)]

theorem skipWs_skipWs (text : Bytes) : skipWs (skipWs text) = skipWs text := List.dropWhile_idempotent isWs text

/-! ### Numbers -/

/-- Digits, at least one. -/
structure Digits where
  bytes : Bytes
  ne_nil : bytes ≠ []
  digit : ∀ c ∈ bytes, isDigit c = true

structure ExponentText where
  capital : Bool
  sign : Option Bool
  digits : Digits

def ExponentText.text (e : ExponentText) : Bytes :=
  (if e.capital then 0x45 else 0x65) :: e.sign.elim [] (fun negative => if negative then [0x2d] else [0x2b]) ++
    e.digits.bytes

structure NumberLiteral where
  minus : Bool
  int : Digits
  frac : Option Digits
  exp : Option ExponentText

namespace NumberLiteral

def text (n : NumberLiteral) : Bytes :=
  (if n.minus then [0x2d] else []) ++ (n.int.bytes ++ (n.frac.elim [] (fun digits => 0x2e :: digits.bytes) ++
    n.exp.elim [] ExponentText.text))

/-- What `strtod` makes of the text. -/
def parts (n : NumberLiteral) : NumberText where
  negative := n.minus
  int := n.int.bytes
  frac := n.frac.elim [] Digits.bytes
  expNegative := n.exp.elim false fun e => e.sign.getD false
  exp := n.exp.elim [] fun e => e.digits.bytes

end NumberLiteral

/-- What may stand behind a number, so that the number ends there. -/
def EndsNumber (rest : Bytes) : Prop :=
  ∀ c, rest.head? = some c → isDigit c = false ∧ c ≠ 0x2e ∧ c ≠ 0x65 ∧ c ≠ 0x45

theorem endsNumber_nil : EndsNumber [] := fun _ h => nomatch h

theorem endsNumber_cons {c : UInt8} (hc : c = 0x2c ∨ c = 0x5d ∨ c = 0x7d) (rest : Bytes) : EndsNumber (c :: rest) := by
  intro d hd
  cases hd
  rcases hc with rfl | rfl | rfl <;> decide

theorem endsNumber_ws (w : Ws) {rest : Bytes} (h : EndsNumber rest) : EndsNumber (w.bytes ++ rest) := by
  intro c hc
  cases hw : w.bytes with
  | nil =>
    rw [hw] at hc
    exact h c hc
  | cons b bs =>
    rw [hw] at hc
    cases hc
    have hblank := w.blank c (hw ▸ List.mem_cons_self)
    simp only [isWs, Bool.or_eq_true, decide_eq_true_eq] at hblank
    rcases hblank with ((rfl | rfl) | rfl) | rfl <;> decide

theorem scanDigits_append {digits : Bytes} (hne : digits ≠ []) (hdigits : ∀ c ∈ digits, isDigit c = true) {rest : Bytes}
    (hrest : ∀ c, rest.head? = some c → isDigit c = false) : scanDigits (digits ++ rest) = some (digits, rest) := by
  have htake : rest.takeWhile isDigit = [] := by
    cases rest with
    | nil => rfl
    | cons c rest => exact List.takeWhile_cons_of_neg (by rw [hrest c rfl]; decide)
  have hdrop : rest.dropWhile isDigit = rest := by
    cases rest with
    | nil => rfl
    | cons c rest => exact List.dropWhile_cons_of_neg (by rw [hrest c rfl]; decide)
  rw [scanDigits, List.takeWhile_append_of_pos hdigits, List.dropWhile_append_of_pos hdigits, htake, hdrop,
    List.append_nil, if_neg hne]

theorem scanDigits_digits (digits : Digits) {rest : Bytes} (hrest : ∀ c, rest.head? = some c → isDigit c = false) :
    scanDigits (digits.bytes ++ rest) = some (digits.bytes, rest) :=
  scanDigits_append digits.ne_nil digits.digit hrest

/-- The first digit, which is neither a sign nor a point. -/
theorem Digits.exists_cons (digits : Digits) : ∃ c more, digits.bytes = c :: more ∧ isDigit c = true := by
  obtain ⟨c, more, h⟩ := List.exists_cons_of_ne_nil digits.ne_nil
  exact ⟨c, more, h, digits.digit c (h ▸ List.mem_cons_self)⟩

theorem ne_of_isDigit {c d : UInt8} (hc : isDigit c = true) (hd : isDigit d = false) : c ≠ d := by
  intro h
  rw [h, hd] at hc
  exact absurd hc (by decide)

theorem scanSign_of_ne {c : UInt8} (hc : c ≠ 0x2d) (text : Bytes) : scanSign (c :: text) = (false, c :: text) := by
  rw [scanSign]
  intro _ h
  exact hc (List.cons.inj h).1

theorem scanFraction_of_ne {text : Bytes} (h : ∀ c, text.head? = some c → c ≠ 0x2e) :
    scanFraction text = some ([], text) := by
  rw [scanFraction]
  intro _ htext
  exact h 0x2e (by rw [htext]; rfl) rfl

theorem scanExponent_ends {rest : Bytes} (h : EndsNumber rest) : scanExponent rest = some (false, [], rest) := by
  cases rest with
  | nil => rfl
  | cons c rest =>
    have hc := h c rfl
    exact if_neg (not_or.mpr ⟨hc.2.2.1, hc.2.2.2⟩)

theorem scanExponent_text (e : ExponentText) {rest : Bytes} (h : EndsNumber rest) :
    scanExponent (e.text ++ rest) = some (e.sign.getD false, e.digits.bytes, rest) := by
  have hdigits := scanDigits_digits e.digits fun c hc => (h c hc).1
  have hmark (c : UInt8) (text : Bytes) (hc : c = 0x65 ∨ c = 0x45) (hplus : ∀ t, text ≠ 0x2b :: t)
      (hminus : ∀ t, text ≠ 0x2d :: t) :
      scanExponent (c :: text) = (scanDigits text).map fun r => (false, r.1, r.2) := by
    rw [scanExponent, if_pos hc]
    · exact hplus
    · exact hminus
  have hcapital : (if e.capital then (0x45 : UInt8) else 0x65) = 0x65 ∨
      (if e.capital then (0x45 : UInt8) else 0x65) = 0x45 := by
    cases e.capital
    · exact .inl rfl
    · exact .inr rfl
  rw [ExponentText.text]
  cases hsign : e.sign with
  | none =>
    obtain ⟨d, more, hmore, hd⟩ := e.digits.exists_cons
    have hne (s : UInt8) (hs : isDigit s = false) : ∀ t, e.digits.bytes ++ rest ≠ s :: t := by
      intro t ht
      rw [hmore] at ht
      exact ne_of_isDigit hd hs (List.cons.inj ht).1
    rw [Option.elim_none, List.append_assoc, List.cons_append, List.nil_append,
      hmark _ _ hcapital (hne _ (by decide)) (hne _ (by decide)), hdigits]
    rfl
  | some negative =>
    cases negative with
    | false =>
      show scanExponent (_ :: 0x2b :: (e.digits.bytes ++ rest)) = _
      rw [scanExponent, if_pos hcapital]
      simp only [hdigits]
      rfl
    | true =>
      show scanExponent (_ :: 0x2d :: (e.digits.bytes ++ rest)) = _
      rw [scanExponent, if_pos hcapital]
      simp only [hdigits]
      rfl

/-- What stands behind the digits of the fraction. -/
theorem head_exponent (exp : Option ExponentText) {rest : Bytes} (h : EndsNumber rest) (c : UInt8)
    (hc : (exp.elim [] ExponentText.text ++ rest).head? = some c) : isDigit c = false ∧ c ≠ 0x2e := by
  cases exp with
  | none => exact ⟨(h c hc).1, (h c hc).2.1⟩
  | some e =>
    have : (if e.capital then (0x45 : UInt8) else 0x65) = c := Option.some.inj hc
    rw [← this]
    cases e.capital <;> decide

/-- The parts of a number are found. -/
theorem scanNumber_text (n : NumberLiteral) {rest : Bytes} (h : EndsNumber rest) :
    scanNumber (n.text ++ rest) = some (n.parts, rest) := by
  have hsign : scanSign (n.text ++ rest) = (n.minus,
      n.int.bytes ++ (n.frac.elim [] (fun digits => 0x2e :: digits.bytes) ++ n.exp.elim [] ExponentText.text) ++
        rest) := by
    obtain ⟨d, more, hmore, hd⟩ := n.int.exists_cons
    rw [NumberLiteral.text]
    cases n.minus with
    | true => rfl
    | false =>
      rw [hmore]
      exact scanSign_of_ne (ne_of_isDigit hd (by decide)) _
  have hexp : scanExponent (n.exp.elim [] ExponentText.text ++ rest) =
      some (n.parts.expNegative, n.parts.exp, rest) := by
    rw [NumberLiteral.parts]
    cases n.exp with
    | none => exact scanExponent_ends h
    | some e => exact scanExponent_text e h
  have hfrac : scanFraction (n.frac.elim [] (fun digits => 0x2e :: digits.bytes) ++
      (n.exp.elim [] ExponentText.text ++ rest)) = some (n.parts.frac, n.exp.elim [] ExponentText.text ++ rest) := by
    rw [NumberLiteral.parts]
    cases n.frac with
    | none => exact scanFraction_of_ne fun c hc => (head_exponent n.exp h c hc).2
    | some digits => exact scanDigits_digits digits fun c hc => (head_exponent n.exp h c hc).1
  have hint : scanDigits (n.int.bytes ++ (n.frac.elim [] (fun digits => 0x2e :: digits.bytes) ++
      (n.exp.elim [] ExponentText.text ++ rest))) =
      some (n.int.bytes, n.frac.elim [] (fun digits => 0x2e :: digits.bytes) ++
        (n.exp.elim [] ExponentText.text ++ rest)) := by
    apply scanDigits_digits
    intro c hc
    cases hf : n.frac with
    | none =>
      rw [hf] at hc
      exact (head_exponent n.exp h c hc).1
    | some digits =>
      rw [hf] at hc
      cases hc
      decide
  rw [scanNumber, hsign]
  simp only [List.append_assoc, hint, Option.bind_some, hfrac, hexp, Option.map_some]
  rfl

/-! ### Values -/

mutual

/-- A JSON text over literals for the strings. -/
inductive JsonText (S : Type) where
  | null
  | bool (b : Bool)
  | number (n : NumberLiteral)
  | string (s : S)
  | emptyArray (blank : Ws)
  | array (items : JsonItems S)
  | emptyObject (blank : Ws)
  | object (members : JsonMembers S)

/-- The items of an array with the white space around them. -/
inductive JsonItems (S : Type) where
  | last (before : Ws) (item : JsonText S) (after : Ws)
  | more (before : Ws) (item : JsonText S) (after : Ws) (items : JsonItems S)

/-- The members of an object with the white space around keys and values. -/
inductive JsonMembers (S : Type) where
  | last (beforeKey : Ws) (key : S) (afterKey before : Ws) (value : JsonText S) (after : Ws)
  | more (beforeKey : Ws) (key : S) (afterKey before : Ws) (value : JsonText S) (after : Ws) (members : JsonMembers S)

end

variable {S : Type}

/-- A literal between its quotes. -/
def quoted (lit : Bytes) : Bytes := 0x22 :: lit ++ [0x22]

section

variable (lit : S → Bytes)

mutual

/-- The bytes of a text. -/
def JsonText.render : JsonText S → Bytes
  | .null => ascii "null"
  | .bool b => if b then ascii "true" else ascii "false"
  | .number n => n.text
  | .string s => quoted (lit s)
  | .emptyArray blank => 0x5b :: blank.bytes ++ [0x5d]
  | .array items => 0x5b :: items.render ++ [0x5d]
  | .emptyObject blank => 0x7b :: blank.bytes ++ [0x7d]
  | .object members => 0x7b :: members.render ++ [0x7d]

def JsonItems.render : JsonItems S → Bytes
  | .last before item after => before.bytes ++ item.render ++ after.bytes
  | .more before item after items => before.bytes ++ item.render ++ after.bytes ++ 0x2c :: items.render

def JsonMembers.render : JsonMembers S → Bytes
  | .last beforeKey key afterKey before value after =>
    beforeKey.bytes ++ quoted (lit key) ++ afterKey.bytes ++ 0x3a :: before.bytes ++ value.render ++ after.bytes
  | .more beforeKey key afterKey before value after members =>
    beforeKey.bytes ++ quoted (lit key) ++ afterKey.bytes ++ 0x3a :: before.bytes ++ value.render ++ after.bytes ++
      0x2c :: members.render

end

end

section

variable (val : S → CString)

mutual

/-- The value of a text, with these strings. -/
def JsonText.value : JsonText S → JsonValue
  | .null => .null
  | .bool b => .bool b
  | .number n => .number (strtod n.parts)
  | .string s => .string (val s)
  | .emptyArray _ => .array []
  | .array items => .array items.values
  | .emptyObject _ => .object []
  | .object members => .object members.values

def JsonItems.values : JsonItems S → List JsonValue
  | .last _ item _ => [item.value]
  | .more _ item _ items => item.value :: items.values

def JsonMembers.values : JsonMembers S → List (CString × JsonValue)
  | .last _ key _ _ value _ => [(val key, value.value)]
  | .more _ key _ _ value _ members => (val key, value.value) :: members.values

end

end

/-! ### The parser reads every text -/

theorem NumberLiteral.exists_cons (n : NumberLiteral) :
    ∃ c more, n.text = c :: more ∧ (isDigit c = true ∨ c = 0x2d) := by
  obtain ⟨d, more, hmore, hd⟩ := n.int.exists_cons
  rw [NumberLiteral.text, hmore]
  cases n.minus with
  | true => exact ⟨0x2d, _, rfl, .inr rfl⟩
  | false => exact ⟨d, _, rfl, .inl hd⟩

/-- No text starts with white space or with the end of an array. -/
theorem JsonText.exists_cons (lit : S → Bytes) (t : JsonText S) :
    ∃ c more, t.render lit = c :: more ∧ isWs c = false ∧ c ≠ 0x5d := by
  cases t with
  | null => exact ⟨0x6e, _, rfl, by decide, by decide⟩
  | bool b =>
    cases b with
    | true => exact ⟨0x74, _, rfl, by decide, by decide⟩
    | false => exact ⟨0x66, _, rfl, by decide, by decide⟩
  | number n =>
    obtain ⟨c, more, hmore, hc⟩ := n.exists_cons
    refine ⟨c, more, hmore, ?_⟩
    rcases hc with hdigit | rfl
    · have hne (d : UInt8) (hd : isDigit d = false) : c ≠ d := ne_of_isDigit hdigit hd
      exact ⟨by simp [isWs, hne 0x20 (by decide), hne 0x09 (by decide), hne 0x0a (by decide), hne 0x0d (by decide)],
        hne 0x5d (by decide)⟩
    · decide
  | string s => exact ⟨0x22, _, rfl, by decide, by decide⟩
  | emptyArray blank => exact ⟨0x5b, _, rfl, by decide, by decide⟩
  | array items => exact ⟨0x5b, _, rfl, by decide, by decide⟩
  | emptyObject blank => exact ⟨0x7b, _, rfl, by decide, by decide⟩
  | object members => exact ⟨0x7b, _, rfl, by decide, by decide⟩

theorem parseValue_skipWs (fuel : ℕ) (text : Bytes) : parseValue fuel (skipWs text) = parseValue fuel text := by
  cases fuel with
  | zero => rfl
  | succ fuel => rw [parseValue, parseValue, skipWs_skipWs]

theorem parseArrayLoop_skipWs (fuel : ℕ) (items : List JsonValue) (text : Bytes) :
    parseArrayLoop fuel items (skipWs text) = parseArrayLoop fuel items text := by
  cases fuel with
  | zero => rfl
  | succ fuel => rw [parseArrayLoop, parseArrayLoop, skipWs_skipWs]

theorem parseObjectLoop_skipWs (fuel : ℕ) (members : List (CString × JsonValue)) (text : Bytes) :
    parseObjectLoop fuel members (skipWs text) = parseObjectLoop fuel members text := by
  cases fuel with
  | zero => rfl
  | succ fuel => rw [parseObjectLoop, parseObjectLoop, skipWs_skipWs]

theorem parseValue_ws (fuel : ℕ) (w : Ws) (text : Bytes) :
    parseValue fuel (skipWs (w.bytes ++ text)) = parseValue fuel text := by
  rw [skipWs_ws, parseValue_skipWs]

theorem parseValue_array {fuel : ℕ} {text : Bytes} (h : ∀ t, skipWs text ≠ 0x5d :: t) :
    parseValue (fuel + 1) (0x5b :: text) = parseArrayLoop fuel [] text := by
  have hopen : skipWs (0x5b :: text) = 0x5b :: text := rfl
  rw [parseValue, hopen, ← parseArrayLoop_skipWs fuel [] text]
  dsimp only
  rw [if_neg (by decide), if_pos rfl]
  split
  · exact absurd ‹_› (h _)
  · rfl

theorem parseValue_object {fuel : ℕ} {text : Bytes} (h : ∀ t, skipWs text ≠ 0x7d :: t) :
    parseValue (fuel + 1) (0x7b :: text) = parseObjectLoop fuel [] text := by
  have hopen : skipWs (0x7b :: text) = 0x7b :: text := rfl
  rw [parseValue, hopen, ← parseObjectLoop_skipWs fuel [] text]
  dsimp only
  rw [if_neg (by decide), if_neg (by decide), if_pos rfl]
  split
  · exact absurd ‹_› (h _)
  · rfl

/-- `parse_array` behind an item. -/
def arrayRest (fuel : ℕ) (items : List JsonValue) (text : Bytes) : Option (JsonValue × Bytes) :=
  match skipWs text with
  | 0x2c :: text => parseArrayLoop fuel items text
  | 0x5d :: text => some (.array items, text)
  | _ => none

/-- `parse_object` behind a member. -/
def objectRest (fuel : ℕ) (members : List (CString × JsonValue)) (text : Bytes) : Option (JsonValue × Bytes) :=
  match skipWs text with
  | 0x2c :: text => parseObjectLoop fuel members text
  | 0x7d :: text => some (.object members, text)
  | _ => none

theorem parseArrayLoop_item {fuel : ℕ} {before after : Ws} {text rest : Bytes} {item : JsonValue}
    (h : parseValue fuel (text ++ (after.bytes ++ rest)) = some (item, after.bytes ++ rest)) (acc : List JsonValue) :
    parseArrayLoop (fuel + 1) acc (before.bytes ++ text ++ after.bytes ++ rest) =
      arrayRest fuel (acc ++ [item]) rest := by
  rw [parseArrayLoop, List.append_assoc, List.append_assoc, parseValue_ws, h]
  simp only [skipWs_ws]
  rfl

theorem parseObjectLoop_member {fuel : ℕ} {beforeKey afterKey before after : Ws} {literal text rest : Bytes}
    {key : CString} {value : JsonValue} (hkey : ∀ rest, parseStringRaw (quoted literal ++ rest) = some (key, rest))
    (h : parseValue fuel (text ++ (after.bytes ++ rest)) = some (value, after.bytes ++ rest))
    (acc : List (CString × JsonValue)) :
    parseObjectLoop (fuel + 1) acc
        (beforeKey.bytes ++ quoted literal ++ afterKey.bytes ++ 0x3a :: before.bytes ++ text ++ after.bytes ++ rest) =
      objectRest fuel (acc ++ [(key, value)]) rest := by
  have hquoted (rest : Bytes) : skipWs (quoted literal ++ rest) = quoted literal ++ rest := rfl
  have hcolon (rest : Bytes) : skipWs (0x3a :: rest) = 0x3a :: rest := rfl
  simp only [parseObjectLoop, List.append_assoc, List.cons_append, skipWs_ws, hquoted, hkey, hcolon, parseValue_skipWs,
    h]
  rfl

/-! ### What the parser makes of a string -/

/-- A character below 0x80 is its own encoding. -/
theorem appendUtf8_byte {b : UInt8} (h : b < 0x80) : appendUtf8 b.toNat = [b] := by
  have hlt : b.toNat < 0x80 := UInt8.lt_iff_toNat_lt.mp h
  rw [appendUtf8, if_pos hlt, UInt8.ofNat_toNat]

/-- A byte that is no quote and no backslash is taken as it is. -/
theorem parseStringLoop_raw {b : UInt8} (hquote : b ≠ 0x22) (hbackslash : b ≠ 0x5c) (out text : Bytes) :
    parseStringLoop out (b :: text) = parseStringLoop (out ++ [b]) text := by
  rw [parseStringLoop.eq_def]
  simp only [if_neg hquote, if_neg hbackslash]
  split_ifs with hascii
  · rw [appendUtf8_byte hascii]
  · rfl

theorem parseStringLoop_short {esc b : UInt8} (h : shortEscape esc = some b) (out text : Bytes) :
    parseStringLoop out (0x5c :: esc :: text) = parseStringLoop (out ++ [b]) text := by
  have hu : esc ≠ 0x75 := by
    rintro rfl
    cases h
  have hascii : b < 0x80 := by
    rw [shortEscape] at h
    split_ifs at h <;> cases h <;> decide
  rw [parseStringLoop.eq_def]
  simp only [if_neg (show (0x5c : UInt8) ≠ 0x22 by decide), if_true, if_neg hu, h, appendUtf8_byte hascii]

theorem parseStringLoop_unicode {d₀ d₁ d₂ d₃ : UInt8} {cp : ℕ} (h : hexNumber d₀ d₁ d₂ d₃ = some cp)
    (out text : Bytes) :
    parseStringLoop out (0x5c :: 0x75 :: d₀ :: d₁ :: d₂ :: d₃ :: text) =
      parseStringLoop (out ++ appendUtf8 cp) text := by
  rw [parseStringLoop.eq_def]
  simp only [if_neg (show (0x5c : UInt8) ≠ 0x22 by decide), if_true, h]

/-- A literal is read as a string when the loop comes to its end with the bytes of the string. -/
theorem parseStringRaw_quoted {lit bytes : Bytes}
    (h : ∀ rest, parseStringLoop [] (lit ++ rest) = parseStringLoop bytes rest) (rest : Bytes) :
    parseStringRaw (quoted lit ++ rest) = some (CString.of bytes, rest) := by
  have hend : parseStringLoop bytes ([0x22] ++ rest) = some (bytes, rest) := by
    rw [parseStringLoop.eq_def]
    exact if_pos rfl
  show (parseStringLoop [] (lit ++ [0x22] ++ rest)).map _ = _
  rw [List.append_assoc, h, hend]
  rfl

section

variable {lit : S → Bytes} {val : S → CString}

theorem skipWs_items_ne (items : JsonItems S) (rest t : Bytes) : skipWs (items.render lit ++ rest) ≠ 0x5d :: t := by
  have hitem (before : Ws) (item : JsonText S) (rest : Bytes) :
      skipWs (before.bytes ++ (item.render lit ++ rest)) ≠ 0x5d :: t := by
    obtain ⟨c, more, hmore, hws, hc⟩ := item.exists_cons lit
    rw [skipWs_ws, hmore, List.cons_append, skipWs_cons hws]
    intro h
    exact hc (List.cons.inj h).1
  cases items with
  | last before item after =>
    rw [JsonItems.render, List.append_assoc, List.append_assoc]
    exact hitem before item _
  | more before item after items =>
    rw [JsonItems.render, List.append_assoc, List.append_assoc, List.append_assoc]
    exact hitem before item _

theorem skipWs_members_ne (members : JsonMembers S) (rest t : Bytes) :
    skipWs (members.render lit ++ rest) ≠ 0x7d :: t := by
  have hkey (beforeKey : Ws) (literal rest : Bytes) :
      skipWs (beforeKey.bytes ++ (quoted literal ++ rest)) ≠ 0x7d :: t := by
    rw [skipWs_ws]
    intro h
    exact absurd (List.cons.inj h).1 (by decide)
  cases members with
  | last beforeKey key afterKey before value after =>
    simp only [JsonMembers.render, List.append_assoc]
    exact hkey beforeKey _ _
  | more beforeKey key afterKey before value after members =>
    simp only [JsonMembers.render, List.append_assoc]
    exact hkey beforeKey _ _

mutual

/-- A text is read as its value; it is longer than the calls are deep. -/
theorem parseValue_render (hlit : ∀ s rest, parseStringRaw (quoted (lit s) ++ rest) = some (val s, rest))
    (t : JsonText S) {rest : Bytes} (hrest : EndsNumber rest) {fuel : ℕ} (hfuel : (t.render lit).length < fuel) :
    parseValue fuel (t.render lit ++ rest) = some (t.value val, rest) := by
  obtain ⟨fuel, rfl⟩ := Nat.exists_eq_succ_of_ne_zero (Nat.ne_zero_of_lt hfuel)
  match t with
  | .null => rfl
  | .bool true => rfl
  | .bool false => rfl
  | .number n =>
    obtain ⟨c, more, hmore, hc⟩ := n.exists_cons
    have hne (d : UInt8) (hd : isDigit d = false ∧ d ≠ 0x2d) : c ≠ d := by
      rcases hc with hdigit | rfl
      · exact ne_of_isDigit hdigit hd.1
      · exact hd.2.symm
    have hws : isWs c = false := by
      simp [isWs, hne 0x20 (by decide), hne 0x09 (by decide), hne 0x0a (by decide), hne 0x0d (by decide)]
    have hscan := scanNumber_text n hrest
    rw [JsonText.render, JsonText.value, hmore, List.cons_append] at *
    rw [parseValue, skipWs_cons hws]
    simp only [if_neg (hne 0x22 (by decide)), if_neg (hne 0x5b (by decide)), if_neg (hne 0x7b (by decide)),
      if_neg (hne 0x74 (by decide)), if_neg (hne 0x66 (by decide)), if_neg (hne 0x6e (by decide)), hscan]
    rfl
  | .string s =>
    show (parseStringRaw (quoted (lit s) ++ rest)).map _ = _
    rw [hlit]
    rfl
  | .emptyArray blank =>
    show (match skipWs (blank.bytes ++ [0x5d] ++ rest) with
      | 0x5d :: rest => some (JsonValue.array [], rest)
      | rest => parseArrayLoop fuel [] rest) = _
    rw [List.append_assoc, skipWs_ws]
    rfl
  | .array items =>
    rw [JsonText.render, List.cons_append, List.length_cons] at hfuel
    rw [JsonText.render, List.cons_append, List.cons_append, List.append_assoc,
      parseValue_array (skipWs_items_ne items _)]
    rw [List.length_append, List.length_singleton] at hfuel
    exact parseArrayLoop_render hlit items [] (by omega)
  | .emptyObject blank =>
    show (match skipWs (blank.bytes ++ [0x7d] ++ rest) with
      | 0x7d :: rest => some (JsonValue.object [], rest)
      | rest => parseObjectLoop fuel [] rest) = _
    rw [List.append_assoc, skipWs_ws]
    rfl
  | .object members =>
    rw [JsonText.render, List.cons_append, List.length_cons] at hfuel
    rw [JsonText.render, List.cons_append, List.cons_append, List.append_assoc,
      parseValue_object (skipWs_members_ne members _)]
    rw [List.length_append] at hfuel
    exact parseObjectLoop_render hlit members [] (by omega)

theorem parseArrayLoop_render (hlit : ∀ s rest, parseStringRaw (quoted (lit s) ++ rest) = some (val s, rest))
    (items : JsonItems S) (acc : List JsonValue) {rest : Bytes} {fuel : ℕ}
    (hfuel : (items.render lit).length + 1 < fuel) :
    parseArrayLoop fuel acc (items.render lit ++ 0x5d :: rest) = some (.array (acc ++ items.values val), rest) := by
  obtain ⟨fuel, rfl⟩ := Nat.exists_eq_succ_of_ne_zero (Nat.ne_zero_of_lt hfuel)
  match items with
  | .last before item after =>
    simp only [JsonItems.render, List.length_append] at hfuel
    have hends := endsNumber_ws after (endsNumber_cons (.inr (.inl rfl)) rest)
    rw [JsonItems.render, parseArrayLoop_item (parseValue_render hlit item hends (by omega))]
    rfl
  | .more before item after items =>
    simp only [JsonItems.render, List.length_append, List.length_cons] at hfuel
    have hends := endsNumber_ws after (endsNumber_cons (.inl rfl) (items.render lit ++ 0x5d :: rest))
    rw [JsonItems.render, List.append_assoc, List.cons_append,
      parseArrayLoop_item (parseValue_render hlit item hends (by omega))]
    show parseArrayLoop fuel (acc ++ [item.value val]) (items.render lit ++ 0x5d :: rest) = _
    rw [parseArrayLoop_render hlit items _ (by omega), List.append_assoc]
    rfl

theorem parseObjectLoop_render (hlit : ∀ s rest, parseStringRaw (quoted (lit s) ++ rest) = some (val s, rest))
    (members : JsonMembers S) (acc : List (CString × JsonValue)) {rest : Bytes} {fuel : ℕ}
    (hfuel : (members.render lit).length < fuel) :
    parseObjectLoop fuel acc (members.render lit ++ 0x7d :: rest) =
      some (.object (acc ++ members.values val), rest) := by
  obtain ⟨fuel, rfl⟩ := Nat.exists_eq_succ_of_ne_zero (Nat.ne_zero_of_lt hfuel)
  match members with
  | .last beforeKey key afterKey before value after =>
    simp only [JsonMembers.render, List.length_append, List.length_cons] at hfuel
    have hends := endsNumber_ws after (endsNumber_cons (.inr (.inr rfl)) rest)
    rw [JsonMembers.render, parseObjectLoop_member (hlit key) (parseValue_render hlit value hends (by omega))]
    rfl
  | .more beforeKey key afterKey before value after members =>
    simp only [JsonMembers.render, List.length_append, List.length_cons] at hfuel
    have hends := endsNumber_ws after (endsNumber_cons (.inl rfl) (members.render lit ++ 0x7d :: rest))
    rw [JsonMembers.render, List.append_assoc, List.cons_append,
      parseObjectLoop_member (hlit key) (parseValue_render hlit value hends (by omega))]
    show parseObjectLoop fuel (acc ++ [(val key, value.value val)]) (members.render lit ++ 0x7d :: rest) = _
    rw [parseObjectLoop_render hlit members _ (by omega), List.append_assoc]
    rfl

end

/-- A text with white space around it is read as its value. -/
theorem bmJsonParse_render (hlit : ∀ s rest, parseStringRaw (quoted (lit s) ++ rest) = some (val s, rest))
    (before after : Ws) (t : JsonText S) :
    bmJsonParse (before.bytes ++ t.render lit ++ after.bytes) = some (t.value val) := by
  have hends : EndsNumber after.bytes := by
    rw [← List.append_nil after.bytes]
    exact endsNumber_ws after endsNumber_nil
  have hend : skipWs after.bytes = [] := by
    rw [← List.append_nil after.bytes, skipWs_ws]
    rfl
  rw [bmJsonParse, List.append_assoc, ← parseValue_skipWs, parseValue_ws, parseValue_render hlit t hends]
  · show (if skipWs after.bytes = [] then _ else none) = _
    rw [if_pos hend]
  · simp only [List.length_append]
    omega

end

end Bitmessage
