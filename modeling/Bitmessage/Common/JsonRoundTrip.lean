import Bitmessage.Common.JsonText

/-! What the printer of JSON writes, the parser reads: every tree of values whose numbers are integers of at most
53 bits comes back. -/

namespace Bitmessage

/-! ### Trees -/

/-- A tree of values without a number that printing would round. -/
inductive JsonTree where
  | null
  | bool (b : Bool)
  | int (n : ℤ) (h : n.natAbs ≤ 2 ^ 53)
  | string (s : CString)
  | array (items : List JsonTree)
  | object (members : List (CString × JsonTree))

mutual

/-- The tree as the program has it. -/
def JsonTree.value : JsonTree → JsonValue
  | .null => .null
  | .bool b => .bool b
  | .int n _ => .number (Binary64.ofInt n)
  | .string s => .string s
  | .array items => .array (itemValues items)
  | .object members => .object (memberValues members)

def itemValues : List JsonTree → List JsonValue
  | [] => []
  | item :: items => item.value :: itemValues items

def memberValues : List (CString × JsonTree) → List (CString × JsonValue)
  | [] => []
  | (key, value) :: members => (key, value.value) :: memberValues members

end

/-! ### Their texts -/

def noWs : Ws := ⟨[], fun _ h => nomatch h⟩

/-- A printed integer as the grammar has it. -/
def NumberLiteral.ofInt (n : ℤ) : NumberLiteral where
  minus := decide (n < 0)
  int := ⟨decimalDigits n.natAbs, decimalDigits_ne_nil _, isDigit_decimalDigits _⟩
  frac := none
  exp := none

mutual

def JsonTree.text : JsonTree → JsonText CString
  | .null => .null
  | .bool b => .bool b
  | .int n _ => .number (NumberLiteral.ofInt n)
  | .string s => .string s
  | .array [] => .emptyArray noWs
  | .array (item :: items) => .array (itemsText item.text items)
  | .object [] => .emptyObject noWs
  | .object ((key, value) :: members) => .object (membersText key value.text members)

def itemsText (item : JsonText CString) : List JsonTree → JsonItems CString
  | [] => .last noWs item noWs
  | next :: items => .more noWs item noWs (itemsText next.text items)

def membersText (key : CString) (value : JsonText CString) : List (CString × JsonTree) → JsonMembers CString
  | [] => .last noWs key noWs noWs value noWs
  | (nextKey, next) :: members => .more noWs key noWs noWs value noWs (membersText nextKey next.text members)

end

/-- What stands between the quotes of a printed string. -/
def escapedLit (s : CString) : Bytes := s.bytes.flatMap escapedByte

/-! ### The printer writes the texts -/

theorem toLongLong_ofInt {n : ℤ} (h : n.natAbs ≤ 2 ^ 53) : toLongLong (Binary64.ofInt n) = n := by
  rw [toLongLong, Binary64.trunc_ofInt h]
  exact if_pos ⟨by omega, by omega⟩

theorem text_ofInt {n : ℤ} (h : n.natAbs ≤ 2 ^ 53) : (NumberLiteral.ofInt n).text = numberText (Binary64.ofInt n) := by
  rw [numberText, toLongLong_ofInt h, if_pos (Binary64.beq_self_ofInt n), decimal]
  show (if decide (n < 0) = true then _ else _) ++ (decimalDigits n.natAbs ++ ([] ++ [])) = _
  rw [List.append_nil, List.append_nil]
  by_cases hneg : n < 0
  · rw [if_pos (decide_eq_true hneg), if_pos hneg]
    rfl
  · rw [if_neg (by simpa using hneg), if_neg hneg]
    rfl

theorem strtod_ofInt (n : ℤ) : strtod (NumberLiteral.ofInt n).parts = Binary64.ofInt n := by
  show Binary64.ofRat (decide (n < 0)) (digitsValue (decimalDigits n.natAbs ++ []) * 10 ^ ((0 : ℤ) - 0)) = _
  rw [List.append_nil, digitsValue_decimalDigits, sub_zero, zpow_zero, mul_one]
  rfl

theorem quoted_escapedLit (s : CString) : quoted (escapedLit s) = escapedString s := rfl

mutual

theorem render_text : ∀ t : JsonTree, t.text.render escapedLit = serializeValue t.value
  | .null => rfl
  | .bool b => rfl
  | .int n h => text_ofInt h
  | .string s => rfl
  | .array [] => rfl
  | .array (item :: items) => by
    show 0x5b :: (itemsText item.text items).render escapedLit ++ [0x5d] =
      0x5b :: serializeValue item.value ++ serializeItems (itemValues items) ++ [0x5d]
    rw [render_itemsText items, render_text item]
    rfl
  | .object [] => rfl
  | .object ((key, value) :: members) => by
    show 0x7b :: (membersText key value.text members).render escapedLit ++ [0x7d] =
      0x7b :: escapedString key ++ 0x3a :: serializeValue value.value ++ serializeMembers (memberValues members) ++
        [0x7d]
    rw [render_membersText members, render_text value]
    rfl

theorem render_itemsText : ∀ (items : List JsonTree) (item : JsonText CString),
    (itemsText item items).render escapedLit = item.render escapedLit ++ serializeItems (itemValues items)
  | [], item => rfl
  | next :: items, item => by
    show [] ++ item.render escapedLit ++ [] ++ 0x2c :: (itemsText next.text items).render escapedLit = _
    rw [render_itemsText items, render_text next, List.nil_append, List.append_nil]
    rfl

theorem render_membersText : ∀ (members : List (CString × JsonTree)) (key : CString) (value : JsonText CString),
    (membersText key value members).render escapedLit =
      escapedString key ++ 0x3a :: value.render escapedLit ++ serializeMembers (memberValues members)
  | [], key, value => by
    show [] ++ quoted (escapedLit key) ++ [] ++ 0x3a :: [] ++ value.render escapedLit ++ [] = _
    simp [quoted_escapedLit, memberValues, serializeMembers]
  | (nextKey, next) :: members, key, value => by
    show [] ++ quoted (escapedLit key) ++ [] ++ 0x3a :: [] ++ value.render escapedLit ++ [] ++
      0x2c :: (membersText nextKey next.text members).render escapedLit = _
    rw [render_membersText members, render_text next]
    simp [quoted_escapedLit, memberValues, serializeMembers]

end

mutual

theorem value_text : ∀ t : JsonTree, t.text.value id = t.value
  | .null => rfl
  | .bool b => rfl
  | .int n h => congrArg JsonValue.number (strtod_ofInt n)
  | .string s => rfl
  | .array [] => rfl
  | .array (item :: items) => by
    show JsonValue.array ((itemsText item.text items).values id) = .array (item.value :: itemValues items)
    rw [values_itemsText items, value_text item]
  | .object [] => rfl
  | .object ((key, value) :: members) => by
    show JsonValue.object ((membersText key value.text members).values id) =
      .object ((key, value.value) :: memberValues members)
    rw [values_membersText members, value_text value]

theorem values_itemsText : ∀ (items : List JsonTree) (item : JsonText CString),
    (itemsText item items).values id = item.value id :: itemValues items
  | [], item => rfl
  | next :: items, item => by
    show item.value id :: (itemsText next.text items).values id = _
    rw [values_itemsText items, value_text next]
    rfl

theorem values_membersText : ∀ (members : List (CString × JsonTree)) (key : CString) (value : JsonText CString),
    (membersText key value members).values id = (key, value.value id) :: memberValues members
  | [], key, value => rfl
  | (nextKey, next) :: members, key, value => by
    show (key, value.value id) :: (membersText nextKey next.text members).values id = _
    rw [values_membersText members, value_text next]
    rfl

end

/-! ### The parser reads the printed strings -/

theorem hexDigit_hexChar : ∀ n < 16, hexDigit (hexChar n) = some n := by decide

theorem hexNumber_control {b : UInt8} (h : b < 0x20) :
    hexNumber 0x30 0x30 (hexChar (b.toNat / 16)) (hexChar (b.toNat % 16)) = some b.toNat := by
  have hlt : b.toNat < 0x20 := UInt8.lt_iff_toNat_lt.mp h
  have hzero : hexDigit 0x30 = some 0 := by decide
  rw [hexNumber, hzero, hexDigit_hexChar _ (by omega), hexDigit_hexChar _ (by omega)]
  simp only [Option.bind_some, Option.map_some, Option.some.injEq]
  omega

/-- Whichever way a byte is printed, it is read as itself. -/
theorem parseStringLoop_escapedByte (b : UInt8) (out text : Bytes) :
    parseStringLoop out (escapedByte b ++ text) = parseStringLoop (out ++ [b]) text := by
  rw [escapedByte]
  split_ifs with hquote hbackslash hn hr ht hcontrol
  · rw [hquote]
    exact parseStringLoop_short rfl out text
  · rw [hbackslash]
    exact parseStringLoop_short rfl out text
  · rw [hn]
    exact parseStringLoop_short rfl out text
  · rw [hr]
    exact parseStringLoop_short rfl out text
  · rw [ht]
    exact parseStringLoop_short rfl out text
  · have hascii : b < 0x80 := UInt8.lt_trans hcontrol (show (0x20 : UInt8) < 0x80 by decide)
    rw [← appendUtf8_byte hascii]
    exact parseStringLoop_unicode (hexNumber_control hcontrol) out text
  · exact parseStringLoop_raw hquote hbackslash out text

theorem parseStringLoop_escaped (bytes out text : Bytes) :
    parseStringLoop out (bytes.flatMap escapedByte ++ text) = parseStringLoop (out ++ bytes) text := by
  induction bytes generalizing out with
  | nil => rw [List.flatMap_nil, List.nil_append, List.append_nil]
  | cons b bytes ih =>
    rw [List.flatMap_cons, List.append_assoc, parseStringLoop_escapedByte, ih, List.append_assoc, List.singleton_append]

theorem parseStringRaw_escaped (s : CString) (rest : Bytes) :
    parseStringRaw (quoted (escapedLit s) ++ rest) = some (id s, rest) := by
  rw [escapedLit, parseStringRaw_quoted fun rest => parseStringLoop_escaped s.bytes [] rest, List.nil_append,
    s.of_bytes]
  rfl

/-- What is printed is read back. -/
theorem json_round_trip (t : JsonTree) : bmJsonParse (bmJsonSerialize t.value) = some t.value := by
  have hparse := bmJsonParse_render parseStringRaw_escaped noWs noWs t.text
  rw [value_text] at hparse
  rw [bmJsonSerialize, ← render_text, ← hparse]
  congr 1
  exact (List.append_nil _).symm

end Bitmessage
