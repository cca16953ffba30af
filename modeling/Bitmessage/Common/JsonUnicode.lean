import Bitmessage.Common.JsonText

/-! Strings of JSON as sequences of Unicode scalar values: raw characters in UTF-8 and escapes, among them the
pairs of surrogates. The parser encodes each code unit by itself, which is right for all but the pairs. -/

namespace Bitmessage

/-! ### Literals -/

/-- Four hexadecimal digits. -/
structure HexQuad where
  d₀ : UInt8
  d₁ : UInt8
  d₂ : UInt8
  d₃ : UInt8
  number : ℕ
  hexNumber_eq : hexNumber d₀ d₁ d₂ d₃ = some number

def HexQuad.text (q : HexQuad) : Bytes := [0x5c, 0x75, q.d₀, q.d₁, q.d₂, q.d₃]

/-- A part of a string literal that denotes one scalar value. -/
inductive UnicodePart where
  | raw (c : Char) (h : 0x20 ≤ c.toNat ∧ c.toNat ≠ 0x22 ∧ c.toNat ≠ 0x5c)
  | short (esc b : UInt8) (h : shortEscape esc = some b)
  | unit (q : HexQuad) (h : q.number < 0xd800 ∨ 0xe000 ≤ q.number)
  | pair (hi lo : HexQuad) (hhi : 0xd800 ≤ hi.number ∧ hi.number < 0xdc00)
      (hlo : 0xdc00 ≤ lo.number ∧ lo.number < 0xe000)

namespace UnicodePart

def text : UnicodePart → Bytes
  | .raw c _ => String.utf8EncodeChar c
  | .short esc _ _ => [0x5c, esc]
  | .unit q _ => q.text
  | .pair hi lo _ _ => hi.text ++ lo.text

/-- The number of the scalar value. -/
def scalar : UnicodePart → ℕ
  | .raw c _ => c.toNat
  | .short _ b _ => b.toNat
  | .unit q _ => q.number
  | .pair hi lo _ _ => 0x10000 + (hi.number - 0xd800) * 0x400 + (lo.number - 0xdc00)

/-- What the parser stores. -/
def stored : UnicodePart → Bytes
  | .raw c _ => String.utf8EncodeChar c
  | .short _ b _ => [b]
  | .unit q _ => appendUtf8 q.number
  | .pair hi lo _ _ => appendUtf8 hi.number ++ appendUtf8 lo.number

def isPair : UnicodePart → Bool
  | .pair _ _ _ _ => true
  | _ => false

end UnicodePart

/-- A string literal in valid UTF-8 with well-formed escapes. -/
abbrev UnicodeLiteral := List UnicodePart

namespace UnicodeLiteral

def text (s : UnicodeLiteral) : Bytes := s.flatMap UnicodePart.text

/-- The scalar values that the string is made of. -/
def scalars (s : UnicodeLiteral) : List Char := s.map fun p => Char.ofNat p.scalar

def stored (s : UnicodeLiteral) : Bytes := s.flatMap UnicodePart.stored

end UnicodeLiteral

/-- The UTF-8 encoding of scalar values. -/
def utf8 (cs : List Char) : Bytes := cs.flatMap String.utf8EncodeChar

/-! ### Encodings -/

theorem HexQuad.number_lt (q : HexQuad) : q.number < 0x10000 := by
  have h := q.hexNumber_eq
  simp only [hexNumber, Option.bind_eq_some_iff, Option.map_eq_some_iff] at h
  obtain ⟨a, ha, b, hb, c, hc, d, hd, hnumber⟩ := h
  have := hexDigit_lt ha
  have := hexDigit_lt hb
  have := hexDigit_lt hc
  have := hexDigit_lt hd
  omega

theorem toNat_ofNat {n : ℕ} (h : n < 0xd800 ∨ 0xe000 ≤ n ∧ n < 0x110000) : (Char.ofNat n).toNat = n := by
  have hvalid : n.isValidChar := by
    rcases h with h | h
    · exact .inl h
    · exact .inr ⟨by omega, h.2⟩
  rw [Char.ofNat, dif_pos hvalid]
  rfl

/-- Below 0x10000 the parser's encoding is UTF-8. -/
theorem utf8EncodeChar_eq {c : Char} (h : c.toNat < 0x10000) : String.utf8EncodeChar c = appendUtf8 c.toNat := by
  have hval : c.val.toNat = c.toNat := rfl
  simp only [String.utf8EncodeChar, appendUtf8, hval]
  rcases Nat.lt_or_ge c.toNat 0x80 with h1 | h1
  · rw [if_pos (by omega), if_pos h1]
  · rcases Nat.lt_or_ge c.toNat 0x800 with h2 | h2
    · have hlead : c.toNat / 64 % 0x20 + 0xc0 = 0xc0 + c.toNat / 64 := by omega
      rw [if_neg (by omega), if_pos (by omega), if_neg (by omega), if_pos h2, hlead, Nat.add_comm (c.toNat % 0x40)]
    · have hlead : c.toNat / 4096 % 0x10 + 0xe0 = 0xe0 + c.toNat / 4096 := by omega
      rw [if_neg (by omega), if_neg (by omega), if_pos (by omega), if_neg (by omega), if_neg (by omega), hlead,
        Nat.add_comm (c.toNat % 0x40), Nat.add_comm (c.toNat / 64 % 0x40)]

theorem length_utf8EncodeChar_of_le {c : Char} (h : 0x10000 ≤ c.toNat) : (String.utf8EncodeChar c).length = 4 := by
  have hval : c.val.toNat = c.toNat := rfl
  simp only [String.utf8EncodeChar, hval]
  rw [if_neg (by omega), if_neg (by omega), if_neg (by omega)]
  rfl

/-- A byte of an encoding is the code unit itself or above 0x80. -/
theorem of_mem_appendUtf8 {cp : ℕ} (hcp : cp < 0x10000) {b : UInt8} (h : b ∈ appendUtf8 cp) :
    b.toNat = cp ∨ 0x80 ≤ b.toNat := by
  rw [appendUtf8] at h
  split_ifs at h with h1 h2
  · left
    rw [List.mem_singleton.mp h, UInt8.toNat_ofNat']
    omega
  all_goals
    right
    simp only [List.mem_cons, List.not_mem_nil, or_false] at h
  · rcases h with rfl | rfl <;> (rw [UInt8.toNat_ofNat']; omega)
  · rcases h with rfl | rfl | rfl <;> (rw [UInt8.toNat_ofNat']; omega)

theorem of_mem_utf8EncodeChar {c : Char} {b : UInt8} (h : b ∈ String.utf8EncodeChar c) :
    b.toNat = c.toNat ∨ 0x80 ≤ b.toNat := by
  rcases Nat.lt_or_ge c.toNat 0x10000 with hlow | hhigh
  · rw [utf8EncodeChar_eq hlow] at h
    exact of_mem_appendUtf8 hlow h
  · right
    have hval : c.val.toNat = c.toNat := rfl
    simp only [String.utf8EncodeChar, hval] at h
    rw [if_neg (by omega), if_neg (by omega), if_neg (by omega)] at h
    simp only [List.mem_cons, List.not_mem_nil, or_false] at h
    rcases h with rfl | rfl | rfl | rfl <;> (rw [UInt8.toNat_ofNat']; omega)

namespace UnicodePart

theorem scalar_valid (p : UnicodePart) : p.scalar < 0xd800 ∨ 0xe000 ≤ p.scalar ∧ p.scalar < 0x110000 := by
  cases p with
  | raw c h =>
    rcases c.valid with hvalid | hvalid
    · exact .inl hvalid
    · exact .inr ⟨by show 0xe000 ≤ c.val.toNat; omega, hvalid.2⟩
  | short esc b h =>
    have := b.toNat_lt
    exact .inl (by show b.toNat < 0xd800; omega)
  | unit q h =>
    have := q.number_lt
    show q.number < 0xd800 ∨ 0xe000 ≤ q.number ∧ q.number < 0x110000
    omega
  | pair hi lo hhi hlo =>
    right
    show 0xe000 ≤ 0x10000 + (hi.number - 0xd800) * 0x400 + (lo.number - 0xdc00) ∧
      0x10000 + (hi.number - 0xd800) * 0x400 + (lo.number - 0xdc00) < 0x110000
    omega

theorem toNat_scalar (p : UnicodePart) : (Char.ofNat p.scalar).toNat = p.scalar := toNat_ofNat p.scalar_valid

/-- A part that is no pair is stored in UTF-8. -/
theorem stored_eq {p : UnicodePart} (h : p.isPair = false) :
    p.stored = String.utf8EncodeChar (Char.ofNat p.scalar) := by
  have hnat := p.toNat_scalar
  cases p with
  | raw c hc => exact congrArg String.utf8EncodeChar (Char.ofNat_toNat c).symm
  | short esc b hb =>
    have hascii : b < 0x80 := by
      rw [shortEscape] at hb
      split_ifs at hb <;> cases hb <;> decide
    have hlt : b.toNat < 0x80 := UInt8.lt_iff_toNat_lt.mp hascii
    have hnat : (Char.ofNat b.toNat).toNat = b.toNat := hnat
    show [b] = String.utf8EncodeChar (Char.ofNat b.toNat)
    rw [utf8EncodeChar_eq (by omega), hnat, appendUtf8_byte hascii]
  | unit q hq =>
    have hlt := q.number_lt
    have hnat : (Char.ofNat q.number).toNat = q.number := hnat
    show appendUtf8 q.number = String.utf8EncodeChar (Char.ofNat q.number)
    rw [utf8EncodeChar_eq (by omega), hnat]
  | pair hi lo hhi hlo => cases h

theorem length_appendUtf8_surrogate {cp : ℕ} (h : 0xd800 ≤ cp) : (appendUtf8 cp).length = 3 := by
  rw [appendUtf8, if_neg (by omega), if_neg (by omega)]
  rfl

/-- A pair takes six bytes where UTF-8 has four. -/
theorem length_stored (p : UnicodePart) :
    p.stored.length = (String.utf8EncodeChar (Char.ofNat p.scalar)).length + if p.isPair then 2 else 0 := by
  cases hp : p.isPair with
  | false => rw [stored_eq hp, if_neg (by decide), Nat.add_zero]
  | true =>
    cases p with
    | pair hi lo hhi hlo =>
      have hnat := toNat_scalar (.pair hi lo hhi hlo)
      have hscalar : 0x10000 ≤ (pair hi lo hhi hlo).scalar := Nat.le_add_right_of_le (Nat.le_add_right _ _)
      rw [length_utf8EncodeChar_of_le (by omega), stored, List.length_append, length_appendUtf8_surrogate hhi.1,
        length_appendUtf8_surrogate (le_trans (by norm_num) hlo.1)]
      rfl
    | _ => cases hp

/-- Only the scalar value zero is stored with a NUL. -/
theorem scalar_eq_zero {p : UnicodePart} (h : 0 ∈ p.stored) : p.scalar = 0 := by
  have hzero : (0 : UInt8).toNat = 0 := rfl
  cases p with
  | raw c hc =>
    have := of_mem_utf8EncodeChar h
    show c.toNat = 0
    omega
  | short esc b hb =>
    have hb0 : (0 : UInt8) = b := List.mem_singleton.mp h
    show b.toNat = 0
    rw [← hb0]
    rfl
  | unit q hq =>
    have := of_mem_appendUtf8 q.number_lt h
    show q.number = 0
    omega
  | pair hi lo hhi hlo =>
    exfalso
    rcases List.mem_append.mp h with hmem | hmem
    · have := of_mem_appendUtf8 hi.number_lt hmem
      omega
    · have := of_mem_appendUtf8 lo.number_lt hmem
      omega

theorem parseStringLoop_bytes {bytes : Bytes} (h : ∀ b ∈ bytes, b ≠ 0x22 ∧ b ≠ 0x5c) (out text : Bytes) :
    parseStringLoop out (bytes ++ text) = parseStringLoop (out ++ bytes) text := by
  induction bytes generalizing out with
  | nil => rw [List.nil_append, List.append_nil]
  | cons b bytes ih =>
    have hb := h b List.mem_cons_self
    rw [List.cons_append, parseStringLoop_raw hb.1 hb.2, ih fun x hx => h x (List.mem_cons_of_mem b hx),
      List.append_assoc, List.singleton_append]

theorem parseStringLoop_quad (q : HexQuad) (out text : Bytes) :
    parseStringLoop out (q.text ++ text) = parseStringLoop (out ++ appendUtf8 q.number) text :=
  parseStringLoop_unicode q.hexNumber_eq out text

theorem parseStringLoop_part (p : UnicodePart) (out text : Bytes) :
    parseStringLoop out (p.text ++ text) = parseStringLoop (out ++ p.stored) text := by
  cases p with
  | raw c h =>
    apply parseStringLoop_bytes
    intro b hb
    have hnat := of_mem_utf8EncodeChar hb
    have hne (d : UInt8) (hc : c.toNat ≠ d.toNat) (hd : d.toNat < 0x80) : b ≠ d := by
      rintro rfl
      omega
    exact ⟨hne 0x22 h.2.1 (by decide), hne 0x5c h.2.2 (by decide)⟩
  | short esc b h => exact parseStringLoop_short h out text
  | unit q h => exact parseStringLoop_quad q out text
  | pair hi lo hhi hlo =>
    show parseStringLoop out (hi.text ++ lo.text ++ text) = _
    rw [List.append_assoc, parseStringLoop_quad, parseStringLoop_quad, List.append_assoc]
    rfl

end UnicodePart

namespace UnicodeLiteral

theorem parseStringLoop_text (s : UnicodeLiteral) (out rest : Bytes) :
    parseStringLoop out (s.text ++ rest) = parseStringLoop (out ++ s.stored) rest := by
  induction s generalizing out with
  | nil =>
    show parseStringLoop out rest = parseStringLoop (out ++ []) rest
    rw [List.append_nil]
  | cons p s ih =>
    show parseStringLoop out (p.text ++ text s ++ _) = parseStringLoop (out ++ (p.stored ++ stored s)) _
    rw [List.append_assoc, p.parseStringLoop_part, ih, List.append_assoc]

theorem parseStringRaw_text (s : UnicodeLiteral) (rest : Bytes) :
    parseStringRaw (quoted s.text ++ rest) = some (CString.of s.stored, rest) :=
  parseStringRaw_quoted (fun rest => parseStringLoop_text s [] rest) rest

theorem length_stored (s : UnicodeLiteral) :
    s.stored.length = (utf8 s.scalars).length + 2 * s.countP UnicodePart.isPair := by
  induction s with
  | nil => rfl
  | cons p s ih =>
    show (p.stored ++ stored s).length =
      (String.utf8EncodeChar (Char.ofNat p.scalar) ++ utf8 (scalars s)).length + 2 * List.countP _ (p :: s)
    rw [List.length_append, List.length_append, p.length_stored, ih, List.countP_cons]
    split_ifs <;> omega

theorem stored_eq {s : UnicodeLiteral} (h : ∀ p ∈ s, p.isPair = false) : s.stored = utf8 s.scalars := by
  induction s with
  | nil => rfl
  | cons p s ih =>
    show p.stored ++ stored s = String.utf8EncodeChar (Char.ofNat p.scalar) ++ utf8 (scalars s)
    rw [UnicodePart.stored_eq (h p List.mem_cons_self), ih fun x hx => h x (List.mem_cons_of_mem p hx)]

/-- The NUL is one of the scalar values. -/
def HasNul (s : UnicodeLiteral) : Prop := Char.ofNat 0 ∈ s.scalars

instance (s : UnicodeLiteral) : Decidable s.HasNul := inferInstanceAs (Decidable (_ ∈ _))

theorem of_stored {s : UnicodeLiteral} (h : ¬s.HasNul) : (CString.of s.stored).bytes = s.stored := by
  apply cString_eq_self
  intro x hx hzero
  obtain ⟨p, hp, hmem⟩ := List.mem_flatMap.mp hx
  apply h
  rw [HasNul, ← UnicodePart.scalar_eq_zero (hzero ▸ hmem)]
  exact List.mem_map_of_mem hp

/-- What is stored is the UTF-8 encoding exactly when there is no pair. -/
theorem stored_eq_iff (s : UnicodeLiteral) : s.stored = utf8 s.scalars ↔ ∀ p ∈ s, p.isPair = false := by
  constructor
  · intro h p hp
    have hlen := s.length_stored
    rw [h] at hlen
    have hcount : s.countP UnicodePart.isPair = 0 := by omega
    simpa using List.countP_eq_zero.mp hcount p hp
  · exact stored_eq

end UnicodeLiteral

/-! ### All strings of a text and of a tree -/

section

variable {S : Type}

mutual

/-- The literals of a text in their order, keys and strings. -/
def JsonText.literals : JsonText S → List S
  | .string s => [s]
  | .array items => items.literals
  | .object members => members.literals
  | _ => []

def JsonItems.literals : JsonItems S → List S
  | .last _ item _ => item.literals
  | .more _ item _ items => item.literals ++ items.literals

def JsonMembers.literals : JsonMembers S → List S
  | .last _ key _ _ value _ => key :: value.literals
  | .more _ key _ _ value _ members => key :: value.literals ++ members.literals

end

mutual

/-- The strings and keys of a tree in their order. -/
def JsonValue.strings : JsonValue → List CString
  | .string s => [s]
  | .array items => itemStrings items
  | .object members => memberStrings members
  | _ => []

def itemStrings : List JsonValue → List CString
  | [] => []
  | item :: items => item.strings ++ itemStrings items

def memberStrings : List (CString × JsonValue) → List CString
  | [] => []
  | (key, value) :: members => key :: value.strings ++ memberStrings members

end

mutual

theorem strings_value (val : S → CString) : ∀ t : JsonText S, (t.value val).strings = t.literals.map val
  | .null => rfl
  | .bool _ => rfl
  | .number _ => rfl
  | .string _ => rfl
  | .emptyArray _ => rfl
  | .array items => itemStrings_values val items
  | .emptyObject _ => rfl
  | .object members => memberStrings_values val members

theorem itemStrings_values (val : S → CString) :
    ∀ items : JsonItems S, itemStrings (items.values val) = items.literals.map val
  | .last _ item _ => by
    show (item.value val).strings ++ [] = item.literals.map val
    rw [List.append_nil, strings_value val item]
  | .more _ item _ items => by
    show (item.value val).strings ++ itemStrings (items.values val) = (item.literals ++ items.literals).map val
    rw [strings_value val item, itemStrings_values val items, List.map_append]

theorem memberStrings_values (val : S → CString) :
    ∀ members : JsonMembers S, memberStrings (members.values val) = members.literals.map val
  | .last _ key _ _ value _ => by
    show val key :: (value.value val).strings ++ [] = (key :: value.literals).map val
    rw [List.append_nil, strings_value val value, List.map_cons]
  | .more _ key _ _ value _ members => by
    show val key :: (value.value val).strings ++ memberStrings (members.values val) =
      (key :: value.literals ++ members.literals).map val
    rw [strings_value val value, memberStrings_values val members, List.map_append, List.map_cons]

end

end

/-! ### The parser on Unicode -/

/-- Each string of the tree is the UTF-8 encoding of what its literal denotes, unless that has a NUL in it. -/
def FaithfulStrings (t : JsonText UnicodeLiteral) (v : JsonValue) : Prop :=
  List.Forall₂ (fun s c => s.HasNul ∨ c.bytes = utf8 s.scalars) t.literals v.strings

/-- Valid text is read, and faithfully exactly when each string without a NUL is free of pairs. -/
theorem json_text_preserved_iff (before after : Ws) (t : JsonText UnicodeLiteral) :
    ∃ v, bmJsonParse (before.bytes ++ t.render UnicodeLiteral.text ++ after.bytes) = some v ∧
      (FaithfulStrings t v ↔ ∀ s ∈ t.literals, s.HasNul ∨ ∀ p ∈ s, p.isPair = false) := by
  have hparse := bmJsonParse_render UnicodeLiteral.parseStringRaw_text before after t
  refine ⟨_, hparse, ?_⟩
  have hone (s : UnicodeLiteral) : (s.HasNul ∨ (CString.of s.stored).bytes = utf8 s.scalars) ↔
      (s.HasNul ∨ ∀ p ∈ s, p.isPair = false) := by
    by_cases hnul : s.HasNul
    · exact ⟨fun _ => .inl hnul, fun _ => .inl hnul⟩
    · rw [UnicodeLiteral.of_stored hnul, s.stored_eq_iff]
  rw [FaithfulStrings, strings_value, List.forall₂_map_right_iff, List.forall₂_same]
  constructor
  · intro h s hs
    exact (hone s).mp (h s hs)
  · intro h s hs
    exact (hone s).mpr (h s hs)

/-- The escapes of U+1F600. -/
def smileyLiteral : UnicodeLiteral :=
  [.pair ⟨0x64, 0x38, 0x33, 0x64, 0xd83d, by decide⟩ ⟨0x64, 0x65, 0x30, 0x30, 0xde00, by decide⟩ (by decide)
    (by decide)]

/-- The two halves of a pair are stored in three bytes each, which is no UTF-8. -/
theorem surrogates_apart :
    (JsonText.string smileyLiteral).render UnicodeLiteral.text = ascii "\"\\ud83d\\ude00\"" ∧
      ∃ c : CString, bmJsonParse (ascii "\"\\ud83d\\ude00\"") = some (.string c) ∧
        c.bytes = [0xed, 0xa0, 0xbd, 0xed, 0xb8, 0x80] ∧
        ¬FaithfulStrings (.string smileyLiteral) (.string c) := by
  have hrender : (JsonText.string smileyLiteral).render UnicodeLiteral.text = ascii "\"\\ud83d\\ude00\"" := by
    decide +kernel
  have hutf8 : utf8 smileyLiteral.scalars = [0xf0, 0x9f, 0x98, 0x80] := by decide +kernel
  have hbytes : (CString.of smileyLiteral.stored).bytes = [0xed, 0xa0, 0xbd, 0xed, 0xb8, 0x80] := by decide +kernel
  have hparse := bmJsonParse_render UnicodeLiteral.parseStringRaw_text ⟨[], nofun⟩ ⟨[], nofun⟩ (.string smileyLiteral)
  rw [hrender, List.nil_append, List.append_nil] at hparse
  refine ⟨hrender, CString.of smileyLiteral.stored, hparse, hbytes, ?_⟩
  intro h
  rcases (List.forall₂_cons.mp h).1 with hnul | hsame
  · exact absurd hnul (by decide +kernel)
  · rw [hbytes, hutf8] at hsame
    exact absurd hsame (by decide)

end Bitmessage
