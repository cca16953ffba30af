import Bitmessage.Common.Bytes
import Bitmessage.Lib.Radix
import Mathlib.Data.List.DropRight
import Mathlib.Data.List.TakeWhile

/-! Texts as the C library sees them: a string ends at its first NUL, and the classes of characters are those
of the locale `C`. -/

namespace Bitmessage

/-- A C string: the bytes in front of the first zero. -/
def cString (bs : Bytes) : Bytes := bs.takeWhile (· ≠ 0)

/-- The characters of a literal. -/
def ascii (text : String) : Bytes := text.toList.map fun c => UInt8.ofNat c.toNat

/-- `isdigit`. -/
def isDigit (c : UInt8) : Bool := 0x30 ≤ c && c ≤ 0x39

/-- `isspace`. -/
def isSpace (c : UInt8) : Bool := c = 0x20 || (0x09 ≤ c && c ≤ 0x0d)

/-- `tolower`. -/
def toLower (c : UInt8) : UInt8 := if 0x41 ≤ c ∧ c ≤ 0x5a then c + 0x20 else c

/-- `hex_digit`; the conversion `%x` of `sscanf` reads the same digits. -/
def hexDigit (c : UInt8) : Option ℕ :=
  if 0x30 ≤ c ∧ c ≤ 0x39 then some (c.toNat - 0x30)
  else if 0x61 ≤ c ∧ c ≤ 0x66 then some (c.toNat - 0x61 + 10)
  else if 0x41 ≤ c ∧ c ≤ 0x46 then some (c.toNat - 0x41 + 10)
  else none

/-- The number that digits denote. -/
def digitsValue (digits : Bytes) : ℕ := digits.foldl (fun n c => 10 * n + (c.toNat - 0x30)) 0

/-- `strtoll` with base 10, which stops at the first other character and stays in its range. -/
def strtoll (text : Bytes) : ℤ :=
  match text.dropWhile isSpace with
  | 0x2d :: digits => max (-(digitsValue (digits.takeWhile isDigit))) (-2 ^ 63)
  | 0x2b :: digits => min (digitsValue (digits.takeWhile isDigit)) (2 ^ 63 - 1)
  | digits => min (digitsValue (digits.takeWhile isDigit)) (2 ^ 63 - 1)

/-- `atoi`. -/
def atoi (text : Bytes) : ℤ := toInt32 (ofInt64 (strtoll text))

/-- `trim`: without the white space on both sides. -/
def trim (text : Bytes) : Bytes := (text.dropWhile isSpace).rdropWhile isSpace

theorem hexDigit_lt {c : UInt8} {d : ℕ} (h : hexDigit c = some d) : d < 16 := by
  have h9 : (0x39 : UInt8).toNat = 0x39 := rfl
  have hf : (0x66 : UInt8).toNat = 0x66 := rfl
  have hF : (0x46 : UInt8).toNat = 0x46 := rfl
  rw [hexDigit] at h
  split_ifs at h with hdigit hlower hupper
  · have := UInt8.le_iff_toNat_le.mp hdigit.2
    cases h
    omega
  · have := UInt8.le_iff_toNat_le.mp hlower.2
    cases h
    omega
  · have := UInt8.le_iff_toNat_le.mp hupper.2
    cases h
    omega

theorem cString_eq_self {bs : Bytes} (h : ∀ x ∈ bs, x ≠ 0) : cString bs = bs := by
  rw [cString, List.takeWhile_eq_self_iff]
  intro x hx
  exact decide_eq_true (h x hx)

theorem zero_not_mem_cString (bs : Bytes) : 0 ∉ cString bs := by
  intro hmem
  have := List.mem_takeWhile_imp hmem
  simp at this

theorem cString_cons {c : UInt8} (hc : c ≠ 0) (bs : Bytes) : cString (c :: bs) = c :: cString bs :=
  List.takeWhile_cons_of_pos (decide_eq_true hc)

/-- A character behind the string is not part of it; without a NUL it is the next character. -/
theorem cString_append_singleton (bs : Bytes) {c : UInt8} (hc : c ≠ 0) :
    cString (bs ++ [c]) = cString bs ∨ cString (bs ++ [c]) = cString bs ++ [c] := by
  induction bs with
  | nil =>
    right
    show cString [c] = [c]
    simp [cString, hc]
  | cons b bs ih =>
    by_cases hb : b = 0
    · left
      rw [List.cons_append, cString, cString, List.takeWhile_cons_of_neg (by simpa using hb),
        List.takeWhile_cons_of_neg (by simpa using hb)]
    · rw [List.cons_append, cString_cons hb, cString_cons hb, List.cons_append]
      rcases ih with ih | ih
      · left
        rw [ih]
      · right
        rw [ih]

/-- White space at the end does not count. -/
theorem trim_append_space (text : Bytes) {c : UInt8} (hc : isSpace c) : trim (text ++ [c]) = trim text := by
  induction text with
  | nil => simp [trim, hc]
  | cons b text ih =>
    by_cases hb : isSpace b
    · have hstep (rest : Bytes) : trim (b :: rest) = trim rest := by
        rw [trim, trim, List.dropWhile_cons_of_pos hb]
      rw [List.cons_append, hstep, hstep, ih]
    · rw [trim, trim, List.cons_append, List.dropWhile_cons_of_neg hb, List.dropWhile_cons_of_neg hb,
        ← List.cons_append, List.rdropWhile_concat_pos _ _ _ hc]

/-! ### Strings without a NUL -/

/-- The contents of a C string. -/
@[ext]
structure CString where
  bytes : Bytes
  no_nul : ∀ x ∈ bytes, x ≠ 0
  deriving DecidableEq

/-- The string at the start of some bytes. -/
def CString.of (bs : Bytes) : CString := ⟨cString bs, fun _ hx h => zero_not_mem_cString bs (h ▸ hx)⟩

theorem CString.of_bytes (s : CString) : CString.of s.bytes = s := CString.ext (cString_eq_self s.no_nul)

/-! ### Printed numbers -/

/-- The decimal digits of a number. -/
def decimalDigits (n : ℕ) : Bytes := if n = 0 then [0x30] else (Radix.digits 10 n).map fun d => UInt8.ofNat (0x30 + d)

/-- What `%lld` prints. -/
def decimal (n : ℤ) : Bytes := if n < 0 then 0x2d :: decimalDigits n.natAbs else decimalDigits n.natAbs

theorem digitsValue_append_singleton (digits : Bytes) (c : UInt8) :
    digitsValue (digits ++ [c]) = 10 * digitsValue digits + (c.toNat - 0x30) := by
  rw [digitsValue, List.foldl_append]
  rfl

theorem toNat_digit {d : ℕ} (h : d < 10) : (UInt8.ofNat (0x30 + d)).toNat = 0x30 + d := by
  rw [UInt8.toNat_ofNat']
  omega

theorem digitsValue_decimalDigits (n : ℕ) : digitsValue (decimalDigits n) = n := by
  rw [decimalDigits]
  split_ifs with hn
  · rw [hn]
    rfl
  · have hvalue : ∀ ds : List ℕ, (∀ d ∈ ds, d < 10) →
        digitsValue (ds.reverse.map fun d => UInt8.ofNat (0x30 + d)) = Nat.ofDigits 10 ds := by
      intro ds hds
      induction ds with
      | nil => rfl
      | cons d ds ih =>
        rw [List.reverse_cons, List.map_append, List.map_singleton, digitsValue_append_singleton,
          ih fun e he => hds e (List.mem_cons_of_mem d he), toNat_digit (hds d List.mem_cons_self), Nat.ofDigits_cons]
        omega
    rw [Radix.digits, hvalue _ fun d hd => Nat.digits_lt_base (by norm_num) hd, Nat.ofDigits_digits]

theorem isDigit_decimalDigits (n : ℕ) : ∀ c ∈ decimalDigits n, isDigit c = true := by
  intro c hc
  rw [decimalDigits] at hc
  split_ifs at hc
  · rw [List.mem_singleton.mp hc]
    rfl
  · obtain ⟨d, hd, rfl⟩ := List.mem_map.mp hc
    have hlt : d < 10 := Nat.digits_lt_base (by norm_num) (List.mem_reverse.mp hd)
    rw [isDigit, Bool.and_eq_true, decide_eq_true_iff, decide_eq_true_iff, UInt8.le_iff_toNat_le, UInt8.le_iff_toNat_le,
      toNat_digit hlt]
    exact ⟨Nat.le_add_right _ _, by show 0x30 + d ≤ 0x39; omega⟩

theorem decimalDigits_ne_nil (n : ℕ) : decimalDigits n ≠ [] := by
  rw [decimalDigits]
  split_ifs with hn
  · exact List.cons_ne_nil _ _
  · intro h
    rw [List.map_eq_nil_iff, Radix.digits, List.reverse_eq_nil_iff] at h
    exact hn (Nat.digits_eq_nil_iff_eq_zero.mp h)

/-! ### Arrays of characters -/

/-- An array of so many characters and one more, which is always the NUL. -/
structure CharArray (room : ℕ) where
  cells : Bytes
  length_cells : cells.length = room + 1
  last_zero : cells[room]? = some 0

namespace CharArray

variable {room : ℕ}

/-- The array after `memset`. -/
def zeros (room : ℕ) : CharArray room where
  cells := List.replicate (room + 1) 0
  length_cells := List.length_replicate
  last_zero := by
    rw [List.getElem?_replicate, if_pos (Nat.lt_succ_self room)]

/-- `strncpy` of a string up to the last cell, which pads with NUL characters. -/
def strncpy (array : CharArray room) (src : Bytes) : CharArray room where
  cells := src.take room ++ List.replicate (room - src.length) 0 ++ array.cells.drop room
  length_cells := by
    simp only [List.length_append, List.length_take, List.length_replicate, List.length_drop, array.length_cells]
    omega
  last_zero := by
    have hlen : (src.take room ++ List.replicate (room - src.length) 0).length = room := by
      simp only [List.length_append, List.length_take, List.length_replicate]
      omega
    rw [List.getElem?_append_right hlen.le, hlen, Nat.sub_self, List.getElem?_drop, Nat.add_zero, array.last_zero]

/-- The string that is in the array. -/
def text (array : CharArray room) : Bytes := cString array.cells

theorem text_zeros (room : ℕ) : (zeros room).text = [] := by
  show cString (List.replicate (room + 1) 0) = []
  rw [List.replicate_succ]
  rfl

/-- Of what the array held before nothing is left in front of the NUL. -/
theorem text_strncpy (array : CharArray room) {src : Bytes} (hsrc : 0 ∉ src) :
    (array.strncpy src).text = src.take room := by
  have hlast : array.cells.drop room = [0] := by
    apply List.ext_getElem?
    intro i
    rw [List.getElem?_drop]
    cases i with
    | zero => exact array.last_zero
    | succ i =>
      have hlen := array.length_cells
      rw [List.getElem?_eq_none (by omega), List.getElem?_eq_none (by simp)]
  have hzeros : List.replicate (room - src.length) (0 : UInt8) ++ [0] = 0 :: List.replicate (room - src.length) 0 := by
    rw [← List.replicate_succ', List.replicate_succ]
  show cString (src.take room ++ List.replicate (room - src.length) 0 ++ array.cells.drop room) = src.take room
  rw [hlast, List.append_assoc, hzeros, cString, List.takeWhile_append_of_pos]
  · rw [List.takeWhile_cons_of_neg (by simp), List.append_nil]
  · intro x hx
    exact decide_eq_true fun h => hsrc (h ▸ List.mem_of_mem_take hx)

end CharArray

/-! ### Texts of bounded length -/

/-- How a text of so many characters at most is kept. -/
structure TextField (T : ℕ → Type) where
  blank : ∀ room, T room
  put : ∀ {room}, T room → Bytes → T room
  text : ∀ {room}, T room → Bytes

/-- A text by itself. -/
abbrev PlainText (_room : ℕ) : Type := Bytes

/-- An array of characters that `strncpy` writes. -/
def charArrays : TextField CharArray where
  blank := CharArray.zeros
  put := CharArray.strncpy
  text := CharArray.text

def plainTexts : TextField PlainText where
  blank := fun _ => []
  put := fun {room} _ value => value.take room
  text := fun text => text

end Bitmessage
