import Bitmessage.Lib.Radix

/-! Byte strings and the unsigned 64-bit arithmetic of the C sources. `size_t` and
`uint64_t` are both 64 bits wide on the supported platforms; their values are
natural numbers below `2 ^ 64`, and every sum, difference and product that the
code forms in these types is reduced. -/

namespace Bitmessage

abbrev Bytes := List UInt8

instance lawfulBEqBytes : LawfulBEq Bytes := inferInstance

/-- The number of values of `size_t` and `uint64_t`. -/
abbrev wordSize : ℕ := 2 ^ 64

theorem one_lt_wordSize : 1 < wordSize := by norm_num

theorem thousand_lt_wordSize : 1000 < wordSize := by norm_num

/-- Unsigned addition. -/
def addW (a b : ℕ) : ℕ := (a + b) % wordSize

/-- Unsigned subtraction. -/
def subW (a b : ℕ) : ℕ := (a + (wordSize - b % wordSize)) % wordSize

/-- Unsigned multiplication. -/
def mulW (a b : ℕ) : ℕ := (a * b) % wordSize

theorem addW_lt (a b : ℕ) : addW a b < wordSize := Nat.mod_lt _ (by norm_num)

theorem mulW_lt (a b : ℕ) : mulW a b < wordSize := Nat.mod_lt _ (by norm_num)

theorem addW_of_lt {a b : ℕ} (h : a + b < wordSize) : addW a b = a + b := Nat.mod_eq_of_lt h

theorem subW_of_le {a b : ℕ} (ha : a < wordSize) (h : b ≤ a) : subW a b = a - b := by
  unfold subW wordSize at *
  omega

theorem subW_one_of_pos {a : ℕ} (ha : a < wordSize) (h : 0 < a) : subW a 1 = a - 1 :=
  subW_of_le ha h

theorem mulW_of_lt {a b : ℕ} (h : a * b < wordSize) : mulW a b = a * b := Nat.mod_eq_of_lt h

/-- The value `v` as `int64_t`, for a `uint64_t` cast to a signed type. -/
def toInt64 (v : ℕ) : ℤ := if v % wordSize < 2 ^ 63 then (v % wordSize : ℕ) else (v % wordSize : ℕ) - 2 ^ 64

/-- The value `v` as `int`, for an unsigned value cast to 32 bits. -/
def toInt32 (v : ℕ) : ℤ := if v % 2 ^ 32 < 2 ^ 31 then (v % 2 ^ 32 : ℕ) else (v % 2 ^ 32 : ℕ) - 2 ^ 32

/-- The `uint64_t` that a signed value is cast to. -/
def ofInt64 (v : ℤ) : ℕ := (v % (2 ^ 64 : ℤ)).toNat

/-- The eight big-endian bytes of a `uint64_t`. -/
def packBe64 (v : ℕ) : Bytes := Radix.beBytes 8 v

end Bitmessage
