import Bitmessage.Common.Bytes

/-! Variable-length integers of the protocol: one byte below `0xfd`, else a marker byte
and two, four or eight big-endian bytes. The decoder takes whatever follows in the
buffer and answers the number of bytes it has consumed, zero when the integer is cut
off. -/

namespace Bitmessage

open Radix

/-- `bm_varint_size`. -/
def varintSize (v : ℕ) : ℕ :=
  if v < 0xfd then 1 else if v ≤ 0xffff then 3 else if v ≤ 0xffffffff then 5 else 9

/-- `bm_varint_encode`. -/
def varintEncode (v : ℕ) : Bytes :=
  if v < 0xfd then [UInt8.ofNat v]
  else if v ≤ 0xffff then 0xfd :: beBytes 2 v
  else if v ≤ 0xffffffff then 0xfe :: beBytes 4 v
  else 0xff :: beBytes 8 v

/-- The number of bytes behind the marker byte. -/
def varintWidth (x : UInt8) : ℕ :=
  if x < 0xfd then 0 else if x = 0xfd then 2 else if x = 0xfe then 4 else 8

/-- `bm_varint_decode`: the number of bytes consumed and the value. The value is written only
when the integer is complete; the callers initialise it to zero. -/
def varintDecode : Bytes → ℕ × ℕ
  | [] => (0, 0)
  | x :: data =>
    if x < 0xfd then (1, x.toNat)
    else if data.length < varintWidth x then (0, 0)
    else (1 + varintWidth x, beNat (data.take (varintWidth x)))

/-- The number of bytes that `bm_varint_decode` looks at. -/
def varintTouched : Bytes → ℕ
  | [] => 0
  | x :: data => if data.length < varintWidth x then 1 else 1 + varintWidth x

theorem varintWidth_le (x : UInt8) : varintWidth x ≤ 8 := by
  unfold varintWidth
  split_ifs <;> omega

theorem varintTouched_le (data : Bytes) : varintTouched data ≤ data.length := by
  cases data with
  | nil => rfl
  | cons x data =>
    simp only [varintTouched, List.length_cons]
    split <;> omega

/-- A complete integer lies inside the data, and its value is a `uint64_t`. -/
theorem varintDecode_le (data : Bytes) : (varintDecode data).1 ≤ data.length := by
  cases data with
  | nil => rfl
  | cons x data =>
    simp only [varintDecode, List.length_cons]
    split_ifs <;> simp only <;> omega

theorem varintDecode_lt (data : Bytes) : (varintDecode data).2 < wordSize := by
  cases data with
  | nil => simp [varintDecode]
  | cons x data =>
    simp only [varintDecode]
    split_ifs with h₁ h₂
    · exact lt_trans x.toNat_lt (by norm_num)
    · norm_num
    · refine lt_of_lt_of_le (beNat_lt _) ?_
      calc 256 ^ (data.take (varintWidth x)).length ≤ 256 ^ 8 :=
            Nat.pow_le_pow_right (by norm_num) (by
              have := varintWidth_le x
              simp only [List.length_take]
              omega)
        _ = wordSize := by norm_num

theorem varintDecode_length_le_nine (data : Bytes) : (varintDecode data).1 ≤ 9 := by
  cases data with
  | nil => simp [varintDecode]
  | cons x data =>
    have := varintWidth_le x
    simp only [varintDecode]
    split_ifs <;> simp only <;> omega

/-- No integer is longer than nine bytes. -/
theorem take_nine (data : Bytes) :
    varintDecode (data.take 9) = varintDecode data ∧ varintTouched (data.take 9) = varintTouched data := by
  cases data with
  | nil => exact ⟨rfl, rfl⟩
  | cons x data =>
    have hw := varintWidth_le x
    have hshort : (data.take 8).length < varintWidth x ↔ data.length < varintWidth x := by
      rw [List.length_take]
      omega
    rw [List.take_succ_cons]
    simp only [varintDecode, varintTouched, hshort, List.take_take, Nat.min_eq_left hw, and_self]

theorem length_varintEncode (v : ℕ) : (varintEncode v).length = varintSize v := by
  unfold varintEncode varintSize
  split_ifs <;> simp

theorem varintSize_le (v : ℕ) : varintSize v ≤ 9 := by
  unfold varintSize
  split_ifs <;> omega

/-- Decoding behind a marker byte. -/
theorem varintDecode_marker {x : UInt8} (hx : ¬ x < 0xfd) {v : ℕ} (hv : v < 256 ^ varintWidth x) (rest : Bytes) :
    varintDecode (x :: (beBytes (varintWidth x) v ++ rest)) = (1 + varintWidth x, v) := by
  have hlen : ¬ (beBytes (varintWidth x) v ++ rest).length < varintWidth x := by simp
  have htake : (beBytes (varintWidth x) v ++ rest).take (varintWidth x) = beBytes (varintWidth x) v :=
    List.take_left' (length_beBytes _ _)
  simp only [varintDecode, if_neg hx, if_neg hlen, htake, beNat_beBytes_of_lt hv]

/-- What is encoded is decoded, whatever follows. -/
theorem varintDecode_varintEncode {v : ℕ} (hv : v < wordSize) (rest : Bytes) :
    varintDecode (varintEncode v ++ rest) = (varintSize v, v) := by
  unfold varintEncode varintSize
  split_ifs with h₁ h₂ h₃
  · have hlt : UInt8.ofNat v < 0xfd := by
      rw [UInt8.lt_iff_toNat_lt, UInt8.toNat_ofNat', Nat.mod_eq_of_lt (by omega)]
      exact h₁
    have hval : (UInt8.ofNat v).toNat = v := by
      rw [UInt8.toNat_ofNat', Nat.mod_eq_of_lt (by omega)]
    simp [varintDecode, hlt, hval]
  · exact varintDecode_marker (x := 0xfd) (by decide) (v := v) (by simp [varintWidth]; omega) rest
  · exact varintDecode_marker (x := 0xfe) (by decide) (v := v) (by simp [varintWidth]; omega) rest
  · exact varintDecode_marker (x := 0xff) (by decide) (v := v) (lt_of_lt_of_eq hv (by rfl)) rest

example : varintDecode [0xfd, 0x20, 0xfc, 0x07] = (3, 8444) := by decide

end Bitmessage
