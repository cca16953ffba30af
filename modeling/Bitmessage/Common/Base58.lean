import Bitmessage.Common.Bytes

/-! Base 58 as the sources have it. The encoder divides a big-endian byte string by 58
in place, one digit at a time; a byte that has become zero at the front is dropped,
one for each division. The decoder reads the string as one big integer and writes that
integer in as few bytes as possible, so leading zero bytes do not survive. -/

namespace Bitmessage

open Radix

/-- `123456789ABCDEFGHJKLMNPQRSTUVWXYZabcdefghijkmnopqrstuvwxyz`. -/
def base58Alphabet : Bytes :=
  [49, 50, 51, 52, 53, 54, 55, 56, 57, 65, 66, 67, 68, 69, 70, 71, 72, 74, 75, 76, 77, 78, 80, 81, 82, 83, 84, 85,
    86, 87, 88, 89, 90, 97, 98, 99, 100, 101, 102, 103, 104, 105, 106, 107, 109, 110, 111, 112, 113, 114, 115, 116,
    117, 118, 119, 120, 121, 122]

/-- `divmod58`: the quotient, byte by byte, and the remainder. -/
def divmod58 (remainder : ℕ) : Bytes → Bytes × ℕ
  | [] => ([], remainder)
  | d :: ds =>
    let temp := remainder * 256 + d.toNat
    let r := divmod58 (temp % 58) ds
    (UInt8.ofNat (temp / 58) :: r.1, r.2)

/-- The loop of `bm_base58_encode` on the bytes from `start_at` on. The digits are written from
the end of the buffer of twice the length, which is the bound on their number. -/
def base58Digits : ℕ → Bytes → List ℕ → List ℕ
  | fuel + 1, d :: ds, temp =>
    let r := divmod58 0 (d :: ds)
    base58Digits fuel (if r.1.head? = some 0 then r.1.tail else r.1) (r.2 :: temp)
  | _, _, temp => temp

/-- `bm_base58_encode`, when its allocations succeed. -/
def base58Encode (input : Bytes) : Option Bytes :=
  if input = [] then none
  else
    let zeros := input.takeWhile (· = 0)
    let temp := base58Digits (input.length * 2) (input.dropWhile (· = 0)) []
    some ((List.replicate zeros.length 0 ++ temp.dropWhile (· = 0)).map fun d => base58Alphabet.getD d 0)

/-- `bm_base58_decode`: the string as a number, and its bytes without leading zeros. -/
def base58Decode (input : Bytes) : Option Bytes :=
  if input = [] then none
  else if input.all fun c => decide (c ∈ base58Alphabet) then
    some ((digits 256 (value 58 (input.map fun c => base58Alphabet.idxOf c))).map UInt8.ofNat)
  else none

/-! ### The encoder computes the digits -/

theorem divmod58_spec {rem : ℕ} (hrem : rem < 58) (ds : Bytes) :
    (divmod58 rem ds).2 < 58 ∧ (divmod58 rem ds).1.length = ds.length ∧
      beNat (divmod58 rem ds).1 * 58 + (divmod58 rem ds).2 = rem * 256 ^ ds.length + beNat ds := by
  induction ds generalizing rem with
  | nil => simp [divmod58, hrem]
  | cons d ds ih =>
    have hd := d.toNat_lt
    have hmod : (rem * 256 + d.toNat) % 58 < 58 := Nat.mod_lt _ (by norm_num)
    obtain ⟨hr, hlen, hval⟩ := ih hmod
    have hq : (UInt8.ofNat ((rem * 256 + d.toNat) / 58)).toNat = (rem * 256 + d.toNat) / 58 := by
      rw [UInt8.toNat_ofNat', Nat.mod_eq_of_lt (by omega)]
    refine ⟨hr, by simp [divmod58, hlen], ?_⟩
    simp only [divmod58, beNat_cons, hq, hlen, List.length_cons]
    have hsplit := Nat.div_add_mod (rem * 256 + d.toNat) 58
    calc ((rem * 256 + d.toNat) / 58 * 256 ^ ds.length + beNat (divmod58 ((rem * 256 + d.toNat) % 58) ds).1) * 58
          + (divmod58 ((rem * 256 + d.toNat) % 58) ds).2
        = (58 * ((rem * 256 + d.toNat) / 58) + (rem * 256 + d.toNat) % 58) * 256 ^ ds.length + beNat ds := by
          linarith [hval]
      _ = (rem * 256 + d.toNat) * 256 ^ ds.length + beNat ds := by rw [hsplit]
      _ = rem * 256 ^ (ds.length + 1) + (d.toNat * 256 ^ ds.length + beNat ds) := by ring

/-- The first byte of the quotient. -/
theorem divmod58_head (d : UInt8) (ds : Bytes) :
    ∃ q, (divmod58 0 (d :: ds)).1 = UInt8.ofNat (d.toNat / 58) :: q := by
  simp [divmod58]

/-- An upper bound on the divisions still to come: two for each byte, one less when the first
byte is already below 58. -/
def base58Fuel : Bytes → ℕ
  | [] => 0
  | d :: ds => 2 * (ds.length + 1) - if d.toNat < 58 then 1 else 0

theorem base58Fuel_cons (d : UInt8) (ds : Bytes) :
    base58Fuel (d :: ds) = 2 * (ds.length + 1) - if d.toNat < 58 then 1 else 0 := rfl

theorem base58Fuel_le (w : Bytes) : base58Fuel w ≤ 2 * w.length := by
  cases w with
  | nil => rfl
  | cons d ds => rw [base58Fuel_cons, List.length_cons]; omega

theorem base58Fuel_step (d : UInt8) (ds : Bytes) :
    base58Fuel (if (divmod58 0 (d :: ds)).1.head? = some 0 then (divmod58 0 (d :: ds)).1.tail
      else (divmod58 0 (d :: ds)).1) + 1 ≤ base58Fuel (d :: ds) := by
  have hd := d.toNat_lt
  have hlen := (divmod58_spec (by norm_num : 0 < 58) (d :: ds)).2.1
  obtain ⟨q, hq⟩ := divmod58_head d ds
  have hqn : (UInt8.ofNat (d.toNat / 58)).toNat = d.toNat / 58 := by
    rw [UInt8.toNat_ofNat', Nat.mod_eq_of_lt (by omega)]
  rw [hq, List.length_cons, List.length_cons] at hlen
  rw [hq, List.head?_cons, List.tail_cons]
  by_cases h0 : d.toNat / 58 = 0
  · have hz : UInt8.ofNat (d.toNat / 58) = 0 := by rw [h0]; rfl
    have hlt : d.toNat < 58 := by omega
    have := base58Fuel_le q
    simp only [hz, if_true, base58Fuel_cons, hlt]
    omega
  · have hz : UInt8.ofNat (d.toNat / 58) ≠ 0 := fun h => h0 (by rw [← hqn, h]; rfl)
    have hge : ¬ d.toNat < 58 := by omega
    have hlt : d.toNat / 58 < 58 := by omega
    simp only [Option.some.injEq, hz, if_false, base58Fuel_cons, hqn, hlt, if_true, hge]
    omega

/-- A dropped zero byte does not change the value. -/
theorem beNat_drop_zero (w : Bytes) : beNat (if w.head? = some 0 then w.tail else w) = beNat w := by
  split_ifs with h
  · cases w with
    | nil => rfl
    | cons x w =>
      simp only [List.head?_cons, Option.some.injEq] at h
      simp [beNat_cons, h]
  · rfl

theorem base58Digits_spec {fuel : ℕ} {w : Bytes} (hf : base58Fuel w ≤ fuel) (temp : List ℕ)
    (ht : ∀ d ∈ temp, d < 58) :
    value 58 (base58Digits fuel w temp) = beNat w * 58 ^ temp.length + value 58 temp ∧
      ∀ d ∈ base58Digits fuel w temp, d < 58 := by
  induction fuel generalizing w temp with
  | zero =>
    cases w with
    | nil => simpa [base58Digits] using ht
    | cons d ds =>
      rw [base58Fuel_cons] at hf
      split_ifs at hf <;> omega
  | succ fuel ih =>
    cases w with
    | nil => simpa [base58Digits] using ht
    | cons d ds =>
      obtain ⟨hr, -, hval⟩ := divmod58_spec (by norm_num : 0 < 58) (d :: ds)
      have hstep := base58Fuel_step d ds
      obtain ⟨hv, hlt⟩ := ih (w := if (divmod58 0 (d :: ds)).1.head? = some 0 then (divmod58 0 (d :: ds)).1.tail
        else (divmod58 0 (d :: ds)).1) (by omega) ((divmod58 0 (d :: ds)).2 :: temp) (by
          intro x hx
          rcases List.mem_cons.mp hx with rfl | hx
          · exact hr
          · exact ht x hx)
      refine ⟨?_, hlt⟩
      rw [base58Digits, hv, beNat_drop_zero, List.length_cons, value_cons]
      rw [Nat.zero_mul, Nat.zero_add] at hval
      rw [← hval]
      ring

/-- Leading zero digits do not count. -/
theorem value_dropWhile_zero (b : ℕ) (ds : List ℕ) : value b (ds.dropWhile (· = 0)) = value b ds := by
  induction ds with
  | nil => rfl
  | cons d ds ih =>
    by_cases h : d = 0
    · simp [h, ih, value_cons]
    · simp [h]

theorem dropWhile_zero_head (ds : List ℕ) : (ds.dropWhile (· = 0)).head? ≠ some 0 := by
  induction ds with
  | nil => simp
  | cons d ds ih => by_cases h : d = 0 <;> simp [h, ih]

/-- Leading zero bytes do not count. -/
theorem beNat_dropWhile_zero (w : Bytes) : beNat (w.dropWhile (· = 0)) = beNat w := by
  induction w with
  | nil => rfl
  | cons x w ih =>
    by_cases hx : x = 0
    · simp [hx, ih, beNat_cons]
    · simp [hx]

/-- The digits of the value, behind a zero for each leading zero byte. -/
theorem base58Encode_zeros {data : Bytes} (hne : data ≠ []) : base58Encode data =
    some ((List.replicate (data.takeWhile (· = 0)).length 0 ++ digits 58 (beNat data)).map
      fun d => base58Alphabet.getD d 0) := by
  have hfuel : base58Fuel (data.dropWhile (· = 0)) ≤ data.length * 2 := by
    have hfuel := base58Fuel_le (data.dropWhile (· = 0))
    have hlength := (List.dropWhile_sublist (· = 0) (l := data)).length_le
    omega
  obtain ⟨hv, hlt⟩ := base58Digits_spec hfuel [] (by simp)
  have hdig : digits 58 (beNat data) =
      (base58Digits (data.length * 2) (data.dropWhile (· = 0)) []).dropWhile (· = 0) := by
    have hval : beNat data =
        value 58 ((base58Digits (data.length * 2) (data.dropWhile (· = 0)) []).dropWhile (· = 0)) := by
      rw [value_dropWhile_zero, hv, beNat_dropWhile_zero]
      simp
    rw [hval, digits_value (by norm_num) _ (dropWhile_zero_head _)]
    exact fun d hd => hlt d ((List.dropWhile_sublist _).subset hd)
  rw [base58Encode, if_neg hne, hdig]

theorem takeWhile_zero_eq_nil {data : Bytes} (h0 : data.head? ≠ some 0) : data.takeWhile (· = 0) = [] := by
  cases data with
  | nil => rfl
  | cons x data => simp_all

/-- A byte string that does not start with zero is written with the digits of its value. -/
theorem base58Encode_eq {data : Bytes} (hne : data ≠ []) (h0 : data.head? ≠ some 0) :
    base58Encode data = some ((digits 58 (beNat data)).map fun d => base58Alphabet.getD d 0) := by
  rw [base58Encode_zeros hne, takeWhile_zero_eq_nil h0, List.length_nil, List.replicate_zero, List.nil_append]

theorem idxOf_alphabet {d : ℕ} (hd : d < 58) : base58Alphabet.idxOf (base58Alphabet.getD d 0) = d := by
  revert d
  decide

theorem alphabet_mem {d : ℕ} (hd : d < 58) : base58Alphabet.getD d 0 ∈ base58Alphabet := by
  revert d
  decide

/-- What the encoder writes for a byte string without a leading zero, the decoder reads back. -/
theorem base58Decode_digits {data : Bytes} (hne : data ≠ []) (h0 : data.head? ≠ some 0) :
    base58Decode ((digits 58 (beNat data)).map fun d => base58Alphabet.getD d 0) = some data := by
  have hlt : ∀ d ∈ digits 58 (beNat data), d < 58 := fun d hd =>
    Nat.digits_lt_base (by norm_num) (List.mem_reverse.mp hd)
  have hmap : (digits 58 (beNat data)).map ((fun c => base58Alphabet.idxOf c) ∘ fun d => base58Alphabet.getD d 0) =
      digits 58 (beNat data) := by
    conv_rhs => rw [← List.map_id (digits 58 (beNat data))]
    exact List.map_congr_left fun d hd => idxOf_alphabet (hlt d hd)
  have hnil : digits 58 (beNat data) ≠ [] := by
    intro h
    have hz : beNat data = 0 := by rw [← value_digits (b := 58) (beNat data), h]; rfl
    obtain ⟨x, xs, rfl⟩ := List.exists_cons_of_ne_nil hne
    rw [beNat_cons] at hz
    have hx : x.toNat = 0 := by
      by_contra hx
      have : 0 < x.toNat * 256 ^ xs.length := Nat.mul_pos (Nat.pos_of_ne_zero hx) (Nat.pow_pos (by norm_num))
      omega
    exact h0 (by rw [List.head?_cons, UInt8.toNat_inj.mp (hx.trans rfl : x.toNat = (0 : UInt8).toNat)])
  have hall : ((digits 58 (beNat data)).map fun d => base58Alphabet.getD d 0).all
      (fun c => decide (c ∈ base58Alphabet)) = true := by
    rw [List.all_eq_true]
    intro c hc
    obtain ⟨d, hd, rfl⟩ := List.mem_map.mp hc
    exact decide_eq_true (alphabet_mem (hlt d hd))
  have hback : digits 256 (beNat data) = data.map UInt8.toNat := by
    refine digits_value (by norm_num) (map_toNat_lt data) ?_
    cases data with
    | nil => contradiction
    | cons x xs =>
      simp only [List.map_cons, List.head?_cons, ne_eq, Option.some.injEq] at h0 ⊢
      exact fun h => h0 (UInt8.toNat_inj.mp (h.trans rfl : x.toNat = (0 : UInt8).toNat))
  rw [base58Decode, if_neg (by simpa using hnil), if_pos hall, List.map_map, hmap, value_digits, hback, List.map_map]
  congr 1
  conv_rhs => rw [← List.map_id data]
  exact List.map_congr_left fun x _ => by simp

/-- The length of the encoding of at most `n` bytes, for a power of 58 above `256 ^ n`. -/
theorem length_digits58_le {data : Bytes} {n k : ℕ} (hn : data.length ≤ n) (hk : 256 ^ n ≤ 58 ^ k) :
    (digits 58 (beNat data)).length ≤ k := by
  rw [digits, List.length_reverse, Nat.digits_length_le_iff (by norm_num)]
  calc beNat data < 256 ^ data.length := beNat_lt data
    _ ≤ 256 ^ n := Nat.pow_le_pow_right (by norm_num) hn
    _ ≤ 58 ^ k := hk

example : base58Encode [0, 1, 0x39] = some [49, 54, 81] := by decide

end Bitmessage
