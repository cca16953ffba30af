import Mathlib.Data.Nat.Digits.Lemmas

/-! Positional numerals written most significant digit first, as wire formats and
printed numbers have them. The value is Mathlib's `Nat.ofDigits` of the reversed
digits; the big-endian byte strings are the case of base 256. -/

namespace Radix

/-- The number denoted by digits in base `b`, most significant first. -/
def value (b : ℕ) (ds : List ℕ) : ℕ := Nat.ofDigits b ds.reverse

/-- The digits of a number without leading zeros; zero has none. -/
def digits (b n : ℕ) : List ℕ := (Nat.digits b n).reverse

variable {b : ℕ}

@[simp] theorem value_nil : value b [] = 0 := rfl

theorem value_cons (d : ℕ) (ds : List ℕ) : value b (d :: ds) = d * b ^ ds.length + value b ds := by
  simp only [value, List.reverse_cons, Nat.ofDigits_append, Nat.ofDigits_singleton, List.length_reverse]
  ring

theorem value_append (ds es : List ℕ) : value b (ds ++ es) = value b ds * b ^ es.length + value b es := by
  simp only [value, List.reverse_append, Nat.ofDigits_append, List.length_reverse]
  ring

theorem value_lt (hb : 1 < b) {ds : List ℕ} (h : ∀ d ∈ ds, d < b) : value b ds < b ^ ds.length := by
  have := Nat.ofDigits_lt_base_pow_length (l := ds.reverse) hb (by simpa using h)
  rwa [List.length_reverse] at this

/-- Digits of one length that denote one number are the same. -/
theorem value_inj (hb : 1 < b) {ds es : List ℕ} (hds : ∀ d ∈ ds, d < b) (hes : ∀ e ∈ es, e < b)
    (hlen : ds.length = es.length) (h : value b ds = value b es) : ds = es := by
  have := @Nat.ofDigits_inj_of_len_eq b hb ds.reverse es.reverse (by simpa using hlen) (by simpa using hds)
    (by simpa using hes) h
  rwa [List.reverse_inj] at this

theorem value_digits (n : ℕ) : value b (digits b n) = n := by
  rw [value, digits, List.reverse_reverse, Nat.ofDigits_digits]

/-- Digits without a leading zero are the digits of their value. -/
theorem digits_value (hb : 1 < b) {ds : List ℕ} (h : ∀ d ∈ ds, d < b) (h0 : ds.head? ≠ some 0) :
    digits b (value b ds) = ds := by
  rw [value, digits, Nat.digits_ofDigits b hb _ (by simpa using h), List.reverse_reverse]
  intro hne
  rw [List.getLast_reverse]
  intro hz
  apply h0
  rw [List.head?_eq_some_head (by simpa using hne), hz]

/-! ### Big-endian bytes -/

/-- The number denoted by a big-endian byte string. -/
def beNat (bs : List UInt8) : ℕ := value 256 (bs.map UInt8.toNat)

/-- The `n` low bytes of a number, most significant first. -/
def beBytes : ℕ → ℕ → List UInt8
  | 0, _ => []
  | n + 1, v => UInt8.ofNat (v / 256 ^ n) :: beBytes n v

theorem map_toNat_lt (bs : List UInt8) : ∀ d ∈ bs.map UInt8.toNat, d < 256 := by
  intro d hd
  obtain ⟨x, -, rfl⟩ := List.mem_map.mp hd
  exact x.toNat_lt

@[simp] theorem beNat_nil : beNat [] = 0 := rfl

theorem beNat_cons (x : UInt8) (bs : List UInt8) :
    beNat (x :: bs) = x.toNat * 256 ^ bs.length + beNat bs := by
  simp [beNat, value_cons]

theorem beNat_lt (bs : List UInt8) : beNat bs < 256 ^ bs.length := by
  simpa [beNat] using value_lt (b := 256) (by norm_num) (map_toNat_lt bs)

@[simp] theorem length_beBytes (n v : ℕ) : (beBytes n v).length = n := by
  induction n with
  | zero => rfl
  | succ n ih => simp [beBytes, ih]

theorem beNat_beBytes (n v : ℕ) : beNat (beBytes n v) = v % 256 ^ n := by
  induction n with
  | zero => simp [beBytes, Nat.mod_one]
  | succ n ih =>
    have hd : (UInt8.ofNat (v / 256 ^ n)).toNat = v / 256 ^ n % 256 := UInt8.toNat_ofNat'
    rw [beBytes, beNat_cons, ih, length_beBytes, hd, Nat.pow_succ, Nat.mod_mul, Nat.mul_comm, Nat.add_comm]

/-- The bytes of a number depend on its residue only. -/
theorem beBytes_mod {n k : ℕ} (h : n ≤ k) (v : ℕ) : beBytes n (v % 256 ^ k) = beBytes n v := by
  induction n with
  | zero => rfl
  | succ n ih =>
    have hk : 256 ^ k = 256 ^ n * (256 * 256 ^ (k - n - 1)) := by
      rw [← Nat.pow_succ', ← Nat.pow_add]
      congr 1
      omega
    have hd : v % 256 ^ k / 256 ^ n % 256 = v / 256 ^ n % 256 := by
      rw [hk, Nat.mod_mul_right_div_self, Nat.mod_mul_right_mod]
    rw [beBytes, beBytes, ih (by omega)]
    congr 1
    rw [← UInt8.toNat_inj, UInt8.toNat_ofNat', UInt8.toNat_ofNat']
    exact hd

theorem beNat_beBytes_of_lt {n v : ℕ} (h : v < 256 ^ n) : beNat (beBytes n v) = v := by
  rw [beNat_beBytes, Nat.mod_eq_of_lt h]

end Radix
