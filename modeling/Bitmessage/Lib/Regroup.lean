import Bitmessage.Lib.Radix

/-! Digits of `a` bits regrouped as digits of `b` bits through an accumulator of `w` bits, the way coders
of binary data as text work. The accumulator shifts its high bits out; the bits that no digit has been
made of yet are its low ones, and these are never lost while a digit more fits. -/

namespace Regroup

open Radix

/-- The digits of `b` bits at the top of the low `k` bits of `v`. -/
def topDigits (b v k : ℕ) : List ℕ := (List.range (k / b)).map fun i => v / 2 ^ (k - b * (i + 1)) % 2 ^ b

structure State where
  buffer : ℕ
  bits : ℕ
  out : List ℕ

/-- A digit is shifted in, and the digits that are complete are written. -/
def State.put (w a b : ℕ) (s : State) (d : ℕ) : State where
  buffer := (s.buffer * 2 ^ a + d) % 2 ^ w
  bits := (s.bits + a) % b
  out := s.out ++ topDigits b ((s.buffer * 2 ^ a + d) % 2 ^ w) (s.bits + a)

/-- The digits that are written for `ds`. -/
def regroup (w a b : ℕ) (ds : List ℕ) : List ℕ := (ds.foldl (State.put w a b) ⟨0, 0, []⟩).out

/-- What was put in is what was written and the live bits. -/
structure State.Holds (a b : ℕ) (s : State) (ds : List ℕ) : Prop where
  bits_lt : s.bits < b
  digit_lt : ∀ d ∈ s.out, d < 2 ^ b
  count : b * s.out.length + s.bits = a * ds.length
  denotes : value (2 ^ b) s.out * 2 ^ s.bits + s.buffer % 2 ^ s.bits = value (2 ^ a) ds

variable {w a b : ℕ}

@[simp] theorem length_topDigits (v k : ℕ) : (topDigits b v k).length = k / b := by
  simp [topDigits]

theorem topDigits_lt {v k d : ℕ} (h : d ∈ topDigits b v k) : d < 2 ^ b := by
  obtain ⟨i, -, rfl⟩ := List.mem_map.mp h
  exact Nat.mod_lt _ (Nat.two_pow_pos b)

theorem value_map_range (b v r n : ℕ) :
    value (2 ^ b) ((List.range n).map fun i => v / 2 ^ (b * n + r - b * (i + 1)) % 2 ^ b) =
      v / 2 ^ r % 2 ^ (b * n) := by
  induction n with
  | zero => simp [Nat.mod_one]
  | succ n ih =>
    have hhead : v / 2 ^ (b * (n + 1) + r - b * (0 + 1)) = v / 2 ^ r / 2 ^ (b * n) := by
      rw [Nat.div_div_eq_div_mul, ← Nat.pow_add]
      congr 2
      rw [Nat.mul_succ]
      omega
    have htail : ∀ i ∈ List.range n, v / 2 ^ (b * (n + 1) + r - b * (i + 1 + 1)) % 2 ^ b =
        v / 2 ^ (b * n + r - b * (i + 1)) % 2 ^ b := by
      intro i _
      congr 3
      rw [Nat.mul_succ b n, Nat.mul_succ b (i + 1)]
      omega
    rw [List.range_succ_eq_map, List.map_cons, List.map_map, value_cons, List.length_map, List.length_range, hhead]
    show _ * _ + value (2 ^ b) ((List.range n).map fun i => v / 2 ^ (b * (n + 1) + r - b * (i + 1 + 1)) % 2 ^ b) = _
    rw [List.map_congr_left htail, ih, ← Nat.pow_mul, Nat.mul_succ, Nat.pow_add, Nat.mod_mul,
      Nat.add_comm, Nat.mul_comm (2 ^ (b * n))]

/-- The complete digits make up the low `k` bits but the last `k % b`. -/
theorem value_topDigits (v k : ℕ) : value (2 ^ b) (topDigits b v k) = v % 2 ^ k / 2 ^ (k % b) := by
  have hk : b * (k / b) + k % b = k := Nat.div_add_mod k b
  have h := value_map_range b v (k % b) (k / b)
  rw [hk] at h
  rw [topDigits, h, ← Nat.mod_mul_right_div_self, ← Nat.pow_add, Nat.add_comm (k % b), hk]

theorem State.Holds.start (hb : 0 < b) : State.Holds a b ⟨0, 0, []⟩ [] where
  bits_lt := hb
  digit_lt _ h := by cases h
  count := by simp
  denotes := by simp

/-- A digit more fits into the accumulator beside the live bits, and nothing is lost. -/
theorem State.Holds.put {s : State} {ds : List ℕ} (h : s.Holds a b ds) (hw : a + b ≤ w + 1) {d : ℕ}
    (hd : d < 2 ^ a) : (s.put w a b d).Holds a b (ds ++ [d]) := by
  have hfit : s.bits + a ≤ w := by
    have := h.bits_lt
    omega
  have hlow : (s.buffer * 2 ^ a + d) % 2 ^ w % 2 ^ (s.bits + a) = s.buffer % 2 ^ s.bits * 2 ^ a + d := by
    rw [Nat.mod_mod_of_dvd _ (Nat.pow_dvd_pow 2 hfit), Nat.add_comm s.bits a, Nat.pow_add, Nat.mod_mul,
      Nat.mul_comm s.buffer, Nat.mul_add_mod, Nat.mod_eq_of_lt hd, Nat.mul_add_div (Nat.two_pow_pos a),
      Nat.div_eq_of_lt hd, Nat.add_zero, Nat.add_comm, Nat.mul_comm]
  refine ⟨Nat.mod_lt _ (Nat.zero_lt_of_lt h.bits_lt), ?_, ?_, ?_⟩
  · intro e he
    rcases List.mem_append.mp he with hold | hnew
    · exact h.digit_lt e hold
    · exact topDigits_lt hnew
  · have hlen := h.count
    have hk := Nat.div_add_mod (s.bits + a) b
    simp only [State.put, List.length_append, length_topDigits, List.length_singleton, Nat.mul_add, Nat.mul_one]
    omega
  · have hval := h.denotes
    simp only [State.put]
    generalize hv : (s.buffer * 2 ^ a + d) % 2 ^ w = v at hlow ⊢
    have hk := Nat.div_add_mod (s.bits + a) b
    have hsplit : v % 2 ^ (s.bits + a) / 2 ^ ((s.bits + a) % b) * 2 ^ ((s.bits + a) % b) +
        v % 2 ^ ((s.bits + a) % b) = v % 2 ^ (s.bits + a) := by
      rw [← Nat.mod_mod_of_dvd v (Nat.pow_dvd_pow 2 (Nat.mod_le (s.bits + a) b))]
      exact Nat.div_add_mod' _ _
    calc value (2 ^ b) (s.out ++ topDigits b v (s.bits + a)) * 2 ^ ((s.bits + a) % b) + v % 2 ^ ((s.bits + a) % b)
      _ = value (2 ^ b) s.out * 2 ^ (s.bits + a) + (v % 2 ^ (s.bits + a) / 2 ^ ((s.bits + a) % b) *
            2 ^ ((s.bits + a) % b) + v % 2 ^ ((s.bits + a) % b)) := by
          rw [value_append, length_topDigits, value_topDigits, ← Nat.pow_mul, Nat.add_mul, Nat.mul_assoc,
            ← Nat.pow_add, hk, Nat.add_assoc]
      _ = value (2 ^ a) ds * 2 ^ a + d := by
          rw [hsplit, hlow, ← hval, Nat.pow_add]
          ring
      _ = value (2 ^ a) (ds ++ [d]) := by simp [value_append, value_cons]

theorem State.Holds.foldl (hw : a + b ≤ w + 1) {s : State} {xs ds : List ℕ} (h : s.Holds a b xs)
    (hds : ∀ d ∈ ds, d < 2 ^ a) : (ds.foldl (State.put w a b) s).Holds a b (xs ++ ds) := by
  induction ds generalizing s xs with
  | nil => simpa using h
  | cons d ds ih =>
    have hput := h.put hw (hds d List.mem_cons_self)
    have := ih hput fun e he => hds e (List.mem_cons_of_mem d he)
    rwa [List.append_assoc, List.singleton_append] at this

/-- Where the bits come out even, both numerals denote one number. -/
theorem regroup_spec (hb : 0 < b) (hw : a + b ≤ w + 1) {ds : List ℕ} (hds : ∀ d ∈ ds, d < 2 ^ a)
    (heven : b ∣ a * ds.length) :
    b * (regroup w a b ds).length = a * ds.length ∧ (∀ d ∈ regroup w a b ds, d < 2 ^ b) ∧
      value (2 ^ b) (regroup w a b ds) = value (2 ^ a) ds := by
  have h := (State.Holds.start hb).foldl hw hds
  rw [List.nil_append] at h
  have hbits : (ds.foldl (State.put w a b) ⟨0, 0, []⟩).bits = 0 := by
    have hmod := congrArg (· % b) h.count
    simp only [Nat.mul_add_mod, Nat.mod_eq_of_lt h.bits_lt, Nat.mod_eq_zero_of_dvd heven] at hmod
    exact hmod
  have hlen := h.count
  have hval := h.denotes
  rw [hbits] at hlen hval
  rw [Nat.pow_zero, Nat.mul_one, Nat.mod_one] at hval
  exact ⟨hlen, h.digit_lt, hval⟩

/-- Regrouping back is the inverse. -/
theorem regroup_regroup (ha : 0 < a) (hb : 0 < b) (hw : a + b ≤ w + 1) {ds : List ℕ} (hds : ∀ d ∈ ds, d < 2 ^ a)
    (heven : b ∣ a * ds.length) : regroup w b a (regroup w a b ds) = ds := by
  obtain ⟨hlen, hlt, hval⟩ := regroup_spec hb hw hds heven
  obtain ⟨hlen', hlt', hval'⟩ := regroup_spec (w := w) ha (by omega) hlt (hlen ▸ Nat.dvd_mul_right a _)
  refine value_inj (Nat.one_lt_two_pow ha.ne') hlt' hds ?_ (hval'.trans hval)
  exact Nat.eq_of_mul_eq_mul_left ha (hlen'.trans hlen)

end Regroup
