import Mathlib.Data.Nat.ModEq
import Mathlib.Data.Set.Lattice
import Mathlib.Data.Int.GCD

/-! The numbers below a bound dealt out by strides: of `n` parties, party `w` takes
`w, w + n, w + 2 n, …`. Up to the bound the parties share the numbers out without
overlap and without gaps. A counter that wraps at the bound goes on with numbers
taken before; whether these are the party's own depends on whether the stride divides
the bound. -/

namespace Strides

variable {n m w v : ℕ}

/-- The value of the counter of party `w` after `i` steps. -/
def wrapped (n m w i : ℕ) : ℕ := (w + i * n) % m

/-- What party `w` takes before its counter wraps. -/
def lane (n m w : ℕ) : Set ℕ := {x | ∃ i, w + i * n < m ∧ x = wrapped n m w i}

theorem wrapped_lt (hm : 0 < m) (i : ℕ) : wrapped n m w i < m := Nat.mod_lt _ hm

theorem wrapped_of_lt {i : ℕ} (h : w + i * n < m) : wrapped n m w i = w + i * n := Nat.mod_eq_of_lt h

theorem wrapped_succ (i : ℕ) : (wrapped n m w i + n) % m = wrapped n m w (i + 1) := by
  have hsum : w + i * n + n = w + (i + 1) * n := by
    rw [Nat.succ_mul]
    omega
  rw [wrapped, wrapped, Nat.mod_add_mod, hsum]

/-- A lane is a residue class below the bound. -/
theorem mem_lane_iff (hw : w < n) {x : ℕ} : x ∈ lane n m w ↔ x < m ∧ x % n = w := by
  constructor
  · rintro ⟨i, hi, rfl⟩
    rw [wrapped_of_lt hi]
    exact ⟨hi, by rw [Nat.add_mul_mod_self_right, Nat.mod_eq_of_lt hw]⟩
  · rintro ⟨hx, rfl⟩
    have hdiv : x % n + x / n * n = x := by
      rw [Nat.mul_comm]
      exact Nat.mod_add_div x n
    refine ⟨x / n, by omega, ?_⟩
    rw [wrapped_of_lt (by omega), hdiv]

theorem lane_inter (hw : w < n) (hv : v < n) (h : w ≠ v) : lane n m w ∩ lane n m v = ∅ := by
  rw [Set.eq_empty_iff_forall_notMem]
  rintro x ⟨hx, hx'⟩
  exact h (((mem_lane_iff hw).mp hx).2.symm.trans ((mem_lane_iff hv).mp hx').2)

/-- Before the wrap no number is taken by two parties. -/
theorem wrapped_ne (hw : w < n) (hv : v < n) (h : w ≠ v) {i j : ℕ} (hi : w + i * n < m) (hj : v + j * n < m) :
    wrapped n m w i ≠ wrapped n m v j := by
  intro heq
  have hmem : wrapped n m w i ∈ lane n m w ∩ lane n m v := ⟨⟨i, hi, rfl⟩, ⟨j, hj, heq⟩⟩
  rw [lane_inter hw hv h] at hmem
  exact hmem

theorem iUnion_lane (hn : 0 < n) (m : ℕ) : ⋃ w < n, lane n m w = {x | x < m} := by
  ext x
  simp only [Set.mem_iUnion, Set.mem_ofPred_eq]
  constructor
  · rintro ⟨w, hw, hx⟩
    exact ((mem_lane_iff hw).mp hx).1
  · intro hx
    have hmod := Nat.mod_lt x hn
    exact ⟨x % n, hmod, (mem_lane_iff hmod).mpr ⟨hx, rfl⟩⟩

/-- After `r` steps of every party no number below `r * n` is missing. -/
theorem exists_wrapped_of_lt (hn : 0 < n) {r x : ℕ} (hx : x < m) (hr : x < r * n) :
    x / n < r ∧ wrapped n m (x % n) (x / n) = x := by
  have hdiv : x % n + x / n * n = x := by
    rw [Nat.mul_comm]
    exact Nat.mod_add_div x n
  refine ⟨(Nat.div_lt_iff_lt_mul hn).mpr hr, ?_⟩
  rw [wrapped_of_lt (by omega), hdiv]

/-- Past the bound the parties keep apart for ever exactly when the stride divides it. -/
theorem wrapped_apart_iff (hn : 0 < n) (hm : 0 < m) :
    (∀ w < n, ∀ v < n, w ≠ v → ∀ i j, wrapped n m w i ≠ wrapped n m v j) ↔ n ∣ m := by
  constructor
  · intro h
    by_contra hdvd
    have hpos : 0 < n.gcd m := Nat.gcd_pos_of_pos_left m hn
    have hlt : n.gcd m < n :=
      lt_of_le_of_ne (Nat.gcd_le_left m hn) fun he => hdvd (Nat.gcd_eq_left_iff_dvd.mp he)
    -- party 0 comes to the first number of party `n.gcd m`
    have hmeet : ∃ i, wrapped n m 0 i = wrapped n m (n.gcd m) 0 := by
      rcases lt_or_eq_of_le (Nat.gcd_le_right n hm) with hk | hk
      · obtain ⟨i, -, hi⟩ := Nat.exists_mul_mod_eq_gcd hk
        refine ⟨i, ?_⟩
        rw [wrapped, wrapped, Nat.zero_add, Nat.zero_mul, Nat.add_zero, Nat.mul_comm, hi, Nat.mod_eq_of_lt hk]
      · refine ⟨0, ?_⟩
        rw [wrapped, wrapped, Nat.zero_add, Nat.zero_mul, Nat.add_zero, hk, Nat.zero_mod, Nat.mod_self]
    obtain ⟨i, hi⟩ := hmeet
    exact h 0 hn _ hlt hpos.ne i 0 hi
  · intro hdvd w hw v hv hne i j heq
    have hmod : ∀ w < n, ∀ i, wrapped n m w i % n = w := by
      intro w hw i
      show (w + i * n) % m % n = w
      rw [Nat.mod_mod_of_dvd _ hdvd, Nat.add_mul_mod_self_right, Nat.mod_eq_of_lt hw]
    rw [← hmod w hw i, heq, hmod v hv j] at hne
    exact hne rfl

/-! ### Searching along a sequence -/

section

variable {α : Type*} {f : ℕ → α} {hit : α → Prop} {log : List α}

/-- The log of a search along `f`, which goes on after a miss only. -/
structure Searched (f : ℕ → α) (hit : α → Prop) (log : List α) : Prop where
  eq_map : log = (List.range log.length).map f
  missed : ∀ x ∈ log.dropLast, ¬hit x

theorem searched_nil : Searched f hit [] := ⟨rfl, nofun⟩

theorem Searched.snoc (h : Searched f hit log) (hmiss : ∀ x ∈ log, ¬hit x) :
    Searched f hit (log ++ [f log.length]) := by
  constructor
  · rw [List.length_append, List.length_singleton, List.range_succ, List.map_append, ← h.eq_map]
    rfl
  · rw [List.dropLast_concat]
    exact hmiss

theorem Searched.mem (h : Searched f hit log) {i : ℕ} (hi : i < log.length) : f i ∈ log := by
  rw [h.eq_map]
  exact List.mem_map_of_mem (List.mem_range.mpr hi)

theorem Searched.eq_of_getElem? (h : Searched f hit log) {i : ℕ} {x : α} (hi : log[i]? = some x) : x = f i := by
  rw [h.eq_map, List.getElem?_map] at hi
  obtain ⟨k, hk, rfl⟩ := Option.map_eq_some_iff.mp hi
  obtain ⟨hlt, hk⟩ := List.getElem?_eq_some_iff.mp hk
  rw [← hk, List.getElem_range]

end

end Strides
