import Mathlib.Data.List.Basic
import Mathlib.Data.List.Nodup
import Mathlib.Logic.Function.Basic

/-! Memory as a function from indices to cells: a stretch of it in order, and assignments to single
cells. Assignments to different cells each last, and no other cell changes. -/

namespace Cells

variable {α : Type*} {mem : ℕ → α}

/-- The cells `[off, off + len)`. -/
def span (mem : ℕ → α) (off len : ℕ) : List α := (List.range len).map fun i => mem (off + i)

/-- The memory after assignments from left to right. -/
def assign (mem : ℕ → α) (stores : List (ℕ × α)) : ℕ → α :=
  stores.foldl (fun mem s => Function.update mem s.1 s.2) mem

@[simp] theorem length_span (mem : ℕ → α) (off len : ℕ) : (span mem off len).length = len := by simp [span]

@[simp] theorem span_zero (mem : ℕ → α) (off : ℕ) : span mem off 0 = [] := rfl

theorem span_succ (mem : ℕ → α) (off len : ℕ) : span mem off (len + 1) = mem off :: span mem (off + 1) len := by
  rw [span, List.range_succ_eq_map, List.map_cons, List.map_map]
  congr 1
  apply List.map_congr_left
  intro i _
  simp only [Function.comp_apply]
  congr 1
  omega

theorem span_add (mem : ℕ → α) (off m n : ℕ) : span mem off (m + n) = span mem off m ++ span mem (off + m) n := by
  induction m generalizing off with
  | zero => simp
  | succ m ih =>
    rw [Nat.add_right_comm, span_succ, span_succ, ih, List.cons_append]
    congr 3
    omega

theorem take_span (mem : ℕ → α) (off : ℕ) {m n : ℕ} (h : m ≤ n) : (span mem off n).take m = span mem off m := by
  obtain ⟨k, rfl⟩ := Nat.exists_eq_add_of_le h
  rw [span_add, List.take_left' (length_span mem off m)]

theorem span_congr {mem' : ℕ → α} {off len : ℕ} (h : ∀ i, off ≤ i → i < off + len → mem i = mem' i) :
    span mem off len = span mem' off len := by
  apply List.map_congr_left
  intro i hi
  have hlt := List.mem_range.mp hi
  exact h _ (Nat.le_add_right off i) (by omega)

theorem span_eq_replicate {off len : ℕ} {a : α} (h : ∀ i, off ≤ i → i < off + len → mem i = a) :
    span mem off len = List.replicate len a := by
  rw [List.eq_replicate_iff]
  refine ⟨length_span mem off len, fun b hb => ?_⟩
  obtain ⟨i, hi, rfl⟩ := List.mem_map.mp hb
  have hlt := List.mem_range.mp hi
  exact h _ (Nat.le_add_right off i) (by omega)

/-- A list that has been put into memory. -/
theorem span_getD (xs : List α) (a : α) : span (fun i => xs.getD i a) 0 xs.length = xs := by
  apply List.ext_getElem
  · exact length_span _ _ _
  · intro i h₁ h₂
    simp [span, h₂]

/-- An assignment outside of a stretch. -/
theorem span_update {i off len : ℕ} (h : i < off ∨ off + len ≤ i) (a : α) :
    span (Function.update mem i a) off len = span mem off len := by
  apply span_congr
  intro k hk hlt
  have hne : k ≠ i := by omega
  exact Function.update_of_ne hne a mem

/-- An assignment to the first cell of a stretch. -/
theorem span_update_head (off len : ℕ) (a : α) :
    span (Function.update mem off a) off (len + 1) = a :: span mem (off + 1) len := by
  rw [span_succ, Function.update_self, span_update (.inl (Nat.lt_succ_self off))]

theorem assign_of_notMem {stores : List (ℕ × α)} {i : ℕ} (h : i ∉ stores.map Prod.fst) :
    assign mem stores i = mem i := by
  induction stores generalizing mem with
  | nil => rfl
  | cons s stores ih =>
    rw [List.map_cons, List.mem_cons, not_or] at h
    exact (ih h.2).trans (Function.update_of_ne h.1 s.2 mem)

/-- Among assignments to different cells each one lasts. -/
theorem assign_of_mem {stores : List (ℕ × α)} (hnodup : (stores.map Prod.fst).Nodup) {i : ℕ} {a : α}
    (h : (i, a) ∈ stores) : assign mem stores i = a := by
  induction stores generalizing mem with
  | nil => contradiction
  | cons s stores ih =>
    rw [List.map_cons, List.nodup_cons] at hnodup
    rcases List.mem_cons.mp h with heq | htail
    · subst heq
      exact (assign_of_notMem hnodup.1).trans (Function.update_self i a mem)
    · exact ih hnodup.2 htail

/-- Assignments to the first cells in their order. -/
theorem span_assign {stores : List (ℕ × α)} {n : ℕ} (h : stores.map Prod.fst = List.range n) :
    span (assign mem stores) 0 n = stores.map Prod.snd := by
  have hn : stores.length = n := by simpa using congrArg List.length h
  have hnodup : (stores.map Prod.fst).Nodup := h ▸ List.nodup_range
  apply List.ext_getElem
  · simp [hn]
  · intro i h₁ h₂
    have hi : i < stores.length := by simpa using h₂
    have hfst : (stores[i]).1 = i := by
      have hget : (stores.map Prod.fst)[i]? = (List.range n)[i]? := by rw [h]
      simpa [hi, hn ▸ hi] using hget
    have heta : (i, (stores[i]).2) = stores[i] := Prod.ext hfst.symm rfl
    have hmem : (i, (stores[i]).2) ∈ stores := heta ▸ List.getElem_mem hi
    simp only [span, List.getElem_map, List.getElem_range, Nat.zero_add]
    exact assign_of_mem hnodup hmem

end Cells
