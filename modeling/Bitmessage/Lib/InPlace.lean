import Mathlib.Data.List.Basic
import Mathlib.Tactic.SplitIfs

/-! Arrays that are changed in place. An array is compacted by a loop that reads at one index and
writes at another behind it; what it leaves in front is the items that are kept, in their order. -/

namespace InPlace

variable {α : Type*}

/-- One round: the item at the read index is copied to the write index, if it is kept. -/
def compactRound (keep : α → Bool) (s : List α × ℕ) (read : ℕ) : List α × ℕ :=
  match s.1[read]? with
  | none => s
  | some a => if keep a then (if s.2 ≠ read then s.1.set s.2 a else s.1, s.2 + 1) else s

/-- The array and the write index after a number of rounds. -/
def compactRounds (keep : α → Bool) (l : List α) (rounds : ℕ) : List α × ℕ :=
  (List.range rounds).foldl (compactRound keep) (l, 0)

/-- The items in front of the write index after the last round. -/
def compact (keep : α → Bool) (l : List α) : List α :=
  let s := compactRounds keep l l.length
  s.1.take s.2

theorem compactRounds_succ (keep : α → Bool) (l : List α) (rounds : ℕ) :
    compactRounds keep l (rounds + 1) = compactRound keep (compactRounds keep l rounds) rounds := by
  simp [compactRounds, List.range_succ]

/-- In front of the write index stand the items kept so far; from the read index on nothing has changed. -/
theorem compactRounds_spec (keep : α → Bool) (l : List α) {rounds : ℕ} (h : rounds ≤ l.length) :
    (compactRounds keep l rounds).2 ≤ rounds ∧ (compactRounds keep l rounds).1.length = l.length ∧
      (compactRounds keep l rounds).1.take (compactRounds keep l rounds).2 = (l.take rounds).filter keep ∧
        ∀ i, rounds ≤ i → (compactRounds keep l rounds).1[i]? = l[i]? := by
  induction rounds with
  | zero => simp [compactRounds]
  | succ n ih =>
    obtain ⟨hle, hlength, hfront, hrest⟩ := ih (by omega)
    have hn : n < l.length := by omega
    rw [compactRounds_succ]
    set s := compactRounds keep l n
    have hread : s.1[n]? = some l[n] := by rw [hrest n (Nat.le_refl n), List.getElem?_eq_getElem hn]
    have hlen : s.2 < s.1.length := by omega
    -- Where the two indices are the same the item is in its place already.
    have hcopy : (if s.2 ≠ n then s.1.set s.2 l[n] else s.1) = s.1.set s.2 l[n] := by
      split_ifs with hne
      · rfl
      · rw [not_ne_iff] at hne
        refine List.ext_getElem? fun i => ?_
        rw [List.getElem?_set]
        split_ifs with hi
        · rw [← hi, hne, hread]
        · rfl
    rw [List.take_add_one, List.getElem?_eq_getElem hn, Option.toList_some, List.filter_append]
    unfold compactRound
    rw [hread]
    by_cases hkeep : keep l[n] = true
    · simp only [hkeep, if_true, hcopy, List.filter_singleton]
      refine ⟨by omega, List.length_set.trans hlength, ?_, fun i hi => ?_⟩
      · rw [List.take_add_one, List.take_set_of_le (Nat.le_refl _), hfront, List.getElem?_set_self hlen,
          Option.toList_some]
        rfl
      · rw [List.getElem?_set_ne (by omega), hrest i (by omega)]
    · rw [Bool.not_eq_true] at hkeep
      simp only [hkeep, Bool.false_eq_true, if_false, List.filter_singleton]
      refine ⟨by omega, hlength, ?_, fun i hi => hrest i (by omega)⟩
      simpa using hfront

theorem compact_eq_filter (keep : α → Bool) (l : List α) : compact keep l = l.filter keep := by
  obtain ⟨-, -, hfront, -⟩ := compactRounds_spec keep l (Nat.le_refl l.length)
  rw [List.take_length] at hfront
  exact hfront

end InPlace
