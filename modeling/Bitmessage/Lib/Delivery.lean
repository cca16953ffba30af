import Mathlib.Data.List.Basic
import Mathlib.Tactic.Common

/-! A stream that comes in pieces, as a socket or a pipe hands it out: the reader asks for some items at
most and gets a part of what is there. What a reader takes does not depend on how the stream was cut. -/

namespace Delivery

/-- What the other side lets happen next. -/
inductive Event (α : Type*)
  /-- items have arrived -/
  | data (x : α) (xs : List α)
  /-- nothing is there yet, and waiting helps -/
  | again
  /-- the stream is closed or broken, or the wait takes too long -/
  | gone

/-- The events to come. When there are none the reader waits in vain. -/
abbrev Source (α : Type*) := List (Event α)

variable {α : Type*}

/-- The items that arrive before the stream breaks off. -/
def delivered : Source α → List α
  | [] => []
  | .data x xs :: s => x :: (xs ++ delivered s)
  | .again :: s => delivered s
  | .gone :: _ => []

/-- Take some items, `room` at most, and wait for them if need be. -/
def read (room : ℕ) : Source α → Option (List α × Source α)
  | [] => none
  | .again :: s => read room s
  | .gone :: _ => none
  | .data x xs :: s =>
    match (x :: xs).drop room with
    | [] => some (x :: xs, s)
    | y :: ys => some ((x :: xs).take room, .data y ys :: s)

theorem read_eq_some {room : ℕ} {s t : Source α} {xs : List α} (h : read room s = some (xs, t)) :
    xs.length ≤ room ∧ delivered s = xs ++ delivered t ∧ (0 < room → xs ≠ []) := by
  induction s with
  | nil => cases h
  | cons e s ih =>
    cases e with
    | again => exact ih h
    | gone => cases h
    | data y ys =>
      simp only [read] at h
      split at h
      · next hall =>
        cases h
        exact ⟨List.drop_eq_nil_iff.mp hall, rfl, fun _ => List.cons_ne_nil y ys⟩
      · next z zs hrest =>
        cases h
        refine ⟨List.length_take_le _ _, ?_, ?_⟩
        · calc y :: (ys ++ delivered s)
            _ = (y :: ys).take room ++ ((y :: ys).drop room ++ delivered s) := by
                rw [← List.append_assoc, List.take_append_drop, List.cons_append]
            _ = (y :: ys).take room ++ (z :: (zs ++ delivered s)) := by rw [hrest, List.cons_append]
        · intro hroom hnil
          rw [List.take_eq_nil_iff] at hnil
          rcases hnil with hzero | hempty
          · omega
          · cases hempty

/-- A reader waits in vain exactly when nothing arrives any more. -/
theorem read_eq_none {room : ℕ} {s : Source α} : read room s = none ↔ delivered s = [] := by
  induction s with
  | nil => exact ⟨fun _ => rfl, fun _ => rfl⟩
  | cons e s ih =>
    cases e with
    | again => exact ih
    | gone => exact ⟨fun _ => rfl, fun _ => rfl⟩
    | data y ys =>
      simp only [read, delivered]
      split <;> simp

/-- Read until there are `n` items, asking for as many as are missing. -/
def readAll (n : ℕ) : ℕ → List α → Source α → Option (List α × Source α)
  | 0, got, s => some (got, s)
  | fuel + 1, got, s =>
    if got.length < n then (read (n - got.length) s).bind fun r => readAll n fuel (got ++ r.1) r.2
    else some (got, s)

/-- Exactly the missing items are taken off the stream. -/
theorem readAll_eq_some {n fuel : ℕ} {got xs : List α} {s t : Source α} (h : readAll n fuel got s = some (xs, t))
    (hfuel : n ≤ got.length + fuel) (hgot : got.length ≤ n) :
    xs.length = n ∧ got ++ delivered s = xs ++ delivered t := by
  induction fuel generalizing got s with
  | zero =>
    cases h
    exact ⟨by omega, rfl⟩
  | succ fuel ih =>
    rw [readAll] at h
    split_ifs at h with hmissing
    · obtain ⟨⟨ys, u⟩, hread, hrest⟩ := Option.bind_eq_some_iff.mp h
      obtain ⟨hlen, hdelivered, hne⟩ := read_eq_some hread
      have hpos := List.length_pos_iff.mpr (hne (by omega))
      have := ih hrest (by simp only [List.length_append]; omega) (by simp only [List.length_append]; omega)
      rwa [List.append_assoc, ← hdelivered] at this
    · cases h
      exact ⟨by omega, rfl⟩

/-- What arrives is enough exactly when the reader gets it all. -/
theorem readAll_isSome {n fuel : ℕ} {got : List α} {s : Source α} (hfuel : n ≤ got.length + fuel)
    (hgot : got.length ≤ n) :
    (∃ r, readAll n fuel got s = some r) ↔ n ≤ got.length + (delivered s).length := by
  induction fuel generalizing got s with
  | zero => exact ⟨fun _ => by omega, fun _ => ⟨_, rfl⟩⟩
  | succ fuel ih =>
    rw [readAll]
    split_ifs with hmissing
    · cases hread : read (n - got.length) s with
      | none =>
        rw [read_eq_none.mp hread]
        simp only [Option.bind_none, reduceCtorEq, exists_false, List.length_nil, false_iff]
        omega
      | some r =>
        obtain ⟨hlen, hdelivered, hne⟩ := read_eq_some hread
        have hpos := List.length_pos_iff.mpr (hne (by omega))
        rw [Option.bind_some, ih (by simp only [List.length_append]; omega) (by simp only [List.length_append]; omega),
          hdelivered, List.length_append, List.length_append, Nat.add_assoc]
    · exact ⟨fun _ => by omega, fun _ => ⟨_, rfl⟩⟩

end Delivery
