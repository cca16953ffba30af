import Mathlib.Order.Defs.LinearOrder
import Mathlib.Data.List.Basic
import Mathlib.Data.Nat.Basic
import Mathlib.Tactic.Common

/-! Writing into an area of fixed size. The area is what has been written and the cells
that are left; a write that does not fit changes nothing but the overflow mark, and the
mark stays. A sequence of writes that ends without the mark has put down all of its
fields, one behind the other. -/

/-- An area that is being written. -/
structure BoundedWriter (α : Type) where
  written : List α
  rest : List α
  overflow : Bool

namespace BoundedWriter

variable {α : Type}

/-- An area with nothing in it yet: the cells hold what they held before. -/
def start (area : List α) : BoundedWriter α := ⟨[], area, false⟩

/-- Write a field. -/
def put (w : BoundedWriter α) (xs : List α) : BoundedWriter α :=
  if w.overflow = true ∨ w.rest.length < xs.length then { w with overflow := true }
  else ⟨w.written ++ xs, w.rest.drop xs.length, false⟩

/-- Write fields in order. -/
def putAll (w : BoundedWriter α) (fields : List (List α)) : BoundedWriter α := fields.foldl put w

/-- All cells of the area. -/
def contents (w : BoundedWriter α) : List α := w.written ++ w.rest

theorem putAll_cons (w : BoundedWriter α) (xs : List α) (fields : List (List α)) :
    w.putAll (xs :: fields) = (w.put xs).putAll fields := rfl

/-- A write without the mark has taken place. -/
theorem put_of_overflow_eq_false {w : BoundedWriter α} {xs : List α} (h : (w.put xs).overflow = false) :
    w.overflow = false ∧ xs.length ≤ w.rest.length ∧ w.put xs = ⟨w.written ++ xs, w.rest.drop xs.length, false⟩ := by
  unfold put at h ⊢
  split at h
  · cases h
  · next hfit =>
    rw [not_or, Bool.not_eq_true, not_lt] at hfit
    refine ⟨hfit.1, hfit.2, if_neg ?_⟩
    rw [not_or, Bool.not_eq_true, not_lt]
    exact hfit

theorem length_contents_put (w : BoundedWriter α) (xs : List α) : (w.put xs).contents.length = w.contents.length := by
  unfold put contents
  split
  · rfl
  · next hfit =>
    rw [not_or, not_lt] at hfit
    have := hfit.2
    simp only [List.length_append, List.length_drop]
    omega

/-- The size of the area does not change. -/
theorem length_contents_putAll (w : BoundedWriter α) (fields : List (List α)) :
    (w.putAll fields).contents.length = w.contents.length := by
  induction fields generalizing w with
  | nil => rfl
  | cons xs fields ih => rw [putAll_cons, ih, length_contents_put]

/-- Without the mark at the end there was none before, and every field was written. -/
theorem written_putAll {w : BoundedWriter α} {fields : List (List α)} (h : (w.putAll fields).overflow = false) :
    w.overflow = false ∧ (w.putAll fields).written = w.written ++ fields.flatten := by
  induction fields generalizing w with
  | nil => exact ⟨h, by rw [List.flatten_nil, List.append_nil]; rfl⟩
  | cons xs fields ih =>
    rw [putAll_cons] at h ⊢
    obtain ⟨hput, hwritten⟩ := ih h
    obtain ⟨hw, -, heq⟩ := put_of_overflow_eq_false hput
    refine ⟨hw, ?_⟩
    rw [hwritten, heq, List.flatten_cons, List.append_assoc]

/-- Fields that fit into what is left are written. -/
theorem putAll_of_fits {w : BoundedWriter α} {fields : List (List α)} (hw : w.overflow = false)
    (h : fields.flatten.length ≤ w.rest.length) :
    (w.putAll fields).overflow = false ∧ (w.putAll fields).written = w.written ++ fields.flatten := by
  induction fields generalizing w with
  | nil => exact ⟨hw, by rw [List.flatten_nil, List.append_nil]; rfl⟩
  | cons xs fields ih =>
    rw [List.flatten_cons, List.length_append] at h
    have hput : w.put xs = ⟨w.written ++ xs, w.rest.drop xs.length, false⟩ := by
      refine if_neg ?_
      rw [hw, not_or, not_lt]
      exact ⟨Bool.false_ne_true, by omega⟩
    have hrest : fields.flatten.length ≤ (w.put xs).rest.length := by
      rw [hput, List.length_drop]
      omega
    obtain ⟨hoverflow, hwritten⟩ := ih (congrArg BoundedWriter.overflow hput) hrest
    refine ⟨hoverflow, ?_⟩
    rw [putAll_cons, hwritten, hput, List.flatten_cons, List.append_assoc]

theorem length_written_le (w : BoundedWriter α) : w.written.length ≤ w.contents.length := by
  rw [contents, List.length_append]
  exact Nat.le_add_right _ _

theorem take_contents {w : BoundedWriter α} {n : ℕ} (h : w.written.length = n) : w.contents.take n = w.written :=
  List.take_left' h

end BoundedWriter
