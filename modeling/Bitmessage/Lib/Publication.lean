import Mathlib.Logic.Function.Basic

/-! One value published by the first of several parties to claim it. A party that has found
a value sets a flag if it is not set yet; only the party that sets it then writes its value
to the shared cell, some time later. The rules say how the parties may move such that the
flag stands for a single winner and the cell for the winner's value once nobody holds a
claimed value any more. -/

namespace Publication

/-- Where a party is: it still searches, it has set the flag and will write `a`, or it is through. -/
inductive Phase (α : Type*) where
  | searching
  | holding (a : α)
  | closed

variable {ι α : Type*}

/-- The flag, the party that set it with its value, the parties and the cell. -/
structure Settled (taken : Bool) (winner : Option (ι × α)) (phase : ι → Phase α) (cell : α) : Prop where
  taken_iff : taken = true ↔ winner.isSome
  holding : ∀ i a, phase i = .holding a → winner = some (i, a)
  published : ∀ i a, winner = some (i, a) → phase i = .holding a ∨ phase i = .closed ∧ cell = a

theorem settled_start (cell : α) : Settled false none (fun _ : ι => .searching) cell :=
  ⟨by simp, nofun, nofun⟩

namespace Settled

variable {taken : Bool} {winner : Option (ι × α)} {phase : ι → Phase α} {cell : α} {i : ι} {a : α}

/-- When no party holds a claimed value, the cell has the winner's. -/
theorem cell_of_unheld (h : Settled taken winner phase cell) (htaken : taken = true)
    (hnone : ∀ i a, phase i ≠ .holding a) : ∃ i, winner = some (i, cell) := by
  obtain ⟨⟨i, a⟩, hw⟩ := Option.isSome_iff_exists.mp (h.taken_iff.mp htaken)
  rcases h.published i a hw with hhold | ⟨-, hcell⟩
  · exact absurd hhold (hnone i a)
  · exact ⟨i, by rw [hw, hcell]⟩

variable [DecidableEq ι]

/-- A party that searches goes on searching. -/
theorem search (h : Settled taken winner phase cell) (hi : phase i = .searching) :
    Settled taken winner (Function.update phase i .searching) cell := by
  rw [← hi, Function.update_eq_self]
  exact h

/-- Who is through holds nothing any more. -/
theorem holding_close (h : Settled taken winner phase cell) (i : ι) :
    ∀ j b, Function.update phase i .closed j = .holding b → winner = some (j, b) := by
  intro j b hj
  by_cases hji : j = i
  · rw [hji, Function.update_self] at hj
    cases hj
  · rw [Function.update_of_ne hji] at hj
    exact h.holding j b hj

/-- A party gives up, or comes too late. -/
theorem close (h : Settled taken winner phase cell) (hi : phase i = .searching) :
    Settled taken winner (Function.update phase i .closed) cell := by
  refine ⟨h.taken_iff, h.holding_close i, fun j b hw => ?_⟩
  by_cases hji : j = i
  · have := h.published j b hw
    rw [hji, hi] at this
    simp at this
  · rw [Function.update_of_ne hji]
    exact h.published j b hw

/-- The first party sets the flag. -/
theorem claim (h : Settled false winner phase cell) (a : α) :
    Settled true (some (i, a)) (Function.update phase i (.holding a)) cell := by
  have hwinner : winner = none := by
    have := h.taken_iff
    simpa using this
  refine ⟨by simp, fun j b hj => ?_, fun j b hw => ?_⟩
  · by_cases hji : j = i
    · rw [hji, Function.update_self] at hj
      cases hj
      rw [hji]
    · rw [Function.update_of_ne hji] at hj
      have := h.holding j b hj
      rw [hwinner] at this
      cases this
  · cases hw
    left
    rw [Function.update_self]

/-- The winner writes its value. -/
theorem publish (h : Settled taken winner phase cell) (hi : phase i = .holding a) :
    Settled taken winner (Function.update phase i .closed) a := by
  refine ⟨h.taken_iff, h.holding_close i, fun j b hw => ?_⟩
  rw [h.holding i a hi] at hw
  cases hw
  right
  exact ⟨Function.update_self .., rfl⟩

end Settled

end Publication
