import Mathlib.Logic.Relation

/-! Procedures that can be started again. A procedure changes a durable state in several
writes and may be stopped between any two of them. It is restartable when every state on
its way is either the one it started from or one from which each further attempt ends as
this attempt would have ended. Then, however often it was stopped before, an attempt
that goes through ends as an attempt on the first state that nobody stopped. -/

namespace Restart

open Relation

variable {σ ι : Type*}

/-- What an attempt leaves on its way and in the end; its input must suit the state. -/
structure Procedure (σ ι : Type*) where
  admits : ι → σ → Prop
  stops : ι → σ → List σ
  final : ι → σ → σ

namespace Procedure

variable (p : Procedure σ ι) {ready : σ → Prop} {s t : σ}

/-- An attempt on the first state was stopped and left the second. -/
def Stopped (s t : σ) : Prop := ∃ i, p.admits i s ∧ t ∈ p.stops i s

/-- A state on the way is the first one or has settled the end. -/
def Restartable (ready : σ → Prop) : Prop :=
  ∀ i s, ready s → p.admits i s → ∀ t ∈ p.stops i s,
    ready t ∧ (t = s ∨ ∀ j, p.admits j t → p.final j t = p.final i s)

variable {p}

/-- After any number of attempts that were stopped. -/
theorem Restartable.settled (h : p.Restartable ready) (hs : ready s) (ht : ReflTransGen p.Stopped s t) :
    ready t ∧ (t = s ∨ ∃ i, p.admits i s ∧ ∀ j, p.admits j t → p.final j t = p.final i s) := by
  induction ht with
  | refl => exact ⟨hs, .inl rfl⟩
  | @tail t u _ hstop ih =>
    obtain ⟨i, hi, hu⟩ := hstop
    obtain ⟨ht, hsettled⟩ := ih
    obtain ⟨hready, hnext⟩ := h i t ht hi u hu
    refine ⟨hready, ?_⟩
    rcases hnext with rfl | hnext
    · exact hsettled
    · right
      rcases hsettled with rfl | ⟨k, hk, hend⟩
      · exact ⟨i, hi, hnext⟩
      · exact ⟨k, hk, fun j hj => (hnext j hj).trans (hend i hi)⟩

/-- An attempt that goes through ends as one on the first state. -/
theorem Restartable.final_eq (h : p.Restartable ready) (hs : ready s) (ht : ReflTransGen p.Stopped s t) {j : ι}
    (hj : p.admits j t) : ∃ i, p.admits i s ∧ p.final j t = p.final i s := by
  obtain ⟨-, rfl | ⟨i, hi, hend⟩⟩ := h.settled hs ht
  · exact ⟨j, hj, rfl⟩
  · exact ⟨i, hi, hend j hj⟩

end Procedure

end Restart
