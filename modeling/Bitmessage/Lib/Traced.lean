import Mathlib.Data.List.Basic
import Mathlib.Logic.Unique
import Mathlib.Tactic.Common

/-! Computations that leave a trace. A traced computation runs on a state, logs
events, and either returns or stops early; the events logged before it stopped stay.
A safety property is a property of every event of the trace, and it is established
along the computation: the trace of a sequence is safe when the first part's is and,
from the state the first part ends in, the second part's is. -/

/-- A computation with events `ε` on a state `σ`. -/
def Traced (ε σ α : Type) : Type := σ → List ε × Option (α × σ)

namespace Traced

variable {ε σ α β : Type}

/-- The events logged from the state `s`. -/
def trace (m : Traced ε σ α) (s : σ) : List ε := (m s).1

/-- The value and the final state, unless the computation stops early. -/
def result (m : Traced ε σ α) (s : σ) : Option (α × σ) := (m s).2

instance : Monad (Traced ε σ) where
  pure a := fun s => ([], some (a, s))
  bind m f := fun s =>
    match m s with
    | (es, some (a, t)) => (es ++ (f a t).1, (f a t).2)
    | (es, none) => (es, none)

theorem ret_bind (a : α) (f : α → Traced ε σ β) : (pure a : Traced ε σ α) >>= f = f a := rfl

theorem seq_assoc {γ : Type} (m : Traced ε σ α) (f : α → Traced ε σ β) (g : β → Traced ε σ γ) :
    m >>= f >>= g = m >>= fun a => f a >>= g := by
  funext s
  simp only [Bind.bind]
  rcases m s with ⟨es, _ | ⟨a, t⟩⟩
  · rfl
  · simp only
    rcases f a t with ⟨es', _ | ⟨b, u⟩⟩ <;> simp

/-- Log an event. -/
def emit (e : ε) : Traced ε σ Unit := fun s => ([e], some ((), s))

/-- Stop without a value. -/
def stop : Traced ε σ α := fun _ => ([], none)

/-- Stop unless the condition holds. -/
def require (c : Prop) [Decidable c] : Traced ε σ Unit := fun s => ([], if c then some ((), s) else none)

def get : Traced ε σ σ := fun s => ([], some (s, s))

def set (t : σ) : Traced ε σ Unit := fun _ => ([], some ((), t))

/-- Every event satisfies `P`. -/
def Safe (P : ε → Prop) (m : Traced ε σ α) (s : σ) : Prop := ∀ e ∈ m.trace s, P e

/-! ### Results -/

@[simp] theorem result_pure (a : α) (s : σ) : result (pure a : Traced ε σ α) s = some (a, s) := rfl

@[simp] theorem result_emit (e : ε) (s : σ) : result (emit e : Traced ε σ Unit) s = some ((), s) := rfl

@[simp] theorem result_stop (s : σ) : result (stop : Traced ε σ α) s = none := rfl

@[simp] theorem result_get (s : σ) : result (get : Traced ε σ σ) s = some (s, s) := rfl

@[simp] theorem result_set (s t : σ) : result (set t : Traced ε σ Unit) s = some ((), t) := rfl

@[simp] theorem result_require (c : Prop) [Decidable c] (s : σ) :
    result (require c : Traced ε σ Unit) s = if c then some ((), s) else none := rfl

theorem result_bind (m : Traced ε σ α) (f : α → Traced ε σ β) (s : σ) :
    result (m >>= f) s = (m.result s).bind fun r => (f r.1).result r.2 := by
  change (match m s with
    | (es, some (a, t)) => (es ++ (f a t).1, (f a t).2)
    | (es, none) => (es, none)).2 = (m s).2.bind fun r => (f r.1 r.2).2
  rcases m s with ⟨es, _ | ⟨a, t⟩⟩ <;> rfl

theorem result_bind_eq_some {m : Traced ε σ α} {f : α → Traced ε σ β} {s u : σ} {b : β} :
    result (m >>= f) s = some (b, u) ↔
      ∃ a t, m.result s = some (a, t) ∧ (f a).result t = some (b, u) := by
  rw [result_bind, Option.bind_eq_some_iff, Prod.exists]

theorem result_bind_of_result {m : Traced ε σ α} {s t : σ} {a : α} (h : m.result s = some (a, t))
    (f : α → Traced ε σ β) : result (m >>= f) s = (f a).result t := by
  rw [result_bind, h, Option.bind_some]

@[simp] theorem result_require_eq_some {c : Prop} [Decidable c] {s t : σ} {u : Unit} :
    result (require c : Traced ε σ Unit) s = some (u, t) ↔ c ∧ t = s := by
  by_cases h : c <;> simp [h, eq_comm]

theorem result_emit_bind (e : ε) (f : Unit → Traced ε σ β) (s : σ) :
    result (emit e >>= f) s = (f ()).result s := result_bind_of_result (result_emit e s) f

theorem result_require_bind {c : Prop} [Decidable c] (h : c) (f : Unit → Traced ε σ β) (s : σ) :
    result (require c >>= f) s = (f ()).result s := by
  refine result_bind_of_result ?_ f
  rw [result_require, if_pos h]

/-! ### Computations that always return -/

/-- The computation never stops early. -/
def Total (m : Traced ε σ α) : Prop := ∀ s, ∃ a t, m.result s = some (a, t)

theorem total_pure (a : α) : Total (pure a : Traced ε σ α) := fun s => ⟨a, s, rfl⟩

theorem total_emit (e : ε) : Total (emit e : Traced ε σ Unit) := fun s => ⟨(), s, rfl⟩

theorem total_get : Total (get : Traced ε σ σ) := fun s => ⟨s, s, rfl⟩

theorem total_set (t : σ) : Total (set t : Traced ε σ Unit) := fun _ => ⟨(), t, rfl⟩

theorem Total.bind {m : Traced ε σ α} {f : α → Traced ε σ β} (hm : Total m) (hf : ∀ a, Total (f a)) :
    Total (m >>= f) := by
  intro s
  obtain ⟨a, t, ha⟩ := hm s
  obtain ⟨b, u, hb⟩ := hf a t
  exact ⟨b, u, result_bind_eq_some.mpr ⟨a, t, ha, hb⟩⟩

/-! ### Safety -/

variable {P : ε → Prop}

@[simp] theorem safe_pure (a : α) (s : σ) : Safe P (pure a : Traced ε σ α) s := by
  intro e he
  cases he

@[simp] theorem safe_emit {e : ε} {s : σ} : Safe P (emit e : Traced ε σ Unit) s ↔ P e := by
  simp [Safe, trace, emit]

@[simp] theorem safe_stop (s : σ) : Safe P (stop : Traced ε σ α) s := by
  intro e he
  cases he

@[simp] theorem safe_require (c : Prop) [Decidable c] (s : σ) : Safe P (require c : Traced ε σ Unit) s := by
  intro e he
  cases he

@[simp] theorem safe_get (s : σ) : Safe P (get : Traced ε σ σ) s := by
  intro e he
  cases he

@[simp] theorem safe_set (s t : σ) : Safe P (set t : Traced ε σ Unit) s := by
  intro e he
  cases he

theorem trace_bind (m : Traced ε σ α) (f : α → Traced ε σ β) (s : σ) :
    trace (m >>= f) s = m.trace s ++ (m.result s).elim [] fun r => (f r.1).trace r.2 := by
  change (match m s with
    | (es, some (a, t)) => (es ++ (f a t).1, (f a t).2)
    | (es, none) => (es, none)).1 = (m s).1 ++ (m s).2.elim [] fun r => (f r.1 r.2).1
  rcases m s with ⟨es, _ | ⟨a, t⟩⟩
  · simp
  · rfl

/-- The rule for a sequence. -/
theorem safe_bind {m : Traced ε σ α} {f : α → Traced ε σ β} {s : σ} :
    Safe P (m >>= f) s ↔ Safe P m s ∧ ∀ a t, m.result s = some (a, t) → Safe P (f a) t := by
  simp only [Safe, trace_bind, List.mem_append, or_imp, forall_and]
  refine and_congr_right fun _ => ?_
  rcases m.result s with _ | ⟨a, t⟩
  · simp
  · simp only [Option.elim_some, Option.some.injEq, Prod.mk.injEq]
    constructor
    · rintro h b u ⟨rfl, rfl⟩
      exact h
    · exact fun h => h a t ⟨rfl, rfl⟩

theorem safe_bind_of_result {m : Traced ε σ α} {f : α → Traced ε σ β} {s t : σ} {a : α}
    (h : m.result s = some (a, t)) : Safe P (m >>= f) s ↔ Safe P m s ∧ Safe P (f a) t := by
  rw [safe_bind, h]
  refine and_congr_right fun _ => ⟨fun hf => hf a t rfl, ?_⟩
  rintro hf b u ⟨⟩
  exact hf

theorem safe_emit_bind {e : ε} {f : Unit → Traced ε σ β} {s : σ} :
    Safe P (emit e >>= f) s ↔ P e ∧ Safe P (f ()) s := by
  rw [safe_bind_of_result (result_emit e s), safe_emit]

theorem safe_require_bind {c : Prop} [Decidable c] {f : Unit → Traced ε σ β} {s : σ} :
    Safe P (require c >>= f) s ↔ (c → Safe P (f ()) s) := by
  simp [safe_bind, Unique.forall_iff]

theorem safe_get_bind {f : σ → Traced ε σ β} {s : σ} : Safe P (get >>= f) s ↔ Safe P (f s) s := by
  rw [safe_bind_of_result (result_get s), and_iff_right (safe_get s)]

theorem safe_set_bind {f : Unit → Traced ε σ β} {s t : σ} : Safe P (set t >>= f) s ↔ Safe P (f ()) t := by
  rw [safe_bind_of_result (result_set s t), and_iff_right (safe_set s t)]

end Traced
