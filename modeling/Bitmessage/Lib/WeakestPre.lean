import Bitmessage.Lib.Traced

/-! Total correctness of traced computations. `Returns P m s Q` says that `m` started in `s` comes to its
end, that every event on the way satisfies `P`, and that value and state at the end satisfy `Q`. There is
one rule for each way to build a computation, and a loop needs an invariant and a rank. -/

namespace Traced

variable {ε σ α β : Type} {P : ε → Prop}

/-- The computation returns with safe events behind it. -/
def Returns (P : ε → Prop) (m : Traced ε σ α) (s : σ) (Q : α → σ → Prop) : Prop :=
  Safe P m s ∧ ∃ a t, m.result s = some (a, t) ∧ Q a t

/-- Change the state. -/
def modify (f : σ → σ) : Traced ε σ Unit := fun s => ([], some ((), f s))

/-- `while (cond) body`. A loop that is not at its end after `fuel` conditions stops without a value. -/
def loop (cond : Traced ε σ Bool) (body : Traced ε σ Unit) : ℕ → Traced ε σ Unit
  | 0 => stop
  | fuel + 1 => do
    let go ← cond
    if go then do
      body
      loop cond body fuel
    else pure ()

theorem Returns.mono {m : Traced ε σ α} {s : σ} {Q R : α → σ → Prop} (h : Returns P m s Q)
    (hQR : ∀ a t, Q a t → R a t) : Returns P m s R := by
  obtain ⟨hsafe, a, t, hm, hQ⟩ := h
  exact ⟨hsafe, a, t, hm, hQR a t hQ⟩

theorem Returns.result {m : Traced ε σ α} {s : σ} {Q : α → σ → Prop} (h : Returns P m s Q) :
    ∃ a t, m.result s = some (a, t) ∧ Q a t := h.2

@[simp] theorem returns_pure {a : α} {s : σ} {Q : α → σ → Prop} : Returns P (pure a) s Q ↔ Q a s := by
  simp [Returns]

@[simp] theorem returns_emit {e : ε} {s : σ} {Q : Unit → σ → Prop} : Returns P (emit e) s Q ↔ P e ∧ Q () s := by
  simp [Returns, Unique.exists_iff]

@[simp] theorem returns_get {s : σ} {Q : σ → σ → Prop} : Returns P get s Q ↔ Q s s := by
  simp [Returns]

@[simp] theorem returns_set {s t : σ} {Q : Unit → σ → Prop} : Returns P (set t) s Q ↔ Q () t := by
  simp [Returns, Unique.exists_iff]

@[simp] theorem returns_modify {f : σ → σ} {s : σ} {Q : Unit → σ → Prop} :
    Returns P (modify f) s Q ↔ Q () (f s) := by
  have hsafe : Safe P (modify f) s := nofun
  have hresult : (modify f : Traced ε σ Unit).result s = some ((), f s) := rfl
  simp [Returns, hsafe, hresult, Unique.exists_iff]

@[simp] theorem returns_bind {m : Traced ε σ α} {f : α → Traced ε σ β} {s : σ} {Q : β → σ → Prop} :
    Returns P (m >>= f) s Q ↔ Returns P m s fun a t => Returns P (f a) t Q := by
  constructor
  · rintro ⟨hsafe, b, u, hresult, hQ⟩
    obtain ⟨a, t, hm, hf⟩ := result_bind_eq_some.mp hresult
    obtain ⟨hsafem, hsafef⟩ := safe_bind.mp hsafe
    exact ⟨hsafem, a, t, hm, hsafef a t hm, b, u, hf, hQ⟩
  · rintro ⟨hsafem, a, t, hm, hsafef, b, u, hf, hQ⟩
    exact ⟨(safe_bind_of_result hm).mpr ⟨hsafem, hsafef⟩, b, u, result_bind_eq_some.mpr ⟨a, t, hm, hf⟩, hQ⟩

/-- Where the condition holds, the body restores the invariant and lowers the rank; then the loop returns,
whatever its fuel beyond the rank, in a state where the condition has failed. -/
theorem returns_loop (I : σ → Prop) (rank : σ → ℕ) {cond : Traced ε σ Bool} {body : Traced ε σ Unit} {Q : σ → Prop}
    (hround : ∀ s, I s → Returns P cond s fun go t =>
      if go = true then Returns P body t fun _ u => I u ∧ rank u < rank s else Q t)
    {s : σ} (hs : I s) {fuel : ℕ} (hfuel : rank s < fuel) : Returns P (loop cond body fuel) s fun _ t => Q t := by
  induction fuel generalizing s with
  | zero => omega
  | succ fuel ih =>
    rw [loop, returns_bind]
    refine (hround s hs).mono fun go t hgo => ?_
    cases go with
    | false => exact returns_pure.mpr hgo
    | true =>
      rw [if_pos rfl, returns_bind]
      refine Returns.mono hgo fun _ u hu => ?_
      exact ih hu.1 (by omega)

end Traced
