import Mathlib.Data.Nat.Notation

/-! Labelled transition systems given by a partial step function. `step s l` is
`none` when the label is not enabled. A run is a list of labels, so a statement
about every run is a statement about every interleaving of the labelled actions,
and every state passed through is the end of a run as well: the prefixes of a run
are runs. An invariant needs one step lemma; a conditional invariant may in
addition use a condition that every step of the run meets before it is taken. -/

namespace Transition

variable {σ ℓ : Type*} (step : σ → ℓ → Option σ)

/-- Execute the labels from left to right. -/
def run : σ → List ℓ → Option σ
  | s, [] => some s
  | s, l :: ls => (step s l).bind fun t => run t ls

variable {step}

@[simp] theorem run_nil (s : σ) : run step s [] = some s := rfl

theorem run_cons {s t : σ} {l : ℓ} {ls : List ℓ} (h : run step s (l :: ls) = some t) :
    ∃ u, step s l = some u ∧ run step u ls = some t := by
  simpa [run, Option.bind_eq_some_iff] using h

theorem run_cons_of {s u : σ} {l : ℓ} (h : step s l = some u) (ls : List ℓ) :
    run step s (l :: ls) = run step u ls := by
  simp [run, h]

theorem run_append (s : σ) (ls ks : List ℓ) :
    run step s (ls ++ ks) = (run step s ls).bind fun t => run step t ks := by
  induction ls generalizing s with
  | nil => rfl
  | cons l ls ih => cases h : step s l <;> simp [run, h, ih]

theorem run_append_some {s t : σ} {ls ks : List ℓ} (h : run step s (ls ++ ks) = some t) :
    ∃ u, run step s ls = some u ∧ run step u ks = some t := by
  rwa [run_append, Option.bind_eq_some_iff] at h

/-- What every step preserves holds at the end of every run. -/
theorem run_invariant {I : σ → Prop} (hstep : ∀ s l t, I s → step s l = some t → I t)
    {s t : σ} {ls : List ℓ} (hs : I s) (h : run step s ls = some t) : I t := by
  induction ls generalizing s with
  | nil => cases h; exact hs
  | cons l ls ih =>
    obtain ⟨u, hu, ht⟩ := run_cons h
    exact ih (hstep s l u hs hu) ht

/-- A run is no longer than a rank that every step lowers. -/
theorem length_add_rank_le {I : σ → Prop} {rank : σ → ℕ} (hstep : ∀ s l t, I s → step s l = some t → I t)
    (hrank : ∀ s l t, I s → step s l = some t → rank t < rank s) {s t : σ} {ls : List ℓ} (hs : I s)
    (h : run step s ls = some t) : ls.length + rank t ≤ rank s := by
  induction ls generalizing s with
  | nil =>
    cases h
    simp
  | cons l ls ih =>
    obtain ⟨u, hu, ht⟩ := run_cons h
    have hu' := hrank s l u hs hu
    have hrest := ih (hstep s l u hs hu) ht
    rw [List.length_cons]
    omega

variable (step) in
/-- The condition `C` holds at every step of the run, in the state the step is
taken from. -/
def Along (C : σ → ℓ → Prop) : σ → List ℓ → Prop
  | _, [] => True
  | s, l :: ls => C s l ∧ ∀ t, step s l = some t → Along C t ls

instance decidableAlong (C : σ → ℓ → Prop) [∀ s l, Decidable (C s l)] :
    ∀ (s : σ) (ls : List ℓ), Decidable (Along step C s ls)
  | _, [] => isTrue trivial
  | s, l :: ls =>
    match h : step s l with
    | none => decidable_of_iff (C s l) (by simp [Along, h])
    | some t =>
      haveI := decidableAlong C t ls
      decidable_of_iff (C s l ∧ Along step C t ls) (by simp [Along, h])

theorem along_of_forall {C : σ → ℓ → Prop} (h : ∀ s l, C s l) (s : σ) (ls : List ℓ) :
    Along step C s ls := by
  induction ls generalizing s with
  | nil => trivial
  | cons l ls ih => exact ⟨h s l, fun t _ => ih t⟩

/-- A condition on the labels alone. -/
theorem along_of_mem {D : ℓ → Prop} (s : σ) {ls : List ℓ} (h : ∀ l ∈ ls, D l) : Along step (fun _ l => D l) s ls := by
  induction ls generalizing s with
  | nil => trivial
  | cons l ls ih =>
    rw [List.forall_mem_cons] at h
    exact ⟨h.1, fun t _ => ih t h.2⟩

theorem Along.imp {C D : σ → ℓ → Prop} (h : ∀ s l, C s l → D s l) {s : σ} {ls : List ℓ} (hC : Along step C s ls) :
    Along step D s ls := by
  induction ls generalizing s with
  | nil => trivial
  | cons l ls ih => exact ⟨h s l hC.1, fun t ht => ih (hC.2 t ht)⟩

theorem Along.left {C : σ → ℓ → Prop} {s : σ} {ls ks : List ℓ} (h : Along step C s (ls ++ ks)) :
    Along step C s ls := by
  induction ls generalizing s with
  | nil => trivial
  | cons l ls ih => exact ⟨h.1, fun t ht => ih (h.2 t ht)⟩

theorem Along.right {C : σ → ℓ → Prop} {s t : σ} {ls ks : List ℓ}
    (h : Along step C s (ls ++ ks)) (hr : run step s ls = some t) : Along step C t ks := by
  induction ls generalizing s with
  | nil => cases hr; exact h
  | cons l ls ih =>
    obtain ⟨u, hu, ht⟩ := run_cons hr
    exact ih (h.2 u hu) ht

theorem Along.and {C D : σ → ℓ → Prop} {s : σ} {ls : List ℓ} (hC : Along step C s ls) (hD : Along step D s ls) :
    Along step (fun s l => C s l ∧ D s l) s ls := by
  induction ls generalizing s with
  | nil => trivial
  | cons l ls ih => exact ⟨⟨hC.1, hD.1⟩, fun t ht => ih (hC.2 t ht) (hD.2 t ht)⟩

variable (step) in
/-- `P` holds in every state of the run, its end included. -/
def Always (P : σ → Prop) : σ → List ℓ → Prop
  | s, [] => P s
  | s, l :: ls => P s ∧ ∀ t, step s l = some t → Always P t ls

instance decidableAlways (P : σ → Prop) [∀ s, Decidable (P s)] :
    ∀ (s : σ) (ls : List ℓ), Decidable (Always step P s ls)
  | s, [] => inferInstanceAs (Decidable (P s))
  | s, l :: ls =>
    match h : step s l with
    | none => decidable_of_iff (P s) (by simp [Always, h])
    | some t =>
      haveI := decidableAlways P t ls
      decidable_of_iff (P s ∧ Always step P t ls) (by simp [Always, h])

theorem Always.start {P : σ → Prop} {s : σ} {ls : List ℓ} (h : Always step P s ls) : P s := by
  cases ls with
  | nil => exact h
  | cons l ls => exact h.1

theorem Always.append {P : σ → Prop} {s t : σ} {ls ks : List ℓ} (h : Always step P s ls) (hr : run step s ls = some t)
    (hrest : Always step P t ks) : Always step P s (ls ++ ks) := by
  induction ls generalizing s with
  | nil =>
    cases hr
    exact hrest
  | cons l ls ih =>
    obtain ⟨u, hu, ht⟩ := run_cons hr
    refine ⟨h.1, fun v hv => ?_⟩
    rw [hu] at hv
    cases hv
    exact ih (h.2 u hu) ht

theorem Always.imp {P Q : σ → Prop} (h : ∀ s, P s → Q s) {s : σ} {ls : List ℓ} (hP : Always step P s ls) :
    Always step Q s ls := by
  induction ls generalizing s with
  | nil => exact h s hP
  | cons l ls ih => exact ⟨h s hP.1, fun t ht => ih (hP.2 t ht)⟩

theorem Always.and {P Q : σ → Prop} {s : σ} {ls : List ℓ} (hP : Always step P s ls) (hQ : Always step Q s ls) :
    Always step (fun s => P s ∧ Q s) s ls := by
  induction ls generalizing s with
  | nil => exact ⟨hP, hQ⟩
  | cons l ls ih => exact ⟨⟨hP.1, hQ.1⟩, fun t ht => ih (hP.2 t ht) (hQ.2 t ht)⟩

/-- A conditional invariant holds in every state of a run all of whose steps meet the condition. -/
theorem always_of_along {I : σ → Prop} {C : σ → ℓ → Prop}
    (hstep : ∀ s l t, I s → C s l → step s l = some t → I t) {s : σ} {ls : List ℓ} (hs : I s)
    (hC : Along step C s ls) : Always step I s ls := by
  induction ls generalizing s with
  | nil => exact hs
  | cons l ls ih => exact ⟨hs, fun t ht => ih (hstep s l t hs hC.1 ht) (hC.2 t ht)⟩

/-- Where, in the states of an invariant and for steps that meet `D`, a step keeps `P` exactly when it
meets `C`, a run of such steps from a state with `P` has `P` throughout exactly when every step meets `C`. -/
theorem always_iff_along_of {I P : σ → Prop} {C D : σ → ℓ → Prop} (hI : ∀ s l t, I s → D s l → step s l = some t → I t)
    (h : ∀ s l, I s → P s → D s l → (C s l ↔ ∀ t, step s l = some t → P t)) {s : σ} {ls : List ℓ} (hs : I s) (hP : P s)
    (hD : Along step D s ls) : Always step P s ls ↔ Along step C s ls := by
  induction ls generalizing s with
  | nil => exact iff_of_true hP trivial
  | cons l ls ih =>
    have hkeeps := h s l hs hP hD.1
    constructor
    · intro hall
      refine ⟨hkeeps.mpr fun t ht => (hall.2 t ht).start, fun t ht => ?_⟩
      exact (ih (hI s l t hs hD.1 ht) (hall.2 t ht).start (hD.2 t ht)).mp (hall.2 t ht)
    · intro halong
      refine ⟨hP, fun t ht => ?_⟩
      exact (ih (hI s l t hs hD.1 ht) (hkeeps.mp halong.1 t ht) (hD.2 t ht)).mpr (halong.2 t ht)

/-- Where a step keeps `P` exactly when it meets a condition, `P` holds throughout a run from a
state with `P` exactly when every step meets it. -/
theorem always_iff_along {P : σ → Prop} {C : σ → ℓ → Prop}
    (h : ∀ s l, P s → (C s l ↔ ∀ t, step s l = some t → P t)) {s : σ} (hs : P s) (ls : List ℓ) :
    Always step P s ls ↔ Along step C s ls :=
  always_iff_along_of (I := fun _ => True) (D := fun _ _ => True) (fun _ _ _ _ _ _ => trivial) (fun s l _ hP _ => h s l hP)
    trivial hs (along_of_forall (fun _ _ => trivial) s ls)

/-- A conditional invariant: preserved by every step that meets the condition, it
holds at the end of every run all of whose steps meet it. -/
theorem run_invariant_along {I : σ → Prop} {C : σ → ℓ → Prop}
    (hstep : ∀ s l t, I s → C s l → step s l = some t → I t)
    {s t : σ} {ls : List ℓ} (hs : I s) (hC : Along step C s ls) (h : run step s ls = some t) : I t := by
  induction ls generalizing s with
  | nil => cases h; exact hs
  | cons l ls ih =>
    obtain ⟨u, hu, ht⟩ := run_cons h
    exact ih (hstep s l u hs hC.1 hu) (hC.2 u hu) ht

/-- A condition on the steps of a run may be replaced by one that is equivalent in the states
of an invariant, and the steps that meet it keep the invariant. -/
theorem along_congr {I : σ → Prop} {C D : σ → ℓ → Prop} (hstep : ∀ s l t, I s → C s l → step s l = some t → I t)
    (h : ∀ s l, I s → (C s l ↔ D s l)) {s : σ} (hs : I s) (ls : List ℓ) : Along step C s ls ↔ Along step D s ls := by
  induction ls generalizing s with
  | nil => exact Iff.rfl
  | cons l ls ih =>
    unfold Along
    rw [← h s l hs]
    exact and_congr_right fun hC => forall₂_congr fun t ht => ih (hstep s l t hs hC ht)

variable (step) in
/-- Once `P` holds it holds for the rest of the run. -/
def Persistent (P : σ → Prop) (s : σ) (ls : List ℓ) : Prop :=
  ∀ as bs cs u v, ls = as ++ (bs ++ cs) → run step s as = some u → run step u bs = some v → P u → P v

/-- To persist in a run is to be kept by each of its steps. -/
theorem persistent_iff_along {P : σ → Prop} {s : σ} {ls : List ℓ} :
    Persistent step P s ls ↔ Along step (fun s l => P s → ∀ t, step s l = some t → P t) s ls := by
  constructor
  · intro h
    induction ls generalizing s with
    | nil => trivial
    | cons l ls ih =>
      refine ⟨fun hs t ht => h [] [l] ls s t rfl rfl (by rw [run_cons_of ht, run_nil]) hs, fun t ht => ih ?_⟩
      intro as bs cs u v he hu
      exact h (l :: as) bs cs u v (by rw [he]; rfl) (by rw [run_cons_of ht, hu])
  · intro h as bs cs u v he hu hv hP
    rw [he] at h
    have hbs := (h.right hu).left
    exact run_invariant_along (fun _ _ t hs hC ht => hC hs t ht) hP hbs hv

end Transition
