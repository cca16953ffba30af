import Mathlib.Data.List.Defs
import Mathlib.Data.Option.Basic

/-! Searches with two tests. A candidate first opens what is searched for and then
accepts or refuses what it has opened. A search that commits takes the first candidate
that opens and asks nobody else when that one refuses; asking each candidate alone
leaves nobody out. The two agree when acceptance is the same for all that open. When it
is settled by a key of the candidate, they agree exactly when the first that opens has
the key, if any of the others that open has it. -/

namespace FirstMatch

variable {ι α β : Type*} (opens : ι → Option α) (accepts : ι → α → Option β)

/-- The first candidate that opens, with what it has opened. -/
def firstOpened (xs : List ι) : Option (ι × α) := xs.findSome? fun i => (opens i).map fun a => (i, a)

/-- The search that commits to the first candidate that opens. -/
def committed (xs : List ι) : Option β := (firstOpened opens xs).bind fun p => accepts p.1 p.2

/-- What a candidate makes of it alone. -/
def alone (i : ι) : Option β := (opens i).bind (accepts i)

/-- All the candidates that open find the same. -/
def OpensAlike (xs : List ι) : Prop := ∀ i ∈ xs, ∀ j ∈ xs, ∀ a b, opens i = some a → opens j = some b → a = b

variable {opens accepts} {xs : List ι} {i : ι} {a : α}

theorem firstOpened_eq_some (h : firstOpened opens xs = some (i, a)) : i ∈ xs ∧ opens i = some a := by
  obtain ⟨j, hj, hopened⟩ := List.exists_of_findSome?_eq_some h
  obtain ⟨b, hb, hpair⟩ := Option.map_eq_some_iff.mp hopened
  cases hpair
  exact ⟨hj, hb⟩

/-- Whatever one of the candidates opens, the first that opens finds as well. -/
theorem OpensAlike.exists_first (h : OpensAlike opens xs) (hi : i ∈ xs) (ha : opens i = some a) :
    ∃ first, firstOpened opens xs = some (first, a) := by
  have hsome : (firstOpened opens xs).isSome := by
    rw [firstOpened, List.findSome?_isSome_iff]
    exact ⟨i, hi, by rw [ha]; rfl⟩
  obtain ⟨⟨first, b⟩, hfirst⟩ := Option.isSome_iff_exists.mp hsome
  obtain ⟨hmem, hb⟩ := firstOpened_eq_some hfirst
  rw [h i hi first hmem a b ha hb]
  exact ⟨first, hfirst⟩

theorem committed_of_first (h : firstOpened opens xs = some (i, a)) : committed opens accepts xs = accepts i a := by
  rw [committed, h, Option.bind_some]

/-- What the committed search finds, one of the candidates finds alone. -/
theorem exists_alone_of_committed {b : β} (h : committed opens accepts xs = some b) :
    ∃ i ∈ xs, alone opens accepts i = some b := by
  obtain ⟨⟨i, a⟩, hfirst, haccepts⟩ := Option.bind_eq_some_iff.mp h
  obtain ⟨hi, ha⟩ := firstOpened_eq_some hfirst
  refine ⟨i, hi, ?_⟩
  rw [alone, ha, Option.bind_some]
  exact haccepts

/-- If acceptance does not depend on the candidate, the committed search leaves nobody out. -/
theorem OpensAlike.committed_isSome_iff (h : OpensAlike opens xs)
    (hsame : ∀ i ∈ xs, ∀ j ∈ xs, ∀ a, opens i = some a → opens j = some a → (accepts i a).isSome →
      (accepts j a).isSome) :
    (committed opens accepts xs).isSome ↔ ∃ i ∈ xs, (alone opens accepts i).isSome := by
  constructor
  · intro hsome
    obtain ⟨b, hb⟩ := Option.isSome_iff_exists.mp hsome
    obtain ⟨i, hi, halone⟩ := exists_alone_of_committed hb
    exact ⟨i, hi, by rw [halone]; rfl⟩
  · rintro ⟨i, hi, halone⟩
    obtain ⟨b, hb⟩ := Option.isSome_iff_exists.mp halone
    obtain ⟨a, ha, haccepts⟩ := Option.bind_eq_some_iff.mp hb
    obtain ⟨first, hfirst⟩ := h.exists_first hi ha
    obtain ⟨hmem, hopened⟩ := firstOpened_eq_some hfirst
    rw [committed_of_first hfirst]
    exact hsame i hi first hmem a ha hopened (by rw [haccepts]; rfl)

section

variable {κ : Type*} (named : α → Option κ) (key : ι → κ)

/-- If one of those that open has the key that is named, the first that opens has it. -/
def FirstHasKey (opens : ι → Option α) (xs : List ι) : Prop :=
  ∀ first a, firstOpened opens xs = some (first, a) → ∀ i ∈ xs, (opens i).isSome → named a = some (key i) →
    key first = key i

variable {named key}

/-- The committed search leaves nobody out exactly when the first that opens has the key. -/
theorem OpensAlike.firstHasKey_iff (h : OpensAlike opens xs)
    (haccepts : ∀ i ∈ xs, ∀ a, (accepts i a).isSome ↔ named a = some (key i)) :
    (∀ i ∈ xs, (alone opens accepts i).isSome → (committed opens accepts xs).isSome) ↔
      FirstHasKey named key opens xs := by
  constructor
  · intro hall first a hfirst i hi hopens hnamed
    obtain ⟨hmem, hopened⟩ := firstOpened_eq_some hfirst
    obtain ⟨b, hb⟩ := Option.isSome_iff_exists.mp hopens
    obtain rfl := h i hi first hmem b a hb hopened
    have halone : (alone opens accepts i).isSome := by
      rw [alone, hb, Option.bind_some]
      exact (haccepts i hi b).mpr hnamed
    have hcommitted := hall i hi halone
    rw [committed_of_first hfirst] at hcommitted
    exact Option.some.inj (((haccepts first hmem b).mp hcommitted).symm.trans hnamed)
  · intro hkey i hi halone
    obtain ⟨b, hb⟩ := Option.isSome_iff_exists.mp halone
    obtain ⟨a, ha, haccept⟩ := Option.bind_eq_some_iff.mp hb
    have hnamed : named a = some (key i) := (haccepts i hi a).mp (by rw [haccept]; rfl)
    obtain ⟨first, hfirst⟩ := h.exists_first hi ha
    have hsame : key first = key i := hkey first a hfirst i hi (by rw [ha]; rfl) hnamed
    rw [committed_of_first hfirst]
    refine (haccepts first (firstOpened_eq_some hfirst).1 a).mpr ?_
    rw [hsame]
    exact hnamed

end

end FirstMatch
