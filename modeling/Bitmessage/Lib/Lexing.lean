import Mathlib.Data.List.Infix
import Mathlib.Data.Nat.Notation

/-! Cutting a stream of symbols into lexemes while it arrives. `next` looks at a buffer and
answers with the lexeme it starts with and the number of symbols of it, or not at all.
When an answer is never revised by later input, cutting each piece of a stream as it
comes gives the lexemes of the whole stream, whatever the pieces are. -/

namespace Lexing

variable {α τ : Type*} (next : List α → Option (τ × ℕ))

/-- More input does not change an answer, and a lexeme lies inside the buffer. -/
structure Incremental : Prop where
  append : ∀ {xs t n}, next xs = some (t, n) → ∀ ys, next (xs ++ ys) = some (t, n)
  le_length : ∀ {xs t n}, next xs = some (t, n) → n ≤ xs.length

/-- `xs` starts with the lexemes `ts`, each with its own symbols, and `rest` follows. -/
inductive Lexes : List α → List (τ × List α) → List α → Prop
  | nil (xs) : Lexes xs [] xs
  | cons {xs t n ts rest} (h : next xs = some (t, n)) (ht : Lexes (xs.drop n) ts rest) :
      Lexes xs ((t, xs.take n) :: ts) rest

variable {next}

theorem Lexes.trans {xs ys zs : List α} {ts us : List (τ × List α)} (h₁ : Lexes next xs ts ys)
    (h₂ : Lexes next ys us zs) : Lexes next xs (ts ++ us) zs := by
  induction h₁ with
  | nil xs => exact h₂
  | cons h _ ih => exact .cons h (ih h₂)

/-- The symbols of the lexemes and the rest are the whole buffer. -/
theorem Lexes.flatMap_append {xs rest : List α} {ts : List (τ × List α)} (h : Lexes next xs ts rest) :
    ts.flatMap Prod.snd ++ rest = xs := by
  induction h with
  | nil xs => rfl
  | cons h _ ih => rw [List.flatMap_cons, List.append_assoc, ih, List.take_append_drop]

theorem Lexes.append (hinc : Incremental next) {xs rest : List α} {ts : List (τ × List α)}
    (h : Lexes next xs ts rest) (ys : List α) : Lexes next (xs ++ ys) ts (rest ++ ys) := by
  induction h with
  | nil xs => exact .nil _
  | @cons xs t n ts rest hn _ ih =>
    have hle := hinc.le_length hn
    have hcons := Lexes.cons (hinc.append hn ys) (by rwa [List.drop_append_of_le_length hle])
    rwa [List.take_append_of_le_length hle] at hcons

/-- A buffer that is cut as far as it goes contains every other way to cut it. -/
theorem Lexes.isPrefix {xs rest rest' : List α} {ts us : List (τ × List α)} (h : Lexes next xs ts rest)
    (h' : Lexes next xs us rest') (hend : next rest' = none) : ts <+: us := by
  induction h generalizing us with
  | nil xs => exact List.nil_prefix
  | cons hn _ ih =>
    cases h' with
    | nil => rw [hn] at hend; contradiction
    | cons hn' ht' =>
      obtain ⟨rfl, rfl⟩ := Prod.mk.inj (Option.some.inj (hn.symm.trans hn'))
      exact List.cons_prefix_cons.mpr ⟨rfl, ih ht'⟩

/-- There is one way to cut a buffer as far as it goes. -/
theorem Lexes.unique {xs rest rest' : List α} {ts us : List (τ × List α)} (h : Lexes next xs ts rest)
    (h' : Lexes next xs us rest') (hend : next rest = none) (hend' : next rest' = none) :
    ts = us ∧ rest = rest' := by
  obtain ⟨vs, rfl⟩ := h.isPrefix h' hend'
  obtain ⟨ws, hws⟩ := h'.isPrefix h hend
  have hvs : vs = [] := by
    have := congrArg List.length hws
    simp only [List.length_append] at this
    exact List.eq_nil_of_length_eq_zero (by omega)
  subst hvs
  refine ⟨(List.append_nil ts).symm, ?_⟩
  have heq := h.flatMap_append.trans h'.flatMap_append.symm
  rw [List.append_nil] at heq
  exact List.append_cancel_left heq

/-- Every lexeme of a cut buffer is one that `next` found. -/
theorem Lexes.next_of_mem {xs rest : List α} {ts : List (τ × List α)} (hinc : Incremental next)
    (h : Lexes next xs ts rest) {t : τ} {ys : List α} (hmem : (t, ys) ∈ ts) :
    ∃ zs, next (ys ++ zs) = some (t, ys.length) := by
  induction h with
  | nil xs => contradiction
  | @cons xs t' n ts rest hn _ ih =>
    rcases List.mem_cons.mp hmem with heq | htail
    · obtain ⟨rfl, rfl⟩ := Prod.mk.inj heq
      refine ⟨xs.drop n, ?_⟩
      rw [List.take_append_drop, List.length_take, Nat.min_eq_left (hinc.le_length hn)]
      exact hn
    · exact ih htail

end Lexing
