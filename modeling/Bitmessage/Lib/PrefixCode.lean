import Bitmessage.Lib.Lexing
import Mathlib.Logic.Function.Basic

/-! Codes whose words are told apart as they arrive. No word is the beginning of another one, so a text
of words is the text of one list only. A decoder that finds every word whatever stands behind it makes
a code so, and cutting a text with the decoder finds the words it was made of. -/

namespace PrefixCode

variable {α β : Type*} {code : α → List β} {next : List β → Option (α × ℕ)}

/-- No word is the beginning of another one. -/
def PrefixFree (code : α → List β) : Prop := ∀ a b, code a <+: code b → a = b

/-- The words of a list one behind the other. -/
def concat (code : α → List β) (as : List α) : List β := as.flatMap code

theorem concat_cons (code : α → List β) (a : α) (as : List α) : concat code (a :: as) = code a ++ concat code as :=
  List.flatMap_cons

/-- The first words of two texts that are one. -/
theorem PrefixFree.append_inj (h : PrefixFree code) {a b : α} {xs ys : List β} (heq : code a ++ xs = code b ++ ys) :
    a = b ∧ xs = ys := by
  have hab : a = b := by
    have ha : code a <+: code b ++ ys := ⟨xs, heq⟩
    have hb : code b <+: code b ++ ys := List.prefix_append _ _
    rcases List.prefix_or_prefix_of_prefix ha hb with hpre | hpre
    · exact h a b hpre
    · exact (h b a hpre).symm
  subst hab
  exact ⟨rfl, List.append_cancel_left heq⟩

/-- A text of words is the text of one list. -/
theorem PrefixFree.concat_injective (h : PrefixFree code) (hne : ∀ a, code a ≠ []) :
    Function.Injective (concat code) := by
  intro as
  induction as with
  | nil =>
    intro bs heq
    cases bs with
    | nil => rfl
    | cons b bs =>
      rw [concat_cons] at heq
      exact absurd (List.append_eq_nil_iff.mp heq.symm).1 (hne b)
  | cons a as ih =>
    intro bs heq
    cases bs with
    | nil =>
      rw [concat_cons] at heq
      exact absurd (List.append_eq_nil_iff.mp heq).1 (hne a)
    | cons b bs =>
      rw [concat_cons, concat_cons] at heq
      obtain ⟨rfl, hrest⟩ := h.append_inj heq
      rw [ih hrest]

/-- The decoder finds a word, whatever stands behind it. -/
def Finds (next : List β → Option (α × ℕ)) (code : α → List β) : Prop :=
  ∀ a rest, next (code a ++ rest) = some (a, (code a).length)

theorem Finds.prefixFree (h : Finds next code) : PrefixFree code := by
  intro a b hpre
  obtain ⟨rest, heq⟩ := hpre
  have ha := h a rest
  have hb := h b []
  rw [List.append_nil, ← heq, ha] at hb
  exact (Prod.mk.inj (Option.some.inj hb)).1

/-- The decoder cuts a text into the words it was made of. -/
theorem Finds.lexes (h : Finds next code) (as : List α) (rest : List β) :
    Lexing.Lexes next (concat code as ++ rest) (as.map fun a => (a, code a)) rest := by
  induction as with
  | nil => exact .nil rest
  | cons a as ih =>
    have hnext := h a (concat code as ++ rest)
    have htail : Lexing.Lexes next ((code a ++ (concat code as ++ rest)).drop (code a).length)
        (as.map fun a => (a, code a)) rest := by rwa [List.drop_left]
    have hcons := Lexing.Lexes.cons hnext htail
    rwa [List.take_left, ← List.append_assoc, ← concat_cons] at hcons

/-- Every way to cut a text of words to its end gives these words. -/
theorem Finds.lexes_unique (h : Finds next code) (hend : next [] = none) {as : List α} {ts : List (α × List β)}
    (hts : Lexing.Lexes next (concat code as) ts []) : ts = as.map fun a => (a, code a) := by
  have hcut := h.lexes as []
  rw [List.append_nil] at hcut
  exact (hts.unique hcut hend hend).1

end PrefixCode
