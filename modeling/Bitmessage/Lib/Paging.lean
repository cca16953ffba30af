import Mathlib.Data.List.Induction
import Mathlib.Data.List.Perm.Basic
import Mathlib.Data.List.Sort
import Mathlib.Tactic.SplitIfs

/-! A loop that reads a list page by page and shortens it as it goes. Each key of a page is tried, and
leaves the list when that works; a key that fails stays where it is. A page begins behind as many keys
as have failed, and is as long as successes are still wanted. This lines up: the keys that have failed
are the first of the list, in the order in which they were tried, and the page is what comes next. -/

namespace Paging

variable {σ κ ρ : Type*}

/-- What the loop has done: the keys it has tried, and which of them worked or failed, with the results. -/
structure Progress (σ κ ρ : Type*) where
  state : σ
  tried : List κ
  done : List (κ × ρ)
  failed : List (κ × ρ)

section

variable (attempt : σ → κ → σ × ρ × Bool) (page : σ → ℕ → ℕ → Option (List κ)) (limit : ℕ)

def attemptOne (p : Progress σ κ ρ) (k : κ) : Progress σ κ ρ :=
  let r := attempt p.state k
  if r.2.2 then ⟨r.1, p.tried ++ [k], p.done ++ [(k, r.2.1)], p.failed⟩
  else ⟨r.1, p.tried ++ [k], p.done, p.failed ++ [(k, r.2.1)]⟩

def attemptPage (p : Progress σ κ ρ) (ks : List κ) : Progress σ κ ρ := ks.foldl (attemptOne attempt) p

/-- The rounds of the loop. A page may not be had; an empty one is the last. -/
def rounds : ℕ → Progress σ κ ρ → Progress σ κ ρ
  | 0, p => p
  | bound + 1, p =>
    if p.done.length < limit then
      match page p.state (limit - p.done.length) p.failed.length with
      | none | some [] => p
      | some (k :: ks) => rounds bound (attemptPage attempt p (k :: ks))
    else p

end

/-- The list begins with the keys that have failed; with those that have worked it is the list of the start. -/
structure Aligned (keys : σ → List κ) (start : List κ) (p : Progress σ κ ρ) (unseen : List κ) : Prop where
  listed : keys p.state = p.failed.map Prod.fst ++ unseen
  start : (p.done.map Prod.fst ++ keys p.state).Perm start
  tried : p.tried.Perm (p.done.map Prod.fst ++ p.failed.map Prod.fst)

section

variable {keys : σ → List κ} {attempt : σ → κ → σ × ρ × Bool} {page : σ → ℕ → ℕ → Option (List κ)}
  {limit : ℕ} {start unseen : List κ} {p : Progress σ κ ρ}

theorem Aligned.nodup (h : Aligned keys start p unseen) (hstart : start.Nodup) : (keys p.state).Nodup :=
  (List.nodup_append.mp (h.start.nodup_iff.mpr hstart)).2.1

variable [DecidableEq κ]

/-- The loop has come to its end: enough keys have worked, none is left, or a page could not be had. -/
def Stopped (page : σ → ℕ → ℕ → Option (List κ)) (limit : ℕ) (p : Progress σ κ ρ) (unseen : List κ) : Prop :=
  limit ≤ p.done.length ∨ unseen = [] ∨ page p.state (limit - p.done.length) p.failed.length = none

end

/-! ### A sorted listing -/

section

variable {α : Type*} (r : α → α → Prop) [DecidableRel r] [IsTrans α r] (p : α → Bool)

end

end Paging
