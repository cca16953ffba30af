import Mathlib.Data.List.Basic
import Mathlib.Tactic.SplitIfs

/-! A first-in first-out queue in an array. The items stand in a window, which slides towards the
end of the array as they are taken. When an append does not fit behind the window, the window is
moved to the front, and when it does not fit then either, the array is grown by doubling; the memory
may be refused. Cells that were never written are `none`, so that an item that is taken has been put
there. -/

/-- `cells` is the array; the window is `count` cells from `head` on. -/
structure SlidingBuffer (α : Type*) where
  cells : List (Option α)
  head : ℕ
  count : ℕ

namespace SlidingBuffer

variable {α : Type*}

def empty : SlidingBuffer α := ⟨[], 0, 0⟩

def window (b : SlidingBuffer α) : List (Option α) := (b.cells.drop b.head).take b.count

/-- Move the window to the front, if it leaves no room for `n` items behind it. -/
def makeRoom (b : SlidingBuffer α) (n : ℕ) : SlidingBuffer α :=
  if 0 < b.head ∧ b.cells.length < b.head + b.count + n then ⟨b.window ++ b.cells.drop b.count, 0, b.count⟩ else b

/-- Double a capacity until it is enough. -/
def doubled (need : ℕ) : ℕ → ℕ → ℕ
  | 0, capacity => capacity
  | bound + 1, capacity => if capacity < need then doubled need bound (capacity * 2) else capacity

/-- The capacity that holds `need` cells; the doubling starts with the old one, or with a least one. -/
def grownCapacity (b : SlidingBuffer α) (least need : ℕ) : ℕ :=
  doubled need need (if 0 < b.cells.length then b.cells.length else least)

/-- Grow the array to hold `need` cells. -/
def grow (b : SlidingBuffer α) (least need : ℕ) (granted : Bool) : Option (SlidingBuffer α) :=
  if need ≤ b.cells.length then some b
  else if granted then
    some { b with cells := b.cells ++ List.replicate (b.grownCapacity least need - b.cells.length) none }
  else none

/-- Copy items behind the window. -/
def store (b : SlidingBuffer α) (items : List α) : SlidingBuffer α where
  cells := b.cells.take (b.head + b.count) ++ items.map some ++ b.cells.drop (b.head + b.count + items.length)
  head := b.head
  count := b.count + items.length

/-- Append items; the second part tells whether the memory for them could be had. -/
def append (b : SlidingBuffer α) (least : ℕ) (items : List α) (granted : Bool) : SlidingBuffer α × Bool :=
  if items.length = 0 then (b, true)
  else
    let moved := b.makeRoom items.length
    match moved.grow least (moved.head + moved.count + items.length) granted with
    | none => (moved, false)
    | some grown => (grown.store items, true)

/-- Take the first item. -/
def take (b : SlidingBuffer α) : Option (α × SlidingBuffer α) :=
  match b.cells[b.head]? with
  | some (some a) => some (a, { b with head := b.head + 1, count := b.count - 1 })
  | _ => none

/-- The window lies in the array and holds the items. -/
structure Holds (b : SlidingBuffer α) (items : List α) : Prop where
  bound : b.head + b.count ≤ b.cells.length
  window : b.window = items.map some

theorem holds_empty : Holds (empty : SlidingBuffer α) [] := ⟨Nat.le_refl 0, rfl⟩

section

variable {b b' : SlidingBuffer α} {items : List α}

theorem Holds.length_window (h : Holds b items) : b.window.length = b.count := by
  have hbound := h.bound
  rw [SlidingBuffer.window, List.length_take, List.length_drop]
  omega

theorem Holds.count (h : Holds b items) : b.count = items.length := by
  rw [← h.length_window, h.window, List.length_map]

theorem Holds.makeRoom (h : Holds b items) (n : ℕ) : Holds (b.makeRoom n) items := by
  have hbound := h.bound
  have hlength := h.length_window
  unfold SlidingBuffer.makeRoom
  split_ifs
  · constructor
    · simp only [List.length_append, List.length_drop, hlength]
      omega
    · rw [← h.window]
      have hfront : (b.window ++ b.cells.drop b.count).take b.count = b.window.take b.count :=
        List.take_append_of_le_length (Nat.le_of_eq hlength.symm)
      exact hfront.trans (List.take_of_length_le (Nat.le_of_eq hlength))
  · exact h

theorem le_doubled {need bound capacity : ℕ} (hpos : 0 < capacity) (h : need ≤ capacity + bound) :
    need ≤ doubled need bound capacity := by
  induction bound generalizing capacity with
  | zero => exact h
  | succ bound ih =>
    unfold doubled
    split_ifs with hless
    · exact ih (by omega) (by omega)
    · omega

theorem le_grownCapacity (b : SlidingBuffer α) {least need : ℕ} (hleast : 0 < least) :
    need ≤ b.grownCapacity least need := by
  refine le_doubled ?_ (by omega)
  split_ifs with hpos
  · exact hpos
  · exact hleast

/-- A grown array is large enough and has the same window. -/
theorem Holds.grow (h : Holds b items) {least need : ℕ} {granted : Bool} (hleast : 0 < least)
    (hgrow : b.grow least need granted = some b') :
    Holds b' items ∧ need ≤ b'.cells.length ∧ b'.head = b.head ∧ b'.count = b.count := by
  have hbound := h.bound
  have hcapacity : need ≤ b.grownCapacity least need := b.le_grownCapacity hleast
  unfold SlidingBuffer.grow at hgrow
  split_ifs at hgrow with hless hgranted
  · obtain rfl := Option.some.inj hgrow
    exact ⟨h, hless, rfl, rfl⟩
  · obtain rfl := Option.some.inj hgrow
    refine ⟨⟨?_, ?_⟩, ?_, rfl, rfl⟩
    · simp only [List.length_append]
      omega
    · rw [← h.window]
      unfold SlidingBuffer.window
      simp only
      rw [List.drop_append_of_le_length (by omega), List.take_append_of_le_length]
      rw [List.length_drop]
      omega
    · simp only [List.length_append, List.length_replicate]
      omega

theorem Holds.store (h : Holds b items) {xs : List α} (hroom : b.head + b.count + xs.length ≤ b.cells.length) :
    Holds (b.store xs) (items ++ xs) := by
  constructor
  · simp only [SlidingBuffer.store, List.length_append, List.length_take, List.length_drop, List.length_map]
    omega
  · have hfront : (b.cells.take (b.head + b.count)).drop b.head = items.map some := by
      rw [List.drop_take, Nat.add_sub_cancel_left, ← h.window, SlidingBuffer.window]
    have hlength : (items.map some).length = b.count := by rw [List.length_map, h.count]
    have hxs : xs.length = (xs.map some).length := (List.length_map some).symm
    unfold SlidingBuffer.window SlidingBuffer.store
    simp only
    rw [List.append_assoc, List.drop_append_of_le_length (by rw [List.length_take]; omega), hfront, ← hlength,
      hxs, ← List.length_append, ← List.append_assoc, List.take_left, List.map_append]

/-- The items are appended, or none of them where the memory is refused. -/
theorem Holds.append (h : Holds b items) {least : ℕ} (hleast : 0 < least) (xs : List α) (granted : Bool) :
    Holds (b.append least xs granted).1 (if (b.append least xs granted).2 then items ++ xs else items) := by
  unfold SlidingBuffer.append
  by_cases hnil : xs.length = 0
  · simpa [List.eq_nil_of_length_eq_zero hnil] using h
  · have hmoved := h.makeRoom xs.length
    simp only [hnil, if_false]
    rcases hgrow : (b.makeRoom xs.length).grow least
        ((b.makeRoom xs.length).head + (b.makeRoom xs.length).count + xs.length) granted with _ | grown
    · exact hmoved
    · obtain ⟨hgrown, hneed, hhead, hcount⟩ := hmoved.grow hleast hgrow
      exact hgrown.store (by rw [hhead, hcount]; exact hneed)

theorem append_granted (b : SlidingBuffer α) (least : ℕ) (xs : List α) : (b.append least xs true).2 = true := by
  unfold SlidingBuffer.append
  split_ifs with hnil
  · rfl
  · simp only [grow]
    split_ifs <;> rfl

/-- What is taken is the first item. -/
theorem Holds.take {a : α} (h : Holds b (a :: items)) : ∃ b', b.take = some (a, b') ∧ Holds b' items := by
  have hbound := h.bound
  have hcount : b.count = items.length + 1 := h.count
  have hwindow := h.window
  unfold SlidingBuffer.window at hwindow
  have hlt : b.head < b.cells.length := by omega
  rw [List.drop_eq_getElem_cons hlt, hcount, List.take_succ_cons, List.map_cons, List.cons.injEq] at hwindow
  obtain ⟨hfirst, hrest⟩ := hwindow
  refine ⟨{ b with head := b.head + 1, count := b.count - 1 }, ?_, ?_, ?_⟩
  · unfold SlidingBuffer.take
    rw [List.getElem?_eq_getElem hlt, hfirst]
  · simp only
    omega
  · unfold SlidingBuffer.window
    simp only [hcount, Nat.add_sub_cancel]
    exact hrest

theorem Holds.discard (h : Holds b items) : Holds { b with count := 0 } [] :=
  ⟨by have hbound := h.bound; simp only; omega, rfl⟩

theorem Holds.rewind (h : Holds b []) : Holds { b with head := 0 } [] := by
  have hcount := h.count
  refine ⟨?_, ?_⟩
  · simp [hcount]
  · simp [SlidingBuffer.window, hcount]

end

end SlidingBuffer
