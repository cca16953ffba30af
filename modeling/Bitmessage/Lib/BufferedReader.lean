import Bitmessage.Lib.Delivery

/-! A buffer of fixed size in front of a stream that arrives in pieces. The reader looks for the end of the
next frame in what the buffer holds; when there is none it moves that to the front and reads behind it. What
the frames are does not depend on the pieces. -/

/-- How the end of a frame is found. A frame that was found stays the same whatever follows. -/
structure Framing (α : Type*) where
  find (xs : List α) : Option ℕ
  find_le : ∀ xs n, find xs = some n → n ≤ xs.length
  find_append : ∀ xs n, find xs = some n → ∀ ys, find (xs ++ ys) = some n

/-- The first `buf.length` cells of an array of `cap` cells are in use, and those before `start` are done with. -/
structure BufferedReader (α : Type*) (cap : ℕ) where
  buf : List α
  start : ℕ
  start_le : start ≤ buf.length
  length_le : buf.length ≤ cap

namespace BufferedReader

open Delivery

variable {α : Type*} {cap : ℕ}

def fresh : BufferedReader α cap := ⟨[], 0, Nat.zero_le _, Nat.zero_le cap⟩

/-- What was read and not yet handed out. -/
def held (r : BufferedReader α cap) : List α := r.buf.drop r.start

theorem length_held_le (r : BufferedReader α cap) : r.held.length ≤ cap := by
  have := r.length_le
  rw [held, List.length_drop]
  omega

/-- Hand out `n` items. -/
def advance (r : BufferedReader α cap) {n : ℕ} (h : n ≤ r.held.length) : BufferedReader α cap where
  buf := r.buf
  start := r.start + n
  start_le := by
    rw [held, List.length_drop] at h
    have := r.start_le
    omega
  length_le := r.length_le

/-- Move what is held to the front, and put `xs` behind it. -/
def refill (r : BufferedReader α cap) {xs : List α} (h : xs.length ≤ cap - r.held.length) : BufferedReader α cap where
  buf := r.held ++ xs
  start := 0
  start_le := Nat.zero_le _
  length_le := by
    have := r.length_held_le
    rw [List.length_append]
    omega

/-- The items that are still to be handed out. -/
def unread (r : BufferedReader α cap) (s : Source α) : List α := r.held ++ delivered s

@[simp] theorem unread_fresh (s : Source α) : (fresh : BufferedReader α cap).unread s = delivered s := rfl

variable (F : Framing α)

/-- The next frame, with its end. -/
def next : ℕ → BufferedReader α cap → Source α → Option (List α × BufferedReader α cap × Source α)
  | 0, _, _ => none
  | fuel + 1, r, s =>
    match hfind : F.find r.held with
    | some n => some (r.held.take n, r.advance (F.find_le _ _ hfind), s)
    | none =>
      if cap ≤ r.held.length then none
      else
        match hread : read (cap - r.held.length) s with
        | none => none
        | some (_, t) => next fuel (r.refill (read_eq_some hread).1) t

/-- The first frame of a stream, if it fits into the buffer. -/
def firstFrame (cap : ℕ) (stream : List α) : Option (List α × List α) :=
  (F.find (stream.take cap)).map fun n => (stream.take n, stream.drop n)

theorem held_advance (r : BufferedReader α cap) {n : ℕ} (h : n ≤ r.held.length) :
    (r.advance h).held = r.held.drop n := by
  rw [held, held, List.drop_drop]
  rfl

/-- The reader hands out the frames of the stream, however it is cut into pieces. -/
theorem next_eq {fuel : ℕ} (r : BufferedReader α cap) (s : Source α) (hfuel : cap + 1 ≤ fuel + r.held.length) :
    (next F fuel r s).map (fun x => (x.1, x.2.1.unread x.2.2)) = firstFrame F cap (r.unread s) := by
  induction fuel generalizing r s with
  | zero =>
    have := r.length_held_le
    omega
  | succ fuel ih =>
    have hcap := r.length_held_le
    have htake : (r.unread s).take cap = r.held ++ (delivered s).take (cap - r.held.length) := by
      rw [unread, List.take_append, List.take_of_length_le hcap]
    rw [next, firstFrame, htake]
    split
    · next n hfind =>
      have hle := F.find_le _ _ hfind
      rw [F.find_append _ _ hfind, Option.map_some, Option.map_some, unread, unread,
        List.take_append_of_le_length hle, List.drop_append_of_le_length hle, held_advance]
    · next hfind =>
      split_ifs with hfull
      · -- the frame does not fit
        rw [Nat.sub_eq_zero_of_le hfull, List.take_zero, List.append_nil, hfind]
        rfl
      · split
        · next hread =>
          rw [read_eq_none.mp hread, List.take_nil, List.append_nil, hfind]
          rfl
        · next xs t hread =>
          obtain ⟨hlen, hdelivered, hne⟩ := read_eq_some hread
          have hpos := List.length_pos_iff.mpr (hne (by omega))
          have hsame : (r.refill hlen).unread t = r.unread s := by
            rw [unread, unread, hdelivered, ← List.append_assoc]
            rfl
          have hheld : (r.refill hlen).held.length = r.held.length + xs.length := List.length_append
          rw [ih _ t (by omega), firstFrame, hsame, htake]

end BufferedReader
