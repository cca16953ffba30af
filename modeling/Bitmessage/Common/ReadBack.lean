import Bitmessage.Common.Buffer

/-! Reading what was written. When the contents of a buffer from the cursor on start with an
encoded field, the parser of the field answers with its value and leaves the cursor in front
of the rest. -/

namespace Bitmessage

open Traced BufParser

/-- The contents of the buffer from offset `p` on. -/
def Buf.Rest (b : Buf) (p : ℕ) (rest : Bytes) : Prop := ∃ front, b.bytes = front ++ rest ∧ front.length = p

theorem Buf.rest_zero {b : Buf} {rest : Bytes} (h : b.bytes = rest) : b.Rest 0 rest := ⟨[], h, rfl⟩

section
variable {r : Region} {b : Buf} {p : ℕ} {xs rest : Bytes}

theorem Buf.Rest.size (h : b.Rest p rest) : b.size = p + rest.length := by
  obtain ⟨front, hb, rfl⟩ := h
  rw [← b.length_bytes, hb, List.length_append]

/-- Behind a block. -/
theorem Buf.Rest.append (h : b.Rest p (xs ++ rest)) : b.Rest (p + xs.length) rest := by
  obtain ⟨front, hb, rfl⟩ := h
  exact ⟨front ++ xs, by rw [hb, List.append_assoc], List.length_append⟩

theorem Buf.Rest.slice (h : b.Rest p (xs ++ rest)) : b.slice p xs.length = xs := by
  obtain ⟨front, hb, rfl⟩ := h
  exact Buf.slice_of_bytes front xs rest hb

/-- The contents up to the cursor. -/
theorem Buf.Rest.slice_front {front : Bytes} (h : b.bytes = front ++ rest) : b.slice 0 front.length = front :=
  Buf.slice_of_bytes [] front rest h

theorem Buf.Rest.varint {v : ℕ} (h : b.Rest p (varintEncode v ++ rest)) (hv : v < wordSize) :
    (varint r b).result p = some (v, p + (varintEncode v).length) := by
  have hsize := h.size
  rw [List.length_append] at hsize
  rw [result_varint (by omega), length_varintEncode]
  obtain ⟨front, hb, rfl⟩ := h
  exact Buf.varintAt_of_bytes hv hb

theorem Buf.Rest.bytes {n : ℕ} (h : b.Rest p (xs ++ rest)) (hn : xs.length = n) :
    (BufParser.bytes r b n).result p = some (xs, p + xs.length) := by
  have hsize := h.size
  have hlt := b.size_lt
  rw [List.length_append] at hsize
  rw [← hn, result_bytes (by unfold wordSize; omega), h.slice]

theorem Buf.Rest.readBe {n v : ℕ} (h : b.Rest p (Radix.beBytes n v ++ rest)) (hv : v < 256 ^ n) :
    (BufParser.readBe r b n).result p = some (v, p + (Radix.beBytes n v).length) := by
  have hsize := h.size
  have hlt := b.size_lt
  rw [List.length_append, Radix.length_beBytes] at hsize
  have hslice := h.slice
  rw [Radix.length_beBytes] at hslice ⊢
  rw [result_readBe (by unfold wordSize; omega), hslice, Radix.beNat_beBytes_of_lt hv]

theorem Buf.Rest.room {n : ℕ} (h : b.Rest p rest) (hn : n ≤ rest.length) : (room b n).result p = some ((), p) := by
  have hsize := h.size
  have hlt := b.size_lt
  rw [result_room (by omega) (by omega), if_pos (by omega)]

theorem Buf.Rest.advance (h : b.Rest p (xs ++ rest)) : (advance r xs.length).result p = some ((), p + xs.length) := by
  have hsize := h.size
  have hlt := b.size_lt
  rw [List.length_append] at hsize
  rw [result_advance, addW_of_lt (by unfold wordSize; omega)]

/-- A block behind its length. -/
theorem Buf.Rest.lengthField (h : b.Rest p (varintEncode xs.length ++ (xs ++ rest))) :
    (lengthField r b).result p =
      some ((p + (varintEncode xs.length).length, xs.length), p + (varintEncode xs.length).length) := by
  have hsize := h.size
  have hlt := b.size_lt
  rw [List.length_append, List.length_append] at hsize
  have hat : b.varintAt p = some (xs.length, p + (varintEncode xs.length).length) := by
    rw [length_varintEncode]
    obtain ⟨front, hb, rfl⟩ := h
    exact Buf.varintAt_of_bytes (by unfold wordSize; omega) hb
  rw [result_lengthField (by omega), hat, Option.bind_some]
  simp only
  rw [addW_of_lt (by unfold wordSize; omega), if_pos (by omega)]

end

end Bitmessage
