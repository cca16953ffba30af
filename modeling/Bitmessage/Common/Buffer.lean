import Bitmessage.Lib.Traced
import Bitmessage.Common.Varint

/-! Reading C buffers with a cursor. A buffer is a start address with the memory
behind it and a size; reading past the size finds some byte, so the model goes on
where the program would, and only the trace tells that the access was out of bounds.
The parsers log what they touch, which slices they accept and where their cursor
stands. All cursor arithmetic is that of `size_t`. -/

namespace Bitmessage

open Traced

/-- A buffer of `size` bytes. No object in memory is larger than `PTRDIFF_MAX`. -/
structure Buf where
  mem : ℕ → UInt8
  size : ℕ
  size_lt : size < 2 ^ 63

/-- The bytes `[off, off + len)`. -/
def Buf.slice (b : Buf) (off len : ℕ) : Bytes := (List.range len).map fun i => b.mem (off + i)

/-- The contents. -/
def Buf.bytes (b : Buf) : Bytes := b.slice 0 b.size

/-- A buffer that holds the given bytes. -/
def Buf.ofBytes (bs : Bytes) (h : bs.length < 2 ^ 63) : Buf := ⟨fun i => bs.getD i 0, bs.length, h⟩

@[simp] theorem Buf.length_slice (b : Buf) (off len : ℕ) : (b.slice off len).length = len := by
  simp [Buf.slice]

/-- Which of the buffers of a parser an access concerns. -/
inductive Region where
  | object
  | body
  deriving DecidableEq

/-- What a parser does to memory. -/
inductive Access where
  /-- the bytes `[off, off + len)` are read -/
  | read (r : Region) (off len : ℕ)
  /-- the slice `[off, off + len)` has passed its bounds check -/
  | slice (r : Region) (off len : ℕ)
  /-- the cursor is moved -/
  | cursor (r : Region) (p : ℕ)
  /-- the difference of the size and the offset is formed -/
  | remaining (r : Region) (off : ℕ)
  /-- the bytes `[off, off + len)` of an array of `cap` bytes are written -/
  | write (cap off len : ℕ)

/-- The access stays inside its buffer, in unbounded arithmetic. -/
def Access.InBounds (size : Region → ℕ) : Access → Prop
  | .read r off len | .slice r off len => off + len ≤ size r
  | .cursor r p | .remaining r p => p ≤ size r
  | .write cap off len => off + len ≤ cap

instance (size : Region → ℕ) (a : Access) : Decidable (a.InBounds size) := by
  cases a <;> exact inferInstanceAs (Decidable (_ ≤ _))

/-- The sizes of the object and of the plaintext it was decrypted to, if it was. -/
def sizes (object : Buf) (body : Option Buf) : Region → ℕ
  | .object => object.size
  | .body => body.elim 0 Buf.size

/-- A parser with a cursor. -/
abbrev BufParser := Traced Access ℕ

namespace BufParser

variable (r : Region) (b : Buf)

/-- `p += n`. -/
def advance (n : ℕ) : BufParser Unit := do
  let p ← get
  set (addW p n)
  emit (.cursor r (addW p n))

/-- `bm_varint_decode(buf + p, size - p, &v)`: no more than nine bytes are looked at. -/
def varintDecodeAt : BufParser (ℕ × ℕ) := do
  let p ← get
  emit (.remaining r p)
  let data := b.slice p (min (subW b.size p) 9)
  emit (.read r p (varintTouched data))
  pure (varintDecode data)

/-- Decode an integer, give up if it is cut off, and move behind it. -/
def varint : BufParser ℕ := do
  let (consumed, v) ← varintDecodeAt r b
  require (consumed ≠ 0)
  advance r consumed
  pure v

/-- Copy `n` bytes and move behind them. -/
def bytes (n : ℕ) : BufParser Bytes := do
  let p ← get
  emit (.read r p n)
  advance r n
  pure (b.slice p n)

/-- `read_be32`, `read_be64` and `ntohs` at the cursor. -/
def readBe (width : ℕ) : BufParser ℕ := do
  let bs ← bytes r b width
  pure (Radix.beNat bs)

/-- `if (p + n > size) goto fail;` -/
def room (n : ℕ) : BufParser Unit := do
  let p ← get
  require (addW p n ≤ b.size)

/-- Decode a length, check that as many bytes follow, and move to the first of them:
`if (consumed == 0 || p + consumed + len > size) goto fail; p += consumed;`. The answer is the
slice that has passed the check. -/
def lengthField : BufParser (ℕ × ℕ) := do
  let p ← get
  let (consumed, len) ← varintDecodeAt r b
  require (consumed ≠ 0 ∧ addW (addW p consumed) len ≤ b.size)
  advance r consumed
  let off ← get
  emit (.slice r off len)
  pure (off, len)

end BufParser

theorem BufParser.total_advance (r : Region) (n : ℕ) : Total (BufParser.advance r n) :=
  total_get.bind fun _ => (total_set _).bind fun _ => total_emit _

theorem BufParser.total_varintDecodeAt (r : Region) (b : Buf) : Total (BufParser.varintDecodeAt r b) :=
  total_get.bind fun _ => (total_emit _).bind fun _ => (total_emit _).bind fun _ => total_pure _

theorem BufParser.total_bytes (r : Region) (b : Buf) (n : ℕ) : Total (BufParser.bytes r b n) :=
  total_get.bind fun _ => (total_emit _).bind fun _ => (BufParser.total_advance r n).bind fun _ => total_pure _

theorem BufParser.total_readBe (r : Region) (b : Buf) (n : ℕ) : Total (BufParser.readBe r b n) :=
  (BufParser.total_bytes r b n).bind fun _ => total_pure _

/-! ### The same without wrap-around -/

/-- What the decoder finds at offset `p`. -/
def Buf.decodeAt (b : Buf) (p : ℕ) : ℕ × ℕ := varintDecode (b.slice p (min (b.size - p) 9))

/-- The integer at offset `p` and the offset behind it. -/
def Buf.varintAt (b : Buf) (p : ℕ) : Option (ℕ × ℕ) :=
  if (b.decodeAt p).1 = 0 then none else some ((b.decodeAt p).2, p + (b.decodeAt p).1)

theorem Buf.decodeAt_le {b : Buf} {p : ℕ} (hp : p ≤ b.size) : p + (b.decodeAt p).1 ≤ b.size := by
  have := varintDecode_le (b.slice p (min (b.size - p) 9))
  rw [Buf.length_slice] at this
  unfold Buf.decodeAt
  omega

theorem Buf.varintAt_eq_some {b : Buf} {p v q : ℕ} (h : b.varintAt p = some (v, q)) (hp : p ≤ b.size) :
    p < q ∧ q ≤ b.size ∧ v < wordSize := by
  have hle := Buf.decodeAt_le hp
  unfold Buf.varintAt at h
  split at h
  · cases h
  · next h0 =>
    cases h
    exact ⟨by omega, hle, varintDecode_lt _⟩

/-- A field of a layout: an integer, a block of bytes, a block with known contents, or a block
with a length in front of it. -/
inductive Field where
  | varint
  | block (n : ℕ)
  | expect (bs : Bytes)
  | sized

/-- Every length field met on the walk through the layout, without wrap-around, announces an end
below `2 ^ 64`. The walk ends where a field does not fit. -/
def LengthsFit (b : Buf) : List Field → ℕ → Prop
  | [], _ => True
  | .varint :: fs, p => ∀ v q, b.varintAt p = some (v, q) → LengthsFit b fs q
  | .block n :: fs, p => p + n ≤ b.size → LengthsFit b fs (p + n)
  | .expect bs :: fs, p => p + bs.length ≤ b.size → b.slice p bs.length = bs → LengthsFit b fs (p + bs.length)
  | .sized :: fs, p => ∀ len q, b.varintAt p = some (len, q) →
      q + len < wordSize ∧ (q + len ≤ b.size → LengthsFit b fs (q + len))

/-! ### The operations of a parser whose cursor is inside the buffer -/

namespace BufParser

variable {size : Region → ℕ} {r : Region} {b : Buf} {p : ℕ} {β : Type}

theorem addW_inside (hp : p ≤ b.size) {n : ℕ} (hn : n < 2 ^ 63) : addW p n = p + n := by
  have := b.size_lt
  exact addW_of_lt (by unfold wordSize; omega)

theorem addW_decodeAt (hp : p ≤ b.size) : addW p (b.decodeAt p).1 = p + (b.decodeAt p).1 :=
  addW_inside hp (lt_of_le_of_lt (varintDecode_length_le_nine _) (by norm_num))

theorem result_advance (n : ℕ) : (advance r n).result p = some ((), addW p n) := by
  simp [advance, result_bind]

theorem safe_advance_bind {n : ℕ} {f : Unit → BufParser β} :
    Safe (Access.InBounds size) (advance r n >>= f) p ↔
      addW p n ≤ size r ∧ Safe (Access.InBounds size) (f ()) (addW p n) := by
  rw [safe_bind_of_result (result_advance n)]
  simp only [advance, safe_get_bind, safe_set_bind, safe_emit, Access.InBounds]

theorem result_varintDecodeAt (hp : p ≤ b.size) : (varintDecodeAt r b).result p = some (b.decodeAt p, p) := by
  have hs : subW b.size p = b.size - p := subW_of_le (lt_trans b.size_lt (by norm_num)) hp
  simp [varintDecodeAt, result_bind, hs, Buf.decodeAt]

theorem safe_varintDecodeAt_bind (hb : b.size = size r) (hp : p ≤ b.size) {f : ℕ × ℕ → BufParser β} :
    Safe (Access.InBounds size) (varintDecodeAt r b >>= f) p ↔ Safe (Access.InBounds size) (f (b.decodeAt p)) p := by
  have ht := varintTouched_le (b.slice p (min (b.size - p) 9))
  have hs : subW b.size p = b.size - p := subW_of_le (lt_trans b.size_lt (by norm_num)) hp
  rw [Buf.length_slice] at ht
  rw [safe_bind_of_result (result_varintDecodeAt hp)]
  refine and_iff_right ?_
  simp only [varintDecodeAt, safe_get_bind, safe_emit_bind, Access.InBounds, safe_pure, and_true, hs]
  omega

/-- Decoding an integer inside the buffer. -/
theorem result_varint (hp : p ≤ b.size) : (varint r b).result p = b.varintAt p := by
  unfold varint Buf.varintAt
  rw [result_bind, result_varintDecodeAt hp, Option.bind_some, result_bind]
  by_cases h : (b.decodeAt p).1 = 0
  · simp [h]
  · simp [h, result_bind, result_advance, addW_decodeAt hp]

theorem safe_varint_bind (hb : b.size = size r) (hp : p ≤ b.size) {f : ℕ → BufParser β} :
    Safe (Access.InBounds size) (varint r b >>= f) p ↔
      ∀ v q, b.varintAt p = some (v, q) → Safe (Access.InBounds size) (f v) q := by
  have hle := Buf.decodeAt_le hp
  have hsafe : Safe (Access.InBounds size) (varint r b) p := by
    unfold varint
    rw [safe_varintDecodeAt_bind hb hp]
    simp only [safe_require_bind, safe_advance_bind, safe_pure, addW_decodeAt hp]
    exact fun _ => ⟨hb ▸ hle, trivial⟩
  rw [safe_bind, result_varint hp]
  exact and_iff_right hsafe

theorem result_room (hp : p ≤ b.size) {n : ℕ} (hn : n < 2 ^ 63) :
    (room b n).result p = if p + n ≤ b.size then some ((), p) else none := by
  simp [room, result_bind, addW_inside hp hn]

theorem safe_room_bind (hp : p ≤ b.size) {n : ℕ} (hn : n < 2 ^ 63) {f : Unit → BufParser β} :
    Safe (Access.InBounds size) (room b n >>= f) p ↔ (p + n ≤ b.size → Safe (Access.InBounds size) (f ()) p) := by
  rw [safe_bind, result_room hp hn]
  simp only [room, safe_get_bind, safe_require, true_and]
  split_ifs with h
  · simp [h, Unique.forall_iff]
  · simp [h]

theorem result_bytes {n : ℕ} (hn : p + n < wordSize) :
    (bytes r b n).result p = some (b.slice p n, p + n) := by
  simp [bytes, result_bind, result_advance, addW_of_lt hn]

/-- Copying bytes is safe when they are there. -/
theorem safe_bytes_bind {n : ℕ} (hn : p + n < wordSize) {f : Bytes → BufParser β} :
    Safe (Access.InBounds size) (bytes r b n >>= f) p ↔
      p + n ≤ size r ∧ Safe (Access.InBounds size) (f (b.slice p n)) (p + n) := by
  rw [safe_bind_of_result (result_bytes hn)]
  simp [bytes, safe_get_bind, safe_emit_bind, Access.InBounds, safe_advance_bind, addW_of_lt hn]

theorem result_readBe {n : ℕ} (hn : p + n < wordSize) :
    (readBe r b n).result p = some (Radix.beNat (b.slice p n), p + n) := by
  simp [readBe, result_bind, result_bytes hn]

theorem safe_readBe_bind {n : ℕ} (hn : p + n < wordSize) {f : ℕ → BufParser β} :
    Safe (Access.InBounds size) (readBe r b n >>= f) p ↔
      p + n ≤ size r ∧ Safe (Access.InBounds size) (f (Radix.beNat (b.slice p n))) (p + n) := by
  rw [safe_bind_of_result (result_readBe hn), readBe, safe_bytes_bind hn]
  simp

theorem result_lengthField (hp : p ≤ b.size) : (lengthField r b).result p =
    (b.varintAt p).bind fun d => if addW d.2 d.1 ≤ b.size then some ((d.2, d.1), d.2) else none := by
  unfold lengthField Buf.varintAt
  rw [result_bind, result_get, Option.bind_some, result_bind, result_varintDecodeAt hp, Option.bind_some]
  by_cases h : (b.decodeAt p).1 = 0
  · simp [h, result_bind]
  · simp only [result_bind, result_require, h, ne_eq, not_false_eq_true, true_and, addW_decodeAt hp, if_false,
      Option.bind_some]
    split_ifs <;> simp [result_advance, addW_decodeAt hp]

theorem safe_lengthField (hb : b.size = size r) (hp : p ≤ b.size) :
    Safe (Access.InBounds size) (lengthField r b) p ↔
      ∀ len q, b.varintAt p = some (len, q) → addW q len ≤ b.size → q + len ≤ b.size := by
  have hle := Buf.decodeAt_le hp
  unfold lengthField Buf.varintAt
  rw [safe_get_bind, safe_varintDecodeAt_bind hb hp]
  simp only [safe_require_bind, safe_advance_bind, safe_get_bind, safe_emit_bind, Access.InBounds,
    safe_pure, and_true, addW_decodeAt hp, ← hb, hle, true_and]
  by_cases h : (b.decodeAt p).1 = 0
  · simp [h]
  · simp [h]

/-- A length field is the one place where the sum may wrap: then the slice passes the check
although it ends outside. Otherwise what follows sees the slice that was announced. -/
theorem safe_lengthField_bind (hb : b.size = size r) (hp : p ≤ b.size) {f : ℕ × ℕ → BufParser β} :
    Safe (Access.InBounds size) (lengthField r b >>= f) p ↔
      ∀ len q, b.varintAt p = some (len, q) →
        q + len < wordSize ∧ (q + len ≤ b.size → Safe (Access.InBounds size) (f (q, len)) q) := by
  have hw := b.size_lt
  rw [safe_bind, safe_lengthField hb hp, result_lengthField hp]
  rcases hd : b.varintAt p with _ | ⟨len, q⟩
  · simp
  · obtain ⟨-, hq, hlen⟩ := Buf.varintAt_eq_some hd hp
    simp only [Option.some.injEq, Prod.mk.injEq, and_imp, Option.bind_some]
    by_cases hwrap : q + len < wordSize
    · have ha : addW q len = q + len := addW_of_lt hwrap
      by_cases hin : q + len ≤ b.size <;> simp [hwrap, ha, hin]
    · -- the wrapped sum lies before `q`, so the check passes
      have hpass : addW q len ≤ b.size := by unfold addW wordSize at *; omega
      have hout : ¬ q + len ≤ b.size := by unfold wordSize at *; omega
      simp [hwrap, hpass, hout]

/-- A sized field: the length, the check, and the move behind the bytes. -/
theorem safe_sized_bind (hb : b.size = size r) (hp : p ≤ b.size) {f : ℕ × ℕ → BufParser β} :
    Safe (Access.InBounds size) (lengthField r b >>= fun s => advance r s.2 >>= fun _ => f s) p ↔
      ∀ len q, b.varintAt p = some (len, q) →
        q + len < wordSize ∧ (q + len ≤ b.size → Safe (Access.InBounds size) (f (q, len)) (q + len)) := by
  rw [safe_lengthField_bind hb hp]
  refine forall₃_congr fun len q _ => and_congr_right fun hlt => imp_congr_right fun hin => ?_
  rw [safe_advance_bind, addW_of_lt hlt, and_iff_right (hb ▸ hin)]

end BufParser

/-! ### Walking through a layout -/

section

variable {b : Buf} {fs : List Field} {p : ℕ}

theorem lengthsFit_varint : LengthsFit b (.varint :: fs) p ↔
    ∀ v q, b.varintAt p = some (v, q) → LengthsFit b fs q := Iff.rfl

theorem lengthsFit_block {n : ℕ} : LengthsFit b (.block n :: fs) p ↔
    (p + n ≤ b.size → LengthsFit b fs (p + n)) := Iff.rfl

theorem lengthsFit_expect {bs : Bytes} : LengthsFit b (.expect bs :: fs) p ↔
    (p + bs.length ≤ b.size → b.slice p bs.length = bs → LengthsFit b fs (p + bs.length)) := Iff.rfl

theorem lengthsFit_sized : LengthsFit b (.sized :: fs) p ↔
    ∀ len q, b.varintAt p = some (len, q) →
      q + len < wordSize ∧ (q + len ≤ b.size → LengthsFit b fs (q + len)) := Iff.rfl

end

/-! ### Buffers with known contents -/

theorem Buf.length_bytes (b : Buf) : b.bytes.length = b.size := by simp [Buf.bytes]

theorem Buf.bytes_ofBytes (bs : Bytes) (h : bs.length < 2 ^ 63) : (Buf.ofBytes bs h).bytes = bs := by
  apply List.ext_getElem
  · simp [Buf.bytes, Buf.ofBytes]
  · intro i h₁ h₂
    simp [Buf.bytes, Buf.ofBytes, Buf.slice, h₂]

theorem Buf.slice_eq (b : Buf) {off len : ℕ} (h : off + len ≤ b.size) :
    b.slice off len = (b.bytes.drop off).take len := by
  apply List.ext_getElem
  · simp [Buf.bytes]
    omega
  · intro i h₁ h₂
    simp [Buf.bytes, Buf.slice]

/-- Reads inside the buffer depend on its contents only. -/
theorem Buf.slice_congr {b b' : Buf} (h : b.bytes = b'.bytes) {off len : ℕ} (hle : off + len ≤ b.size) :
    b.slice off len = b'.slice off len := by
  have hsize : b.size = b'.size := by rw [← b.length_bytes, h, b'.length_bytes]
  rw [b.slice_eq hle, b'.slice_eq (hsize ▸ hle), h]

theorem Buf.size_congr {b b' : Buf} (h : b.bytes = b'.bytes) : b.size = b'.size := by
  rw [← b.length_bytes, h, b'.length_bytes]

theorem Buf.varintAt_congr {b b' : Buf} (h : b.bytes = b'.bytes) {p : ℕ} (hp : p ≤ b.size) :
    b.varintAt p = b'.varintAt p := by
  have hdecode : b.decodeAt p = b'.decodeAt p := by
    rw [Buf.decodeAt, Buf.decodeAt, ← Buf.size_congr h, Buf.slice_congr h (by omega)]
  rw [Buf.varintAt, Buf.varintAt, hdecode]

/-- A part of the contents in its place. -/
theorem Buf.slice_of_bytes {b : Buf} (xs ys zs : Bytes) (h : b.bytes = xs ++ (ys ++ zs)) :
    b.slice xs.length ys.length = ys := by
  have hlen : b.size = xs.length + (ys.length + zs.length) := by rw [← b.length_bytes, h]; simp
  rw [b.slice_eq (by omega), h, List.drop_left, List.take_left]

/-- An encoded integer in its place. -/
theorem Buf.varintAt_of_bytes {b : Buf} {xs zs : Bytes} {v : ℕ} (hv : v < wordSize)
    (h : b.bytes = xs ++ (varintEncode v ++ zs)) :
    b.varintAt xs.length = some (v, xs.length + varintSize v) := by
  have hlen : b.size = xs.length + (varintSize v + zs.length) := by
    rw [← b.length_bytes, h]
    simp [length_varintEncode]
  have h9 := varintSize_le v
  have hpos : varintSize v ≠ 0 := by
    unfold varintSize
    split_ifs <;> simp
  have hslice : b.slice xs.length (min (b.size - xs.length) 9) = varintEncode v ++ zs.take (9 - varintSize v) := by
    rw [b.slice_eq (by omega), h, List.drop_left, List.take_append, length_varintEncode,
      List.take_of_length_le (by rw [length_varintEncode]; omega)]
    congr 1
    rcases Nat.le_total (b.size - xs.length) 9 with hle | hle
    · rw [Nat.min_eq_left hle, List.take_of_length_le (by omega), List.take_of_length_le (by omega)]
    · rw [Nat.min_eq_right hle]
  have hdecode : b.decodeAt xs.length = (varintSize v, v) := by
    rw [Buf.decodeAt, hslice, varintDecode_varintEncode hv]
  rw [Buf.varintAt, hdecode]
  simp [hpos]

end Bitmessage
