import Bitmessage.Common.Buffer
import Bitmessage.Lib.Cells
import Bitmessage.Lib.PrefixCode
import Bitmessage.Lib.WeakestPre

/-! The integers of the protocol at the level of single bytes: the encoder assigns the bytes of a
`uint64_t` with shifts and masks, the decoder reads bytes of a buffer and puts them together. Both
are compared with the byte strings that the parsers are stated with. -/

namespace Bitmessage.Varint

open Radix Cells Traced PrefixCode

/-- `bm_varint_size`. -/
def size (v : UInt64) : ℕ := if v < 0xfd then 1 else if v ≤ 0xffff then 3 else if v ≤ 0xffffffff then 5 else 9

/-- The assignments `out[i] = …` of `bm_varint_encode`. -/
def stores (v : UInt64) : List (ℕ × UInt8) :=
  if v < 0xfd then [(0, v.toUInt8)]
  else if v ≤ 0xffff then [(0, 0xfd), (1, ((v >>> 8) &&& 0xff).toUInt8), (2, (v &&& 0xff).toUInt8)]
  else if v ≤ 0xffffffff then
    [(0, 0xfe), (1, ((v >>> 24) &&& 0xff).toUInt8), (2, ((v >>> 16) &&& 0xff).toUInt8),
      (3, ((v >>> 8) &&& 0xff).toUInt8), (4, (v &&& 0xff).toUInt8)]
  else
    [(0, 0xff), (1, ((v >>> 56) &&& 0xff).toUInt8), (2, ((v >>> 48) &&& 0xff).toUInt8),
      (3, ((v >>> 40) &&& 0xff).toUInt8), (4, ((v >>> 32) &&& 0xff).toUInt8), (5, ((v >>> 24) &&& 0xff).toUInt8),
      (6, ((v >>> 16) &&& 0xff).toUInt8), (7, ((v >>> 8) &&& 0xff).toUInt8), (8, (v &&& 0xff).toUInt8)]

/-- `bm_varint_encode`: the memory at `out` afterwards; through a null pointer nothing is written. -/
def encode (out : Option (ℕ → UInt8)) (v : UInt64) : Option (ℕ → UInt8) := out.map fun mem => assign mem (stores v)

/-- The bytes that the encoder writes. -/
def word (v : UInt64) : Bytes := (stores v).map Prod.snd

/-- `data[i]`; the trace has the index. -/
def load (data : ℕ → UInt8) (i : ℕ) : Traced ℕ UInt64 UInt8 := do
  emit i
  pure (data i)

/-- `bm_varint_decode`. The state is `*value`, which keeps what it was when the answer is zero. -/
def decode (data : ℕ → UInt8) (dataLen : ℕ) : Traced ℕ UInt64 ℕ :=
  if dataLen < 1 then pure 0
  else do
    let first ← load data 0
    if first < 0xfd then do
      let d₀ ← load data 0
      set d₀.toUInt64
      pure 1
    else do
      let second ← load data 0
      if second = 0xfd then
        if dataLen < 3 then pure 0
        else do
          let d₁ ← load data 1
          let d₂ ← load data 2
          set (d₁.toUInt64 <<< 8 ||| d₂.toUInt64)
          pure 3
      else do
        let third ← load data 0
        if third = 0xfe then
          if dataLen < 5 then pure 0
          else do
            let d₁ ← load data 1
            let d₂ ← load data 2
            let d₃ ← load data 3
            let d₄ ← load data 4
            set (d₁.toUInt64 <<< 24 ||| d₂.toUInt64 <<< 16 ||| d₃.toUInt64 <<< 8 ||| d₄.toUInt64)
            pure 5
        else if dataLen < 9 then pure 0
        else do
          let d₁ ← load data 1
          let d₂ ← load data 2
          let d₃ ← load data 3
          let d₄ ← load data 4
          let d₅ ← load data 5
          let d₆ ← load data 6
          let d₇ ← load data 7
          let d₈ ← load data 8
          set (d₁.toUInt64 <<< 56 ||| d₂.toUInt64 <<< 48 ||| d₃.toUInt64 <<< 40 ||| d₄.toUInt64 <<< 32 |||
            d₅.toUInt64 <<< 24 ||| d₆.toUInt64 <<< 16 ||| d₇.toUInt64 <<< 8 ||| d₈.toUInt64)
          pure 9

/-! ### Shifts and masks -/

/-- One byte of a word. -/
theorem toUInt8_and_ff (v : UInt64) : (v &&& 0xff).toUInt8 = UInt8.ofNat v.toNat := by
  apply UInt8.toNat_inj.mp
  rw [UInt64.toNat_toUInt8, UInt64.toNat_and, UInt8.toNat_ofNat']
  have hmask : (0xff : UInt64).toNat = 2 ^ 8 - 1 := rfl
  rw [hmask, Nat.and_two_pow_sub_one_eq_mod, Nat.mod_mod]

theorem toNat_shift (v : UInt64) {s : UInt64} {k : ℕ} (hs : s.toNat = 8 * k) (hk : k < 8) :
    (v >>> s).toNat = v.toNat / 256 ^ k := by
  have hshift : s.toNat % 64 = 8 * k := by omega
  rw [UInt64.toNat_shiftRight, hshift, Nat.shiftRight_eq_div_pow, Nat.pow_mul]

/-- The bytes of an expression `data[1] << … | … | data[n]`, put together from left to right. -/
def orBytes (acc : UInt64) : Bytes → UInt64
  | [] => acc
  | b :: bs => orBytes (acc ||| b.toUInt64 <<< UInt64.ofNat (8 * bs.length)) bs

/-- The bytes do not overlap. -/
theorem toNat_orBytes {bs : Bytes} (hlen : bs.length ≤ 8) {acc : UInt64} (hacc : 256 ^ bs.length ∣ acc.toNat) :
    (orBytes acc bs).toNat = acc.toNat + beNat bs := by
  induction bs generalizing acc with
  | nil => rfl
  | cons b bs ih =>
    rw [List.length_cons] at hlen hacc
    obtain ⟨q, hq⟩ := hacc
    have hb := b.toNat_lt
    have hpow : (2 : ℕ) ^ (8 * bs.length) = 256 ^ bs.length := by rw [Nat.pow_mul]
    have hshift : (UInt64.ofNat (8 * bs.length)).toNat % 64 = 8 * bs.length := by
      rw [UInt64.toNat_ofNat']
      omega
    have hfit : b.toNat * 256 ^ bs.length < 256 ^ (bs.length + 1) := by
      rw [Nat.pow_succ, Nat.mul_comm]
      exact Nat.mul_lt_mul_of_pos_left hb (Nat.pow_pos (by norm_num))
    have hword : 256 ^ (bs.length + 1) ≤ 2 ^ 64 := by
      calc 256 ^ (bs.length + 1) ≤ 256 ^ 8 := Nat.pow_le_pow_right (by norm_num) hlen
        _ = 2 ^ 64 := by norm_num
    have hbyte : (b.toUInt64 <<< UInt64.ofNat (8 * bs.length)).toNat = b.toNat * 256 ^ bs.length := by
      rw [UInt64.toNat_shiftLeft, hshift, Nat.shiftLeft_eq, UInt8.toNat_toUInt64, hpow,
        Nat.mod_eq_of_lt (lt_of_lt_of_le hfit hword)]
    have hor : (acc ||| b.toUInt64 <<< UInt64.ofNat (8 * bs.length)).toNat =
        acc.toNat + b.toNat * 256 ^ bs.length := by
      have htwo : (256 : ℕ) ^ (bs.length + 1) = 2 ^ (8 * (bs.length + 1)) := by rw [Nat.pow_mul]
      rw [UInt64.toNat_or, hbyte, hq, htwo]
      exact (Nat.two_pow_add_eq_or_of_lt (htwo ▸ hfit) q).symm
    have hdvd : 256 ^ bs.length ∣ (acc ||| b.toUInt64 <<< UInt64.ofNat (8 * bs.length)).toNat := by
      rw [hor, hq, Nat.pow_succ, Nat.mul_assoc]
      exact Nat.dvd_add (Nat.dvd_mul_right _ _) (Nat.dvd_mul_left _ _)
    rw [orBytes, ih (by omega) hdvd, hor, beNat_cons, Nat.add_assoc]

/-! ### The encoder -/

section

variable {v : UInt64}

theorem lt_marker : v < 0xfd ↔ v.toNat < 0xfd := UInt64.lt_iff_toNat_lt

theorem le_two_bytes : v ≤ 0xffff ↔ v.toNat ≤ 0xffff := UInt64.le_iff_toNat_le

theorem le_four_bytes : v ≤ 0xffffffff ↔ v.toNat ≤ 0xffffffff := UInt64.le_iff_toNat_le

end

theorem size_eq (v : UInt64) : size v = varintSize v.toNat := by
  simp only [size, varintSize, lt_marker, le_two_bytes, le_four_bytes]

/-- The bytes written are the integer of the format. -/
theorem word_eq (v : UInt64) : word v = varintEncode v.toNat := by
  have hshift (s : UInt64) (k : ℕ) (hs : s.toNat = 8 * k) (hk : k < 8) := toNat_shift v hs hk
  simp only [word, stores, varintEncode, lt_marker, le_two_bytes, le_four_bytes]
  split_ifs with h₁ h₂ h₃
  · simp only [List.map_cons, List.map_nil]
    congr 1
  · simp only [List.map_cons, List.map_nil, toUInt8_and_ff, hshift 8 1 rfl (by norm_num), beBytes, Nat.pow_zero,
      Nat.div_one]
  · simp only [List.map_cons, List.map_nil, toUInt8_and_ff, hshift 24 3 rfl (by norm_num),
      hshift 16 2 rfl (by norm_num), hshift 8 1 rfl (by norm_num), beBytes, Nat.pow_zero, Nat.div_one]
  · simp only [List.map_cons, List.map_nil, toUInt8_and_ff, hshift 56 7 rfl (by norm_num),
      hshift 48 6 rfl (by norm_num), hshift 40 5 rfl (by norm_num), hshift 32 4 rfl (by norm_num),
      hshift 24 3 rfl (by norm_num), hshift 16 2 rfl (by norm_num), hshift 8 1 rfl (by norm_num), beBytes,
      Nat.pow_zero, Nat.div_one]

/-- The bytes are assigned one after the other from the first on. -/
theorem map_fst_stores (v : UInt64) : (stores v).map Prod.fst = List.range (size v) := by
  unfold stores size
  split_ifs <;> rfl

theorem length_word (v : UInt64) : (word v).length = size v := by
  rw [word_eq, length_varintEncode, size_eq]

theorem word_ne_nil (v : UInt64) : word v ≠ [] := by
  unfold word stores
  split_ifs <;> exact List.cons_ne_nil _ _

/-! ### The decoder -/

variable {data : ℕ → UInt8} {dataLen : ℕ}

/-- A buffer with a first byte. -/
theorem varintDecode_span (h : 0 < dataLen) : varintDecode (span data 0 dataLen) =
    if data 0 < 0xfd then (1, (data 0).toNat)
    else if dataLen < 1 + varintWidth (data 0) then (0, 0)
    else (1 + varintWidth (data 0), beNat (span data 1 (varintWidth (data 0)))) := by
  obtain ⟨n, rfl⟩ := Nat.exists_eq_add_of_lt h
  rw [Nat.zero_add, span_succ, varintDecode, length_span, Nat.add_comm n 1]
  simp only [Nat.add_lt_add_iff_left]
  split_ifs with h₁ h₂
  · rfl
  · rfl
  · rw [take_span _ _ (by omega)]

theorem varintTouched_span (h : 0 < dataLen) : varintTouched (span data 0 dataLen) =
    if dataLen < 1 + varintWidth (data 0) then 1 else 1 + varintWidth (data 0) := by
  obtain ⟨n, rfl⟩ := Nat.exists_eq_add_of_lt h
  rw [Nat.zero_add, span_succ, varintTouched, length_span, Nat.add_comm n 1]
  simp only [Nat.add_lt_add_iff_left]

theorem returns_load {P : ℕ → Prop} {i : ℕ} {value : UInt64} {Q : UInt8 → UInt64 → Prop} :
    Returns P (load data i) value Q ↔ P i ∧ Q (data i) value := by
  simp [load]

theorem ofNat_beNat {bs : Bytes} (hlen : bs.length ≤ 8) : UInt64.ofNat (beNat bs) = orBytes 0 bs := by
  have hor : (orBytes 0 bs).toNat = (0 : UInt64).toNat + beNat bs := toNat_orBytes hlen (Nat.dvd_zero _)
  rw [UInt64.toNat_zero, Nat.zero_add] at hor
  rw [← hor, UInt64.ofNat_toNat]

/-- The decoder looks at the marker and, when the bytes behind it are there, at these; the answer and
`*value` afterwards are those of the decoder of byte strings. -/
theorem returns_decode (data : ℕ → UInt8) (dataLen : ℕ) (value : UInt64) :
    Returns (fun i => i < varintTouched (span data 0 dataLen)) (decode data dataLen) value fun n v =>
      n = (varintDecode (span data 0 dataLen)).1 ∧
        v = if n = 0 then value else UInt64.ofNat (varintDecode (span data 0 dataLen)).2 := by
  rcases Nat.eq_zero_or_pos dataLen with rfl | hpos
  · exact returns_pure.mpr ⟨rfl, rfl⟩
  have hone : ¬ dataLen < 1 := by omega
  rw [varintTouched_span hpos, varintDecode_span hpos, decode, if_neg hone]
  by_cases h₁ : data 0 < 0xfd
  · have hw : varintWidth (data 0) = 0 := if_pos h₁
    simp [returns_load, h₁, hw, hone]
  by_cases h₂ : data 0 = 0xfd
  · have hw : varintWidth (data 0) = 2 := by rw [h₂]; rfl
    simp only [returns_bind, returns_load, if_neg h₁, if_pos h₂, hw]
    by_cases hlen : dataLen < 3
    · simp [hlen]
    · simp [hlen, returns_load, span_succ, ofNat_beNat, orBytes]
  by_cases h₃ : data 0 = 0xfe
  · have hw : varintWidth (data 0) = 4 := by rw [h₃]; rfl
    simp only [returns_bind, returns_load, if_neg h₁, if_neg h₂, if_pos h₃, hw]
    by_cases hlen : dataLen < 5
    · simp [hlen]
    · simp [hlen, returns_load, span_succ, ofNat_beNat, orBytes]
  · have hw : varintWidth (data 0) = 8 := by simp [varintWidth, h₁, h₂, h₃]
    simp only [returns_bind, returns_load, if_neg h₁, if_neg h₂, if_neg h₃, hw]
    by_cases hlen : dataLen < 9
    · simp [hlen]
    · simp [hlen, returns_load, span_succ, ofNat_beNat, orBytes]

theorem result_decode (data : ℕ → UInt8) (dataLen : ℕ) (value : UInt64) :
    (decode data dataLen).result value = some ((varintDecode (span data 0 dataLen)).1,
      if (varintDecode (span data 0 dataLen)).1 = 0 then value
      else UInt64.ofNat (varintDecode (span data 0 dataLen)).2) := by
  obtain ⟨n, v, hresult, rfl, rfl⟩ := (returns_decode data dataLen value).2
  exact hresult

/-- The answer is zero when the bytes that the marker announces are not all there, and only then. An
empty buffer has no marker and is too short for every one. -/
theorem varintDecode_eq_zero (data : ℕ → UInt8) (dataLen : ℕ) :
    (varintDecode (span data 0 dataLen)).1 = 0 ↔ dataLen < 1 + varintWidth (data 0) := by
  rcases Nat.eq_zero_or_pos dataLen with rfl | hpos
  · simp [varintDecode]
  rw [varintDecode_span hpos]
  by_cases h : data 0 < 0xfd
  · have hw : varintWidth (data 0) = 0 := if_pos h
    simp only [if_pos h, hw]
    omega
  · rw [if_neg h]
    split_ifs with hlen
    · exact iff_of_true rfl hlen
    · simp [hlen]

/-- At the cursor of a parser the decoder finds what the model of the parsers says, and it looks at no
more bytes than the parser reports. -/
theorem decode_at_cursor (b : Buf) {p : ℕ} (value : UInt64) :
    Safe (fun i => i < varintTouched (b.slice p (min (b.size - p) 9)))
        (decode (fun i => b.mem (p + i)) (b.size - p)) value ∧
      (decode (fun i => b.mem (p + i)) (b.size - p)).result value =
        some ((b.decodeAt p).1, if (b.decodeAt p).1 = 0 then value else UInt64.ofNat (b.decodeAt p).2) := by
  have hslice (n : ℕ) : span (fun i => b.mem (p + i)) 0 n = b.slice p n := by
    simp only [span, Buf.slice, Nat.zero_add]
  have hnine : b.slice p (min (b.size - p) 9) = (span (fun i => b.mem (p + i)) 0 (b.size - p)).take 9 := by
    rcases Nat.le_total (b.size - p) 9 with hle | hle
    · rw [Nat.min_eq_left hle, List.take_of_length_le (by rwa [length_span]), hslice]
    · rw [Nat.min_eq_right hle, take_span _ _ hle, hslice]
  obtain ⟨hdecode, htouched⟩ := take_nine (span (fun i => b.mem (p + i)) 0 (b.size - p))
  rw [Buf.decodeAt, hnine, hdecode, htouched]
  exact ⟨(returns_decode _ _ value).1, result_decode _ _ value⟩

/-! ### Words and their texts -/

/-- One call of the decoder on the bytes of a list: the value and the number of bytes consumed. -/
def next (data : Bytes) : Option (UInt64 × ℕ) :=
  ((decode (fun i => data.getD i 0) data.length).result 0).bind fun r => if r.1 = 0 then none else some (r.2, r.1)

/-- In memory that starts with a word the decoder finds it. -/
theorem result_decode_word (v : UInt64) {data : ℕ → UInt8} (hdata : span data 0 (size v) = word v) {dataLen : ℕ}
    (hlen : size v ≤ dataLen) (value : UInt64) : (decode data dataLen).result value = some (size v, v) := by
  obtain ⟨k, rfl⟩ := Nat.exists_eq_add_of_le hlen
  have hpos : size v ≠ 0 := by
    rw [← length_word]
    exact List.length_pos_of_ne_nil (word_ne_nil v) |>.ne'
  rw [result_decode, span_add, hdata, word_eq, varintDecode_varintEncode v.toNat_lt, ← size_eq, if_neg hpos,
    UInt64.ofNat_toNat]

theorem finds_word : Finds next word := by
  intro v rest
  have hspan : span (fun i => (word v ++ rest).getD i 0) 0 (size v) = word v := by
    have hall := span_getD (word v ++ rest) 0
    rw [List.length_append, length_word, span_add] at hall
    exact List.append_inj_left hall (by rw [length_span, length_word])
  have hlen : size v ≤ (word v ++ rest).length := by
    rw [List.length_append, length_word]
    exact Nat.le_add_right _ _
  have hpos : size v ≠ 0 := by
    rw [← length_word]
    exact List.length_pos_of_ne_nil (word_ne_nil v) |>.ne'
  rw [next, result_decode_word v hspan hlen, Option.bind_some, if_neg hpos, length_word]

/-- The encoder writes the announced number of bytes, the decoder reads them back whatever follows and
looks at no other byte than those of the buffer, and a text of integers can be cut in one way only. -/
theorem varint_codec :
    (∀ (v : UInt64) (out : ℕ → UInt8), (stores v).map Prod.fst = List.range (size v) ∧
      ∃ mem, encode (some out) v = some mem ∧ span mem 0 (size v) = word v ∧ (∀ i, size v ≤ i → mem i = out i) ∧
        ∀ dataLen value, size v ≤ dataLen → (decode mem dataLen).result value = some (size v, v)) ∧
    (∀ (data : ℕ → UInt8) (dataLen : ℕ) (value : UInt64),
      (∀ i ∈ (decode data dataLen).trace value, i < dataLen) ∧
        ∃ n v, (decode data dataLen).result value = some (n, v) ∧ (n = 0 ↔ dataLen < 1 + varintWidth (data 0))) ∧
    PrefixFree word ∧ Function.Injective (concat word) ∧
    ∀ vs ts, Lexing.Lexes next (concat word vs) ts [] ↔ ts = vs.map fun v => (v, word v) := by
  refine ⟨?_, ?_, finds_word.prefixFree, finds_word.prefixFree.concat_injective word_ne_nil, ?_⟩
  · intro v out
    have hmem : span (assign out (stores v)) 0 (size v) = word v := span_assign (map_fst_stores v)
    refine ⟨map_fst_stores v, _, rfl, hmem, ?_, fun dataLen value hlen => result_decode_word v hmem hlen value⟩
    intro i hi
    apply assign_of_notMem
    rw [map_fst_stores, List.mem_range]
    omega
  · intro data dataLen value
    refine ⟨?_, _, _, result_decode data dataLen value, varintDecode_eq_zero data dataLen⟩
    intro i hi
    have htouched := varintTouched_le (span data 0 dataLen)
    have hlt := (returns_decode data dataLen value).1 i hi
    rw [length_span] at htouched
    omega
  · intro vs ts
    constructor
    · exact finds_word.lexes_unique rfl
    · rintro rfl
      have hcut := finds_word.lexes vs []
      rwa [List.append_nil] at hcut

end Bitmessage.Varint
