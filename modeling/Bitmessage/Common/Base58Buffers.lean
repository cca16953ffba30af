import Bitmessage.Common.Base58
import Bitmessage.Common.Buffer
import Bitmessage.Common.CText
import Bitmessage.Lib.Cells
import Bitmessage.Lib.WeakestPre

/-! The base 58 encoder as it works on its buffers: a copy of the bytes that is divided in place, and a
scratch buffer of twice the length that is filled from its end. A division may drop the first byte, but
not before the byte is zero; two divisions are enough for that, which bounds the number of digits. The
decoder multiplies and adds in a big integer and has nothing in common with the encoder but the alphabet. -/

namespace Bitmessage.Base58

open Radix Cells Traced

/-- The buffers and the variables of `bm_base58_encode`. -/
structure Encoder where
  work : ℕ → UInt8
  temp : ℕ → UInt8
  zeroCount : ℕ
  j : ℕ
  startAt : ℕ

/-- An access to the bytes `[off, off + len)` of a buffer. -/
inductive Touch where
  | work (off len : ℕ)
  | temp (off len : ℕ)

/-- The access stays in the buffer. -/
def Touch.Inside (length : ℕ) : Touch → Prop
  | .work off len => off + len ≤ length
  | .temp off len => off + len ≤ 2 * length

/-- `work[i]`. -/
def loadWork (i : ℕ) : Traced Touch Encoder UInt8 := do
  emit (.work i 1)
  let s ← get
  pure (s.work i)

/-- `work[i] = b`. -/
def storeWork (i : ℕ) (b : UInt8) : Traced Touch Encoder Unit := do
  emit (.work i 1)
  modify fun s => { s with work := Function.update s.work i b }

/-- `temp[i]`. -/
def loadTemp (i : ℕ) : Traced Touch Encoder UInt8 := do
  emit (.temp i 1)
  let s ← get
  pure (s.temp i)

/-- `temp[--j] = c`. -/
def pushTemp (c : UInt8) : Traced Touch Encoder Unit := do
  modify fun s => { s with j := subW s.j 1 }
  let s ← get
  emit (.temp s.j 1)
  modify fun s => { s with temp := Function.update s.temp s.j c }

/-- The loop of `divmod58` over the indices that are left. -/
def divmod58Loop : List ℕ → ℕ → Traced Touch Encoder ℕ
  | [], remainder => pure remainder
  | i :: is, remainder => do
    let digit256 ← loadWork i
    let temp := remainder * 256 + digit256.toNat
    storeWork i (UInt8.ofNat (temp / 58))
    divmod58Loop is (temp % 58)

/-- `divmod58`. -/
def divmod58 (length startAt : ℕ) : Traced Touch Encoder ℕ :=
  divmod58Loop (List.range' startAt (length - startAt)) 0

/-- `zero_count < length && work[zero_count] == 0`. -/
def atLeadingZero (length : ℕ) : Traced Touch Encoder Bool := do
  let s ← get
  if s.zeroCount < length then do
    let b ← loadWork s.zeroCount
    pure (b == 0)
  else pure false

/-- `start_at < length`. -/
def bytesLeft (length : ℕ) : Traced Touch Encoder Bool := do
  let s ← get
  pure (decide (s.startAt < length))

/-- The body of the divide loop. -/
def divideRound (length : ℕ) : Traced Touch Encoder Unit := do
  let s ← get
  let mod ← divmod58 length s.startAt
  let first ← loadWork s.startAt
  modify fun s => if first = 0 then { s with startAt := addW s.startAt 1 } else s
  pushTemp (base58Alphabet.getD mod 0)

/-- `j < temp_len && temp[j] == ALPHABET[0]`. -/
def atZeroDigit (tempLen : ℕ) : Traced Touch Encoder Bool := do
  let s ← get
  if s.j < tempLen then do
    let c ← loadTemp s.j
    pure (c == base58Alphabet.getD 0 0)
  else pure false

/-- `zero_count--`. -/
def zerosLeft : Traced Touch Encoder Bool := do
  let s ← get
  modify fun s => { s with zeroCount := subW s.zeroCount 1 }
  pure (s.zeroCount != 0)

/-- `bm_base58_encode`, when its allocations succeed. The answer is the block that is returned, with its
NUL. Each loop has the same fuel. -/
def encode (fuel : ℕ) : Option Buf → Traced Touch Encoder (Option Bytes)
  | none => pure none
  | some input =>
    if input.size = 0 then pure none
    else do
      let length := input.size
      emit (.work 0 length)
      modify fun s => { s with work := input.mem, zeroCount := 0 }
      loop (atLeadingZero length) (modify fun s => { s with zeroCount := addW s.zeroCount 1 }) fuel
      let tempLen := mulW length 2
      emit (.temp 0 tempLen)
      modify fun s => { s with temp := fun _ => 0, j := tempLen, startAt := s.zeroCount }
      loop (bytesLeft length) (divideRound length) fuel
      loop (atZeroDigit tempLen) (modify fun s => { s with j := addW s.j 1 }) fuel
      loop zerosLeft (pushTemp (base58Alphabet.getD 0 0)) fuel
      let s ← get
      let outputLen := subW tempLen s.j
      emit (.temp s.j outputLen)
      pure (some (span s.temp s.j outputLen ++ [0]))

/-- The loop of `bm_base58_decode` over the characters, with the value so far. -/
def decodeLoop : ℕ → Bytes → Option ℕ
  | value, [] => some value
  | value, c :: rest =>
    match base58Alphabet.idxOf? c with
    | none => none
    | some digit => decodeLoop (value * 58 + digit) rest

/-- `bm_base58_decode` on the string at the start of a block. -/
def decode : Option Bytes → Option Bytes
  | none => none
  | some block =>
    if cString block = [] then none
    else (decodeLoop 0 (cString block)).map fun value => (digits 256 value).map UInt8.ofNat

/-! ### One rule for each access -/

section

variable {P : Touch → Prop} {s : Encoder} {i : ℕ}

theorem returns_loadWork {Q : UInt8 → Encoder → Prop} :
    Returns P (loadWork i) s Q ↔ P (.work i 1) ∧ Q (s.work i) s := by
  simp [loadWork]

theorem returns_storeWork {b : UInt8} {Q : Unit → Encoder → Prop} : Returns P (storeWork i b) s Q ↔
    P (.work i 1) ∧ Q () { s with work := Function.update s.work i b } := by
  simp [storeWork]

theorem returns_loadTemp {Q : UInt8 → Encoder → Prop} :
    Returns P (loadTemp i) s Q ↔ P (.temp i 1) ∧ Q (s.temp i) s := by
  simp [loadTemp]

theorem returns_pushTemp {c : UInt8} {Q : Unit → Encoder → Prop} : Returns P (pushTemp c) s Q ↔
    P (.temp (subW s.j 1) 1) ∧
      Q () { s with j := subW s.j 1, temp := Function.update s.temp (subW s.j 1) c } := by
  simp [pushTemp]

end

/-! ### The division -/

section

variable {length : ℕ}

/-- The bytes from `k` on are divided, and nothing else changes. -/
theorem returns_divmod58Loop {k n : ℕ} (h : k + n ≤ length) (remainder : ℕ) (s : Encoder) :
    Returns (Touch.Inside length) (divmod58Loop (List.range' k n) remainder) s fun mod t =>
      mod = (Bitmessage.divmod58 remainder (span s.work k n)).2 ∧
        span t.work k n = (Bitmessage.divmod58 remainder (span s.work k n)).1 ∧
        (∀ i < k, t.work i = s.work i) ∧ t = { s with work := t.work } := by
  induction n generalizing k remainder s with
  | zero =>
    rw [List.range'_zero, divmod58Loop, returns_pure]
    exact ⟨rfl, rfl, fun _ _ => rfl, rfl⟩
  | succ n ih =>
    have hinside : Touch.Inside length (.work k 1) := by
      show k + 1 ≤ length
      omega
    rw [List.range'_succ, divmod58Loop]
    simp only [returns_bind, returns_loadWork, returns_storeWork]
    refine ⟨hinside, hinside, ?_⟩
    set q := UInt8.ofNat ((remainder * 256 + (s.work k).toNat) / 58)
    set s' : Encoder := { s with work := Function.update s.work k q }
    have hrest : span s'.work (k + 1) n = span s.work (k + 1) n := span_update (.inl (Nat.lt_succ_self k)) q
    refine (ih (by omega) ((remainder * 256 + (s.work k).toNat) % 58) s').mono fun mod t ht => ?_
    obtain ⟨hmod, hspan, hkept, hframe⟩ := ht
    rw [hrest] at hmod hspan
    have hk : t.work k = q := (hkept k (Nat.lt_succ_self k)).trans (Function.update_self k q s.work)
    rw [span_succ, span_succ, Bitmessage.divmod58, hk, hspan]
    refine ⟨hmod, rfl, fun i hi => ?_, ?_⟩
    · exact (hkept i (by omega)).trans (Function.update_of_ne (by omega) q s.work)
    · rw [hframe]

end

/-! ### The digits -/

/-- The character of a digit. -/
abbrev digitChar (d : ℕ) : UInt8 := base58Alphabet.getD d 0

/-- The scratch buffer holds these digits at its end, with room for the leading zeros in front. -/
structure Written (bs : Bytes) (zeros : ℕ) (s : Encoder) (ds : List ℕ) : Prop where
  zeroCount : s.zeroCount = zeros
  digits_lt : ∀ d ∈ ds, d < 58
  cursor : s.j + ds.length = 2 * bs.length
  length_le : ds.length ≤ 2 * (bs.length - zeros)
  written : span s.temp s.j ds.length = ds.map digitChar

/-- The bytes that are still to be divided. -/
def Encoder.rest (s : Encoder) (length : ℕ) : Bytes := span s.work s.startAt (length - s.startAt)

/-- Value of the digits and value of the rest together are the number, and the digits still to come have
their places. -/
structure Divided (bs : Bytes) (zeros : ℕ) (s : Encoder) (ds : List ℕ) : Prop extends Written bs zeros s ds where
  startAt_le : s.startAt ≤ bs.length
  room : ds.length + base58Fuel (s.rest bs.length) ≤ 2 * (bs.length - zeros)
  value_eq : beNat (s.rest bs.length) * 58 ^ ds.length + value 58 ds = beNat bs

section

variable {bs : Bytes} {zeros : ℕ} {s : Encoder} {ds : List ℕ}

/-- One more character in front. -/
theorem Written.push (h : Written bs zeros s ds) {d : ℕ} (hd : d < 58)
    (hlength : ds.length + 1 ≤ 2 * (bs.length - zeros)) (hbs : bs.length < 2 ^ 63) :
    Touch.Inside bs.length (.temp (subW s.j 1) 1) ∧
      Written bs zeros { s with j := subW s.j 1, temp := Function.update s.temp (subW s.j 1) (digitChar d) }
        (d :: ds) := by
  have hcursor := h.cursor
  have hj : subW s.j 1 = s.j - 1 := subW_one_of_pos (by unfold wordSize; omega) (by omega)
  rw [hj]
  refine ⟨?_, ?_⟩
  · show s.j - 1 + 1 ≤ 2 * bs.length
    omega
  · refine ⟨h.zeroCount, ?_, ?_, hlength, ?_⟩
    · intro x hx
      rcases List.mem_cons.mp hx with rfl | hx
      · exact hd
      · exact h.digits_lt x hx
    · show s.j - 1 + (ds.length + 1) = 2 * bs.length
      omega
    · have hnext : s.j - 1 + 1 = s.j := by omega
      show span (Function.update s.temp (s.j - 1) (digitChar d)) (s.j - 1) (ds.length + 1) = _
      rw [span_update_head, hnext, h.written, List.map_cons]

/-- Behind a division the first byte is dropped if it has become zero. -/
def dropFirst (s : Encoder) (first : UInt8) : Encoder :=
  if first = 0 then { s with startAt := addW s.startAt 1 } else s

theorem rest_dropFirst {length : ℕ} {q : Bytes} (hq : s.rest length = q) (hlt : s.startAt < length)
    (hlength : length < 2 ^ 63) :
    (dropFirst s (s.work s.startAt)).rest length = (if q.head? = some 0 then q.tail else q) ∧
      (dropFirst s (s.work s.startAt)).startAt ≤ length := by
  obtain ⟨n, hn⟩ := Nat.exists_eq_add_of_lt hlt
  have hn : length - s.startAt = n + 1 := by omega
  have hcons : q = s.work s.startAt :: span s.work (s.startAt + 1) n := by
    rw [← hq, Encoder.rest, hn, span_succ]
  rw [dropFirst, hcons, List.head?_cons, List.tail_cons]
  simp only [Option.some.injEq]
  split_ifs with hzero
  · have hadd : addW s.startAt 1 = s.startAt + 1 := addW_of_lt (by unfold wordSize; omega)
    have hleft : length - (s.startAt + 1) = n := by omega
    rw [hadd]
    exact ⟨by rw [Encoder.rest, hleft], hlt⟩
  · exact ⟨hq.trans hcons, hlt.le⟩

theorem Written.dropFirst (h : Written bs zeros s ds) (first : UInt8) :
    Written bs zeros (dropFirst s first) ds := by
  unfold Base58.dropFirst
  split_ifs
  · exact ⟨h.zeroCount, h.digits_lt, h.cursor, h.length_le, h.written⟩
  · exact h

/-- The body of the divide loop. -/
theorem Divided.round (h : Divided bs zeros s ds) (hlt : s.startAt < bs.length) (hbs : bs.length < 2 ^ 63) :
    Returns (Touch.Inside bs.length) (divideRound bs.length) s fun _ t =>
      ∃ d, Divided bs zeros t (d :: ds) ∧ base58Fuel (t.rest bs.length) < base58Fuel (s.rest bs.length) := by
  have hspan : s.startAt + (bs.length - s.startAt) ≤ bs.length := by omega
  simp only [divideRound, divmod58, returns_bind, returns_get, returns_loadWork, returns_modify, returns_pushTemp]
  refine (returns_divmod58Loop hspan 0 s).mono fun d t ht => ?_
  obtain ⟨hd, hquotient, -, hframe⟩ := ht
  have hstart : t.startAt = s.startAt := by rw [hframe]
  have hwritten : Written bs zeros t ds := by
    rw [hframe]
    exact ⟨h.zeroCount, h.digits_lt, h.cursor, h.length_le, h.written⟩
  have hquotient : t.rest bs.length = (Bitmessage.divmod58 0 (s.rest bs.length)).1 := by
    rw [Encoder.rest, hstart]
    exact hquotient
  have hd : d = (Bitmessage.divmod58 0 (s.rest bs.length)).2 := hd
  obtain ⟨hrest, hle⟩ := rest_dropFirst hquotient (hstart ▸ hlt) hbs
  obtain ⟨hdlt, -, hvalue⟩ := divmod58_spec (by norm_num : 0 < 58) (s.rest bs.length)
  have hstep : base58Fuel ((Base58.dropFirst t (t.work t.startAt)).rest bs.length) + 1 ≤
      base58Fuel (s.rest bs.length) := by
    obtain ⟨n, hn⟩ := Nat.exists_eq_add_of_lt hlt
    have hcons : s.rest bs.length = s.work s.startAt :: span s.work (s.startAt + 1) n := by
      have hn : bs.length - s.startAt = n + 1 := by omega
      rw [Encoder.rest, hn, span_succ]
    rw [hrest, hcons]
    exact base58Fuel_step _ _
  have hroom := h.room
  rw [← hd] at hdlt hvalue
  obtain ⟨hinside, hpush⟩ := (hwritten.dropFirst (t.work t.startAt)).push hdlt (by omega) hbs
  rw [hstart] at hinside hpush hrest hle hstep
  refine ⟨?_, hinside, d, ⟨hpush, hle, ?_, ?_⟩, ?_⟩
  · show s.startAt + 1 ≤ bs.length
    omega
  · show ds.length + 1 + base58Fuel ((Base58.dropFirst t (t.work s.startAt)).rest bs.length) ≤ _
    omega
  · show beNat ((Base58.dropFirst t (t.work s.startAt)).rest bs.length) * 58 ^ (ds.length + 1) +
      value 58 (d :: ds) = beNat bs
    rw [hrest, beNat_drop_zero, value_cons, ← h.value_eq]
    rw [Nat.zero_mul, Nat.zero_add] at hvalue
    rw [← hvalue]
    ring
  · show base58Fuel ((Base58.dropFirst t (t.work s.startAt)).rest bs.length) < _
    omega

/-- The divide loop ends, and the digits have the value of the number. -/
theorem Divided.loop (h : Divided bs zeros s ds) (hbs : bs.length < 2 ^ 63) {fuel : ℕ}
    (hfuel : 2 * bs.length < fuel) :
    Returns (Touch.Inside bs.length) (loop (bytesLeft bs.length) (divideRound bs.length) fuel) s fun _ t =>
      ∃ ds, Written bs zeros t ds ∧ value 58 ds = beNat bs := by
  have hrank : base58Fuel (s.rest bs.length) < fuel := by
    have hle := base58Fuel_le (s.rest bs.length)
    rw [Encoder.rest, length_span] at hle
    rw [Encoder.rest]
    omega
  refine returns_loop (fun s => ∃ ds, Divided bs zeros s ds) (fun s => base58Fuel (s.rest bs.length)) ?_ ⟨ds, h⟩ hrank
  rintro s ⟨ds, h⟩
  simp only [bytesLeft, returns_bind, returns_get, returns_pure, decide_eq_true_eq]
  split_ifs with hlt
  · refine (h.round hlt hbs).mono fun _ t ht => ?_
    obtain ⟨d, hdivided, hrank⟩ := ht
    exact ⟨⟨d :: ds, hdivided⟩, hrank⟩
  · have hnil : s.rest bs.length = [] := by
      rw [Encoder.rest, Nat.sub_eq_zero_of_le (by omega), span_zero]
    have hvalue := h.value_eq
    rw [hnil, beNat_nil, Nat.zero_mul, Nat.zero_add] at hvalue
    exact ⟨ds, h.toWritten, hvalue⟩

/-! ### The characters in front -/

theorem digitChar_inj {d e : ℕ} (hd : d < 58) (he : e < 58) (h : digitChar d = digitChar e) : d = e := by
  rw [← idxOf_alphabet hd, ← idxOf_alphabet he]
  exact congrArg base58Alphabet.idxOf h

/-- Leading zero digits are skipped. -/
theorem Written.skip (h : Written bs zeros s ds) (hvalue : value 58 ds = beNat bs) (hbs : bs.length < 2 ^ 63)
    {fuel : ℕ} (hfuel : 2 * bs.length < fuel) :
    Returns (Touch.Inside bs.length)
      (loop (atZeroDigit (2 * bs.length)) (modify fun s => { s with j := addW s.j 1 }) fuel) s
      fun _ t => Written bs zeros t (digits 58 (beNat bs)) := by
  refine returns_loop (fun s => ∃ ds, Written bs zeros s ds ∧ value 58 ds = beNat bs)
    (fun s => 2 * bs.length - s.j) ?_ ⟨ds, h, hvalue⟩ (by omega)
  rintro s ⟨ds, h, hvalue⟩
  have hcursor := h.cursor
  simp only [atZeroDigit, returns_bind, returns_get]
  cases ds with
  | nil =>
    rw [List.length_nil] at hcursor
    rw [if_neg (by omega), returns_pure, if_neg Bool.false_ne_true, ← hvalue]
    exact h
  | cons d ds =>
    have hwritten := h.written
    rw [List.length_cons] at hcursor hwritten
    rw [span_succ, List.map_cons, List.cons.injEq] at hwritten
    have hd := h.digits_lt d List.mem_cons_self
    rw [if_pos (by omega), returns_bind, returns_loadTemp, returns_pure, hwritten.1]
    refine ⟨by show s.j + 1 ≤ 2 * bs.length; omega, ?_⟩
    by_cases hzero : d = 0
    · subst hzero
      rw [if_pos (beq_self_eq_true _), returns_modify]
      have hadd : addW s.j 1 = s.j + 1 := addW_of_lt (by unfold wordSize; omega)
      rw [hadd]
      refine ⟨⟨ds, ⟨h.zeroCount, ?_, ?_, ?_, hwritten.2⟩, ?_⟩, ?_⟩
      · exact fun x hx => h.digits_lt x (List.mem_cons_of_mem 0 hx)
      · show s.j + 1 + ds.length = 2 * bs.length
        omega
      · exact (Nat.le_succ _).trans h.length_le
      · rw [← hvalue, value_cons, Nat.zero_mul, Nat.zero_add]
      · show 2 * bs.length - (s.j + 1) < 2 * bs.length - s.j
        omega
    · have hne : ¬(digitChar d == digitChar 0) = true := by
        rw [beq_iff_eq]
        exact fun heq => hzero (digitChar_inj hd (by norm_num) heq)
      rw [if_neg hne, ← hvalue, digits_value (by norm_num) h.digits_lt]
      · exact h
      · rw [List.head?_cons]
        exact fun heq => hzero (Option.some.inj heq)

/-- The string is in the scratch buffer: so many zeros and the digits. -/
structure Finished (bs : Bytes) (zeros : ℕ) (ds : List ℕ) (s : Encoder) : Prop where
  cursor : s.j + zeros + ds.length = 2 * bs.length
  written : span s.temp s.j (zeros + ds.length) = List.replicate zeros (digitChar 0) ++ ds.map digitChar

/-- One character for each leading zero byte. -/
theorem Written.prepend (h : Written bs zeros s ds) (hzeros : zeros ≤ bs.length) (hbs : bs.length < 2 ^ 63)
    {fuel : ℕ} (hfuel : bs.length < fuel) :
    Returns (Touch.Inside bs.length) (loop zerosLeft (pushTemp (digitChar 0)) fuel) s
      fun _ t => Finished bs zeros ds t := by
  have hlength := h.length_le
  refine returns_loop (fun s => ∃ k, k + s.zeroCount = zeros ∧ Finished bs k ds s) (fun s => s.zeroCount) ?_
    ⟨0, ?_, ?_, ?_⟩ ?_
  · rintro s ⟨k, hk, hcursor, hwritten⟩
    simp only [zerosLeft, returns_bind, returns_get, returns_modify, returns_pure]
    by_cases hzero : s.zeroCount = 0
    · rw [if_neg (by simp [hzero])]
      have hk : k = zeros := by omega
      subst hk
      exact ⟨hcursor, hwritten⟩
    · rw [if_pos (by simp [hzero]), returns_pushTemp]
      have hj : subW s.j 1 = s.j - 1 := subW_one_of_pos (by unfold wordSize; omega) (by omega)
      have hcount : subW s.zeroCount 1 = s.zeroCount - 1 := subW_one_of_pos (by unfold wordSize; omega) (by omega)
      have hnext : s.j - 1 + 1 = s.j := by omega
      rw [hj, hcount]
      refine ⟨?_, ⟨k + 1, ?_, ?_, ?_⟩, ?_⟩
      · show s.j - 1 + 1 ≤ 2 * bs.length
        omega
      · show k + 1 + (s.zeroCount - 1) = zeros
        omega
      · show s.j - 1 + (k + 1) + ds.length = 2 * bs.length
        omega
      · show span (Function.update s.temp (s.j - 1) (digitChar 0)) (s.j - 1) (k + 1 + ds.length) = _
        rw [Nat.add_right_comm k 1, span_update_head, hnext, hwritten, List.replicate_succ, List.cons_append]
      · show s.zeroCount - 1 < s.zeroCount
        omega
  · rw [Nat.zero_add, h.zeroCount]
  · rw [Nat.add_zero, h.cursor]
  · rw [Nat.zero_add, h.written]
    rfl
  · show s.zeroCount < fuel
    rw [h.zeroCount]
    omega

end

/-! ### The encoder from its start to its end -/

section

variable {input : Buf}

/-- The count of leading zero bytes. -/
theorem returns_countZeros {s : Encoder} (hwork : s.work = input.mem) (hcount : s.zeroCount = 0) {fuel : ℕ}
    (hfuel : input.size < fuel) :
    Returns (Touch.Inside input.size)
      (loop (atLeadingZero input.size) (modify fun s => { s with zeroCount := addW s.zeroCount 1 }) fuel) s
      fun _ t => t.work = input.mem ∧ t.zeroCount = (input.bytes.takeWhile (· = 0)).length := by
  have hsize := input.size_lt
  refine returns_loop (fun s => s.work = input.mem ∧ s.zeroCount ≤ input.size ∧
    ∀ i < s.zeroCount, input.mem i = 0) (fun s => input.size - s.zeroCount) ?_
    ⟨hwork, by omega, fun i hi => by omega⟩ (by omega)
  rintro s ⟨hwork, hle, hzero⟩
  -- The bytes counted so far, and the others.
  have hbytes : input.bytes = List.replicate s.zeroCount 0 ++
      span input.mem s.zeroCount (input.size - s.zeroCount) := by
    have hfront : span input.mem 0 s.zeroCount = List.replicate s.zeroCount 0 :=
      span_eq_replicate fun i _ hi => hzero i (by omega)
    have hsplit := span_add input.mem 0 s.zeroCount (input.size - s.zeroCount)
    rw [Nat.add_sub_cancel' hle, Nat.zero_add, hfront] at hsplit
    exact hsplit
  have hcount (h : (span input.mem s.zeroCount (input.size - s.zeroCount)).takeWhile (· = 0) = []) :
      s.zeroCount = (input.bytes.takeWhile (· = 0)).length := by
    rw [hbytes, List.takeWhile_append_of_pos (by simp), h]
    simp
  simp only [atLeadingZero, returns_bind, returns_get]
  by_cases hlt : s.zeroCount < input.size
  · rw [if_pos hlt, returns_bind, returns_loadWork, returns_pure, hwork]
    refine ⟨hlt, ?_⟩
    by_cases hbyte : input.mem s.zeroCount = 0
    · have hadd : addW s.zeroCount 1 = s.zeroCount + 1 := addW_of_lt (by unfold wordSize; omega)
      rw [if_pos (beq_iff_eq.mpr hbyte), returns_modify, hadd]
      refine ⟨⟨hwork, hlt, fun i hi => ?_⟩, ?_⟩
      · rcases Nat.lt_succ_iff_lt_or_eq.mp hi with hi | rfl
        · exact hzero i hi
        · exact hbyte
      · show input.size - (s.zeroCount + 1) < input.size - s.zeroCount
        omega
    · rw [if_neg (by simpa using hbyte)]
      obtain ⟨n, hn⟩ := Nat.exists_eq_add_of_lt hlt
      have hn : input.size - s.zeroCount = n + 1 := by omega
      refine ⟨rfl, hcount ?_⟩
      rw [hn, span_succ, List.takeWhile_cons_of_neg (by simpa using hbyte)]
  · rw [if_neg hlt, returns_pure, if_neg Bool.false_ne_true]
    refine ⟨hwork, hcount ?_⟩
    rw [Nat.sub_eq_zero_of_le (by omega), span_zero, List.takeWhile_nil]

/-- The number in base 58, behind a `1` for each leading zero byte. Zero has no digits. -/
def spelled (bs : Bytes) : Bytes :=
  List.replicate (bs.takeWhile (· = 0)).length 0x31 ++ (digits 58 (beNat bs)).map digitChar

/-- The encoder returns whatever its buffers held before, and looks and writes nowhere else. -/
theorem returns_encode (hne : input.size ≠ 0) {fuel : ℕ} (hfuel : 2 * input.size < fuel) (s : Encoder) :
    Returns (Touch.Inside input.size) (encode fuel (some input)) s fun out _ =>
      out = some (spelled input.bytes ++ [0]) := by
  have hsize := input.size_lt
  have hlength := input.length_bytes
  set zeros := (input.bytes.takeWhile (· = 0)).length with hzeros
  have hzerosle : zeros ≤ input.bytes.length := (List.takeWhile_sublist _).length_le
  have htwo : mulW input.size 2 = 2 * input.size := by
    rw [mulW_of_lt (by unfold wordSize; omega), Nat.mul_comm]
  rw [encode, if_neg hne]
  simp only [returns_bind, returns_emit, returns_modify, returns_get, returns_pure, htwo]
  refine ⟨(Nat.zero_add _).le, ?_⟩
  refine (returns_countZeros rfl rfl (by omega)).mono fun _ s₁ h₁ => ⟨(Nat.zero_add _).le, ?_⟩
  rw [h₁.1, h₁.2, ← hlength, ← hzeros]
  have hrest : beNat (span input.mem zeros (input.bytes.length - zeros)) = beNat input.bytes := by
    have hsplit : input.bytes = span input.mem 0 zeros ++ span input.mem zeros (input.bytes.length - zeros) := by
      have hadd := span_add input.mem 0 zeros (input.bytes.length - zeros)
      rw [Nat.add_sub_cancel' hzerosle, Nat.zero_add, hlength] at hadd
      rw [hlength]
      exact hadd
    have hdrop : input.bytes.dropWhile (· = 0) = span input.mem zeros (input.bytes.length - zeros) :=
      List.append_inj_right ((List.takeWhile_append_dropWhile ..).trans hsplit) (by rw [length_span])
    rw [← hdrop, beNat_dropWhile_zero]
  have hstart : Divided input.bytes zeros
      { work := input.mem, temp := fun _ => 0, zeroCount := zeros, j := 2 * input.bytes.length, startAt := zeros }
      [] := by
    refine ⟨⟨rfl, by simp, rfl, Nat.zero_le _, rfl⟩, hzerosle, ?_, ?_⟩
    · have hle := base58Fuel_le (span input.mem zeros (input.bytes.length - zeros))
      rw [length_span] at hle
      rw [List.length_nil, Nat.zero_add]
      exact hle
    · rw [List.length_nil, Nat.pow_zero, Nat.mul_one, value_nil, Nat.add_zero]
      exact hrest
  refine (hstart.loop (by omega) (by omega)).mono fun _ s₂ h₂ => ?_
  obtain ⟨ds, hwritten, hvalue⟩ := h₂
  refine (hwritten.skip hvalue (by omega) (by omega)).mono fun _ s₃ h₃ => ?_
  refine (h₃.prepend hzerosle (by omega) (by omega)).mono fun _ s₄ h₄ => ?_
  have hcursor := h₄.cursor
  have hout : subW (2 * input.bytes.length) s₄.j = zeros + (digits 58 (beNat input.bytes)).length := by
    rw [subW_of_le (by unfold wordSize; omega) (by omega)]
    omega
  rw [hout, h₄.written]
  refine ⟨?_, rfl⟩
  show s₄.j + (zeros + (digits 58 (beNat input.bytes)).length) ≤ 2 * input.bytes.length
  omega

end

/-- The buffers hold what the encoder on byte strings computes. -/
theorem base58Encode_eq_spelled {bs : Bytes} (hne : bs ≠ []) : base58Encode bs = some (spelled bs) := by
  rw [base58Encode_zeros hne, List.map_append, List.map_replicate]
  rfl

/-! ### The decoder -/

theorem idxOf?_alphabet {c : UInt8} (hc : c ∈ base58Alphabet) :
    base58Alphabet.idxOf? c = some (base58Alphabet.idxOf c) := by
  obtain ⟨i, hi⟩ := Option.isSome_iff_exists.mp (List.isSome_idxOf?.mpr hc)
  rw [List.idxOf_eq_getD_idxOf?, hi, Option.getD_some]

/-- Multiplying and adding gives the value of the digits, as long as every character is one. -/
theorem decodeLoop_eq (n : ℕ) (cs : Bytes) : decodeLoop n cs =
    if cs.all fun c => decide (c ∈ base58Alphabet) then
      some (n * 58 ^ cs.length + value 58 (cs.map fun c => base58Alphabet.idxOf c))
    else none := by
  induction cs generalizing n with
  | nil => simp [decodeLoop]
  | cons c cs ih =>
    rw [decodeLoop]
    by_cases hc : c ∈ base58Alphabet
    · rw [idxOf?_alphabet hc, List.all_cons, decide_eq_true hc, Bool.true_and]
      simp only [ih, List.map_cons, value_cons, List.length_cons, List.length_map]
      congr 2
      ring
    · rw [List.idxOf?_eq_none_iff.mpr hc, List.all_cons, decide_eq_false hc, Bool.false_and]
      rfl

theorem decode_eq (block : Bytes) : decode (some block) = base58Decode (cString block) := by
  rw [decode, base58Decode, decodeLoop_eq]
  split_ifs
  · rfl
  · rw [Nat.zero_mul, Nat.zero_add, Option.map_some]
  · rfl

/-- The NUL ends the string. -/
theorem cString_spelled (bs : Bytes) : cString (spelled bs ++ [0]) = spelled bs := by
  have hzero : (0 : UInt8) ∉ base58Alphabet := by decide
  have hdigits : ∀ c ∈ spelled bs, c ≠ 0 := by
    intro c hc
    rcases List.mem_append.mp hc with hc | hc
    · rw [List.eq_of_mem_replicate hc]
      decide
    · obtain ⟨d, hd, rfl⟩ := List.mem_map.mp hc
      have hlt : d < 58 := Nat.digits_lt_base (by norm_num) (List.mem_reverse.mp hd)
      exact fun h => hzero (h ▸ alphabet_mem hlt)
  rw [cString, List.takeWhile_append_of_pos fun c hc => decide_eq_true (hdigits c hc)]
  simp

/-- What the encoder returns for bytes that do not start with zero is decoded to these bytes. -/
theorem decode_spelled {bs : Bytes} (hne : bs ≠ []) (h0 : bs.head? ≠ some 0) :
    decode (some (spelled bs ++ [0])) = some bs := by
  have hdecode := base58Decode_digits hne h0
  rw [decode_eq, cString_spelled, spelled, takeWhile_zero_eq_nil h0]
  exact hdecode

/-- With fuel for two rounds a byte and one condition more the encoder returns; it stays inside its buffers,
the string is the number in base 58 behind a `1` for each leading zero byte, as in `base58Encode`, and unless
there is one the decoder gives the bytes back. -/
theorem base58_codec (input : Buf) (hne : input.size ≠ 0) {fuel : ℕ} (hfuel : 2 * input.size < fuel) (s : Encoder) :
    Returns (Touch.Inside input.size) (encode fuel (some input)) s fun out _ =>
      out = some (spelled input.bytes ++ [0]) ∧ base58Encode input.bytes = some (spelled input.bytes) ∧
        (input.mem 0 ≠ 0 → decode out = some input.bytes) := by
  obtain ⟨n, hn⟩ := Nat.exists_eq_succ_of_ne_zero hne
  have hcons : input.bytes = input.mem 0 :: span input.mem 1 n := by
    show span input.mem 0 input.size = _
    rw [hn, span_succ]
  have hbytes : input.bytes ≠ [] := by
    rw [hcons]
    exact List.cons_ne_nil _ _
  refine (returns_encode hne hfuel s).mono fun out _ hout => ⟨hout, base58Encode_eq_spelled hbytes, fun hfirst => ?_⟩
  rw [hout]
  apply decode_spelled hbytes
  rw [hcons, List.head?_cons]
  exact fun h => hfirst (Option.some.inj h)

/-- The encoder before it is called, with buffers that hold anything. -/
def idle : Encoder := ⟨fun _ => 0xff, fun _ => 0x31, 7, 7, 7⟩

/-- Two bytes, the first of them zero, and two that start otherwise. -/
theorem base58_codec_two :
    (Returns (Touch.Inside 2) (encode 5 (some (Buf.ofBytes [0, 0x39] (by decide)))) idle fun out _ =>
      out = some [0x31, 0x7a, 0]) ∧
    Returns (Touch.Inside 2) (encode 5 (some (Buf.ofBytes [1, 0x39] (by decide)))) idle fun out _ =>
      out = some [0x36, 0x51, 0] ∧ decode out = some [1, 0x39] := by
  constructor
  · refine (base58_codec (Buf.ofBytes [0, 0x39] (by decide)) (by decide) (by decide) idle).mono fun out _ hout => ?_
    rw [hout.1, Buf.bytes_ofBytes]
    decide +kernel
  · refine (base58_codec (Buf.ofBytes [1, 0x39] (by decide)) (by decide) (by decide) idle).mono fun out _ hout => ?_
    have hback := hout.2.2 (by decide)
    rw [Buf.bytes_ofBytes] at hback
    refine ⟨?_, hback⟩
    rw [hout.1, Buf.bytes_ofBytes]
    decide +kernel

end Bitmessage.Base58
