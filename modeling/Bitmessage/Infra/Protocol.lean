import Bitmessage.Common.Buffer

/-! The parsers for the `version` and `addr` messages of a peer. Both allocate arrays
whose sizes the peer chooses; the allocator is a parameter that tells whether a request
succeeds. The `version` parser trusts its input: it never looks at the length of the
payload except to pass it on to the integer decoder. The `addr` parser checks every
entry against the payload, but not the product that is the size of its array. -/

namespace Bitmessage

open Traced BufParser Radix

/-- The bytes one may write through the pointer that `malloc(n)` returns. -/
def capacity (malloc : ℕ → Bool) (n : ℕ) : ℕ := if malloc n then n else 0

/-! ### version -/

/-- `struct bm_version_message`. -/
structure VersionMessage where
  version : ℕ
  services : ℕ
  timestamp : ℕ
  addrRecv : Bytes
  addrFrom : Bytes
  nonce : ℕ
  userAgent : Bytes
  streamNumbers : List ℕ

/-- The loop over `stream_numbers`, from index `i` with `n` numbers to go. A number that is cut
off leaves zero in the array and the offset where it is. -/
def parseStreamNumbers (b : Buf) (cap : ℕ) : ℕ → ℕ → BufParser (List ℕ)
  | 0, _ => pure []
  | n + 1, i => do
    let (consumed, v) ← varintDecodeAt .object b
    emit (.write cap (8 * i) 8)
    advance .object consumed
    let vs ← parseStreamNumbers b cap n (i + 1)
    pure (v :: vs)

/-- `bm_parse_version_message`. -/
def parseVersionMessage (malloc : ℕ → Bool) (b : Buf) : BufParser VersionMessage := do
  let version ← readBe .object b 4
  let services ← readBe .object b 8
  let timestamp ← readBe .object b 8
  let addrRecv ← bytes .object b 26
  let addrFrom ← bytes .object b 26
  let nonce ← readBe .object b 8
  let (consumed, uaLen) ← varintDecodeAt .object b
  advance .object consumed
  let uaCap := capacity malloc (addW uaLen 1)
  let offset ← get
  emit (.read .object offset uaLen)
  emit (.write uaCap 0 uaLen)
  emit (.write uaCap uaLen 1)
  advance .object uaLen
  let (consumed, streamCount) ← varintDecodeAt .object b
  advance .object consumed
  let streamNumbers ← parseStreamNumbers b (capacity malloc (mulW 8 streamCount)) streamCount 0
  pure ⟨version, services, timestamp, addrRecv, addrFrom, nonce, b.slice offset uaLen, streamNumbers⟩

section

variable {b : Buf} {malloc : ℕ → Bool}

/-- Inside the payload the loop reads nothing else; its writes are the array. -/
theorem safe_parseStreamNumbers {cap n i p : ℕ} (hp : p ≤ b.size) :
    Safe (Access.InBounds fun _ => b.size) (parseStreamNumbers b cap n i) p ↔ (0 < n → 8 * (i + n) ≤ cap) := by
  induction n generalizing i p with
  | zero => simp [parseStreamNumbers]
  | succ n ih =>
    have hle := Buf.decodeAt_le hp
    rw [parseStreamNumbers, safe_varintDecodeAt_bind rfl hp]
    simp only [safe_emit_bind, safe_advance_bind, Access.InBounds, addW_decodeAt hp]
    rw [safe_bind, ih hle]
    constructor
    · rintro ⟨hw, -, hn, -⟩ -
      rcases Nat.eq_zero_or_pos n with rfl | hpos
      · omega
      · have := hn hpos; omega
    · intro h
      have := h (Nat.succ_pos n)
      exact ⟨by omega, hle, fun _ => by omega, fun _ _ _ => safe_pure _ _⟩

/-- What the peer and the allocator have to provide for the `version` parser: the fixed part, a
user agent inside the payload, and memory for both arrays, whose sizes must not wrap. -/
def VersionFits (malloc : ℕ → Bool) (b : Buf) : Prop :=
  80 ≤ b.size ∧
  80 + (b.decodeAt 80).1 + (b.decodeAt 80).2 ≤ b.size ∧
  malloc ((b.decodeAt 80).2 + 1) = true ∧
  let streamCount := (b.decodeAt (80 + (b.decodeAt 80).1 + (b.decodeAt 80).2)).2
  (streamCount = 0 ∨ 8 * streamCount < wordSize ∧ malloc (8 * streamCount) = true)

instance (malloc : ℕ → Bool) (b : Buf) : Decidable (VersionFits malloc b) :=
  inferInstanceAs (Decidable (_ ∧ _ ∧ _ ∧ (_ ∨ _ ∧ _)))

/-- An array of `count` elements has room for all of them exactly when it is not null and the
product did not wrap. -/
theorem capacity_mulW {width count : ℕ} (hw : 0 < width) :
    (0 < count → width * count ≤ capacity malloc (mulW width count)) ↔
      (count = 0 ∨ width * count < wordSize ∧ malloc (width * count) = true) := by
  rcases Nat.eq_zero_or_pos count with rfl | hpos
  · simp
  · simp only [hpos, true_implies, hpos.ne', false_or, capacity]
    have hprod : 0 < width * count := Nat.mul_pos hw hpos
    by_cases hlt : width * count < wordSize
    · rw [mulW_of_lt hlt]
      by_cases hm : malloc (width * count) <;> simp [hm, hlt, hprod.ne']
    · have := mulW_lt width count
      simp only [hlt, false_and, iff_false, not_le]
      split_ifs <;> omega

theorem capacity_succ {n : ℕ} (hn : n + 1 < wordSize) :
    n + 1 ≤ capacity malloc (addW n 1) ↔ malloc (n + 1) = true := by
  rw [addW_of_lt hn, capacity]
  by_cases hm : malloc (n + 1) <;> simp [hm]

/-- The part behind the user agent. -/
theorem safe_streamNumbers {p : ℕ} (hp : p ≤ b.size) (mk : List ℕ → VersionMessage) :
    Safe (Access.InBounds fun _ => b.size) (do
      let (consumed, streamCount) ← varintDecodeAt .object b
      advance .object consumed
      let streamNumbers ← parseStreamNumbers b (capacity malloc (mulW 8 streamCount)) streamCount 0
      pure (mk streamNumbers)) p ↔
    ((b.decodeAt p).2 = 0 ∨ 8 * (b.decodeAt p).2 < wordSize ∧ malloc (8 * (b.decodeAt p).2) = true) := by
  have hle := Buf.decodeAt_le hp
  rw [safe_varintDecodeAt_bind rfl hp, safe_advance_bind, addW_decodeAt hp, safe_bind,
    safe_parseStreamNumbers hle, Nat.zero_add, capacity_mulW (by norm_num)]
  simp only [hle, safe_pure, implies_true, and_true, true_and]

theorem safe_parseVersionMessage (malloc : ℕ → Bool) (b : Buf) :
    Safe (Access.InBounds fun _ => b.size) (parseVersionMessage malloc b) 0 ↔ VersionFits malloc b := by
  have hw := b.size_lt
  unfold parseVersionMessage VersionFits
  rw [safe_readBe_bind (by norm_num), safe_readBe_bind (by norm_num), safe_readBe_bind (by norm_num),
    safe_bytes_bind (by norm_num), safe_bytes_bind (by norm_num), safe_readBe_bind (by norm_num)]
  norm_num only
  by_cases h80 : 80 ≤ b.size
  · have hle := Buf.decodeAt_le h80
    rw [safe_varintDecodeAt_bind rfl h80]
    simp only [safe_advance_bind, safe_get_bind, safe_emit_bind, Access.InBounds, addW_decodeAt h80]
    generalize (b.decodeAt 80).1 = c at hle ⊢
    generalize (b.decodeAt 80).2 = ua
    by_cases hin : 80 + c + ua ≤ b.size
    · have ha : addW (80 + c) ua = 80 + c + ua := addW_of_lt (by unfold wordSize; omega)
      rw [ha, safe_streamNumbers hin, capacity_succ (by unfold wordSize; omega)]
      have hcap : malloc (ua + 1) = true → 0 + ua ≤ capacity malloc (addW ua 1) := fun hm => by
        have hlt : ua + 1 < wordSize := by unfold wordSize; omega
        have := (capacity_succ hlt).mpr hm
        omega
      constructor
      · rintro ⟨-, -, -, -, -, -, -, -, -, hm, -, hs⟩
        exact ⟨h80, hin, hm, hs⟩
      · rintro ⟨-, -, hm, hs⟩
        exact ⟨by omega, by omega, by omega, by omega, by omega, h80, hle, hin, hcap hm, hm, hin, hs⟩
    · simp only [hin, false_and, and_false]
  · simp only [h80, false_and, and_false]

theorem total_parseStreamNumbers {cap n i : ℕ} : Total (parseStreamNumbers b cap n i) := by
  induction n generalizing i with
  | zero => exact total_pure _
  | succ n ih =>
    exact (total_varintDecodeAt _ b).bind fun _ => (total_emit _).bind fun _ =>
      (total_advance _ _).bind fun _ => ih.bind fun _ => total_pure _

/-- Nothing in the payload can stop the parser, and its loop is bounded by the count. -/
theorem total_parseVersionMessage (malloc : ℕ → Bool) (b : Buf) : Total (parseVersionMessage malloc b) :=
  (total_readBe .object b 4).bind fun _ => (total_readBe .object b 8).bind fun _ => (total_readBe .object b 8).bind fun _ =>
  (total_bytes _ b 26).bind fun _ => (total_bytes _ b 26).bind fun _ => (total_readBe .object b 8).bind fun _ =>
  (total_varintDecodeAt _ b).bind fun _ => (total_advance _ _).bind fun _ => total_get.bind fun _ =>
  (total_emit _).bind fun _ => (total_emit _).bind fun _ => (total_emit _).bind fun _ =>
  (total_advance _ _).bind fun _ => (total_varintDecodeAt _ b).bind fun _ => (total_advance _ _).bind fun _ =>
  total_parseStreamNumbers.bind fun _ => total_pure _

end

/-- The `version` parser ends on every payload, and its accesses are in bounds exactly when the
payload holds the fixed part and the announced user agent and both arrays can be allocated. -/
theorem parseVersionMessage_inBounds_iff (malloc : ℕ → Bool) (b : Buf) :
    ((∃ msg q, (parseVersionMessage malloc b).result 0 = some (msg, q)) ∧
      Safe (Access.InBounds fun _ => b.size) (parseVersionMessage malloc b) 0) ↔ VersionFits malloc b := by
  rw [and_iff_right (total_parseVersionMessage malloc b 0)]
  exact safe_parseVersionMessage malloc b

/-- A payload that ends behind the version number. -/
theorem parseVersionMessage_truncated :
    ¬ Safe (Access.InBounds fun _ => 4)
      (parseVersionMessage (fun _ => true) (Buf.ofBytes [0, 0, 0, 3] (by decide))) 0 := by
  intro h
  exact absurd ((safe_parseVersionMessage _ (Buf.ofBytes [0, 0, 0, 3] (by decide))).mp h).1 (by decide)

/-! ### addr -/

/-- `struct bm_address_info`. -/
structure AddressInfo where
  time : ℕ
  stream : ℕ
  services : ℕ
  ip : Bytes
  port : ℕ

/-- `sizeof(struct bm_address_info)`, with its padding. -/
def addressInfoSize : ℕ := 48

/-- The loop over the entries, from index `i` with `n` entries to go. -/
def parseAddrEntries (b : Buf) (cap : ℕ) : ℕ → ℕ → BufParser (List AddressInfo)
  | 0, _ => pure []
  | n + 1, i => do
    room b 38
    let time ← readBe .object b 8
    let stream ← readBe .object b 4
    let services ← readBe .object b 8
    let ip ← bytes .object b 16
    let port ← readBe .object b 2
    emit (.write cap (addressInfoSize * i) addressInfoSize)
    let rest ← parseAddrEntries b cap n (i + 1)
    pure (⟨time, stream, services, ip, port⟩ :: rest)

/-- `bm_parse_addr_message`; stopping is the return value `-1`. -/
def parseAddrMessage (malloc : ℕ → Bool) (b : Buf) : BufParser (List AddressInfo) := do
  let count ← varint .object b
  parseAddrEntries b (capacity malloc (mulW addressInfoSize count)) count 0

/-- The entry in the 38 bytes at offset `p`. -/
def addrEntryAt (b : Buf) (p : ℕ) : AddressInfo :=
  ⟨beNat (b.slice p 8), beNat (b.slice (p + 8) 4), beNat (b.slice (p + 12) 8), b.slice (p + 20) 16,
    beNat (b.slice (p + 36) 2)⟩

/-- The number of complete entries behind offset `p`, `n` at most. -/
def entriesAt (b : Buf) (p n : ℕ) : ℕ := min n ((b.size - p) / 38)

section

variable {b : Buf} {malloc : ℕ → Bool}

/-- One entry is read inside the payload and written to its place in the array. -/
theorem safe_addrEntry {size : Region → ℕ} (hb : b.size = size .object) {cap n i p : ℕ} (hp : p ≤ b.size) :
    Safe (Access.InBounds size) (parseAddrEntries b cap (n + 1) i) p ↔
      (p + 38 ≤ b.size → addressInfoSize * (i + 1) ≤ cap ∧
        Safe (Access.InBounds size) (parseAddrEntries b cap n (i + 1)) (p + 38)) := by
  have hw := b.size_lt
  rw [parseAddrEntries, safe_room_bind hp (by norm_num)]
  refine imp_congr_right fun hin => ?_
  rw [safe_readBe_bind (by unfold wordSize; omega), safe_readBe_bind (by unfold wordSize; omega),
    safe_readBe_bind (by unfold wordSize; omega), safe_bytes_bind (by unfold wordSize; omega),
    safe_readBe_bind (by unfold wordSize; omega), safe_emit_bind, safe_bind]
  simp only [Access.InBounds, safe_pure, implies_true, and_true, Nat.mul_succ, ← hb]
  constructor
  · rintro ⟨-, -, -, -, -, hwr, hs⟩
    exact ⟨hwr, hs⟩
  · rintro ⟨hwr, hs⟩
    exact ⟨by omega, by omega, by omega, by omega, by omega, hwr, hs⟩

theorem entriesAt_succ (p n : ℕ) :
    entriesAt b p (n + 1) = if p + 38 ≤ b.size then entriesAt b (p + 38) n + 1 else 0 := by
  unfold entriesAt
  split_ifs <;> omega

/-- The loop writes the complete entries and no more. -/
theorem safe_parseAddrEntries {size : Region → ℕ} (hb : b.size = size .object) {cap n i p : ℕ} (hp : p ≤ b.size) :
    Safe (Access.InBounds size) (parseAddrEntries b cap n i) p ↔
      (0 < entriesAt b p n → addressInfoSize * (i + entriesAt b p n) ≤ cap) := by
  induction n generalizing i p with
  | zero => simp [parseAddrEntries, entriesAt]
  | succ n ih =>
    rw [safe_addrEntry hb hp, entriesAt_succ]
    by_cases hin : p + 38 ≤ b.size
    · simp only [hin, true_implies, if_true, ih hin, Nat.succ_pos]
      unfold addressInfoSize
      constructor
      · rintro ⟨h₁, h₂⟩
        rcases Nat.eq_zero_or_pos (entriesAt b (p + 38) n) with h0 | hpos
        · omega
        · have := h₂ hpos; omega
      · exact fun h => ⟨by omega, fun _ => by omega⟩
    · simp [hin]

/-- The loop returns exactly when all entries are there, and returns their fields. -/
theorem result_parseAddrEntries {cap n i p : ℕ} (hp : p ≤ b.size) :
    (parseAddrEntries b cap n i).result p =
      if p + 38 * n ≤ b.size then some ((List.range n).map fun j => addrEntryAt b (p + 38 * j), p + 38 * n)
      else none := by
  have hw := b.size_lt
  induction n generalizing i p with
  | zero => simp [parseAddrEntries, hp]
  | succ n ih =>
    rw [parseAddrEntries, result_bind, result_room hp (by norm_num)]
    by_cases hin : p + 38 ≤ b.size
    · have hread : ∀ q k, q + k ≤ p + 38 → (readBe .object b k).result q = some (beNat (b.slice q k), q + k) :=
        fun q k h => result_readBe (by unfold wordSize; omega)
      have hip : (bytes .object b 16).result (p + 8 + 4 + 8) = some (b.slice (p + 20) 16, p + 36) :=
        result_bytes (by unfold wordSize; omega)
      simp only [hin, if_true, Option.bind_some, result_bind, hread p 8 (by omega), hread (p + 8) 4 (by omega),
        hread (p + 8 + 4) 8 (by omega), hip, hread (p + 36) 2 (by omega), result_emit, ih hin, result_pure]
      have harith : p + 36 + 2 + 38 * n = p + 38 * (n + 1) := by ring
      rw [harith]
      split_ifs
      · simp only [Option.bind_some, Option.some.injEq, Prod.mk.injEq, and_true, List.range_succ_eq_map,
          List.map_cons, List.map_map, Nat.mul_zero, Nat.add_zero]
        refine congrArg₂ List.cons rfl (List.map_congr_left fun j _ => ?_)
        simp only [Function.comp_apply]
        congr 1
        omega
      · rfl
    · have hout : ¬ p + 38 * (n + 1) ≤ b.size := by omega
      simp [hin, hout]

end

/-- What the peer and the allocator have to provide for the `addr` parser: the entries that are
really there fit into the array, whose size may have wrapped. -/
def AddrFits (malloc : ℕ → Bool) (b : Buf) : Prop :=
  ∀ count p, b.varintAt 0 = some (count, p) → 0 < entriesAt b p count →
    addressInfoSize * entriesAt b p count ≤ capacity malloc (mulW addressInfoSize count)

/-- The promise of the `addr` parser: it touches nothing else, and it returns only what the
payload holds. -/
def AddrSafeAndExact (malloc : ℕ → Bool) (b : Buf) : Prop :=
  Safe (Access.InBounds fun _ => b.size) (parseAddrMessage malloc b) 0 ∧
  ∀ addresses q, (parseAddrMessage malloc b).result 0 = some (addresses, q) →
    ∃ count p, b.varintAt 0 = some (count, p) ∧ p + 38 * count ≤ b.size ∧
      addresses = (List.range count).map fun j => addrEntryAt b (p + 38 * j)

theorem safe_parseAddrMessage (malloc : ℕ → Bool) (b : Buf) :
    Safe (Access.InBounds fun _ => b.size) (parseAddrMessage malloc b) 0 ↔ AddrFits malloc b := by
  unfold parseAddrMessage AddrFits
  rw [safe_varint_bind rfl (Nat.zero_le _)]
  refine forall₃_congr fun count p h => ?_
  rw [safe_parseAddrEntries rfl (Buf.varintAt_eq_some h (Nat.zero_le _)).2.1, Nat.zero_add]

theorem parseAddrMessage_exact {malloc : ℕ → Bool} {b : Buf} {addresses : List AddressInfo} {q : ℕ}
    (h : (parseAddrMessage malloc b).result 0 = some (addresses, q)) :
    ∃ count p, b.varintAt 0 = some (count, p) ∧ p + 38 * count ≤ b.size ∧
      addresses = (List.range count).map fun j => addrEntryAt b (p + 38 * j) := by
  rw [parseAddrMessage, result_bind_eq_some] at h
  obtain ⟨count, p, hv, hr⟩ := h
  rw [result_varint (Nat.zero_le _)] at hv
  rw [result_parseAddrEntries (Buf.varintAt_eq_some hv (Nat.zero_le _)).2.1] at hr
  split at hr
  · next hin =>
    cases hr
    exact ⟨count, p, hv, hin, rfl⟩
  · cases hr

/-- The `addr` parser keeps its promise exactly when the entries that the payload holds fit into
the array it allocates. -/
theorem parseAddrMessage_safe_and_exact_iff (malloc : ℕ → Bool) (b : Buf) :
    AddrSafeAndExact malloc b ↔ AddrFits malloc b := by
  rw [AddrSafeAndExact, safe_parseAddrMessage]
  exact and_iff_left fun _ _ h => parseAddrMessage_exact h

/-- A count of `2 ^ 60` makes the size of the array wrap to zero, and one entry follows. -/
def wrappingAddrPayload : Buf :=
  Buf.ofBytes ([0xff, 0x10, 0, 0, 0, 0, 0, 0, 0] ++ List.replicate 38 1) (by decide)

theorem parseAddrMessage_wraps : ¬ AddrSafeAndExact (fun _ => true) wrappingAddrPayload := by
  rw [AddrSafeAndExact, safe_parseAddrMessage]
  rintro ⟨h, -⟩
  exact absurd (h (2 ^ 60) 9 (by decide) (by decide)) (by decide)

end Bitmessage
