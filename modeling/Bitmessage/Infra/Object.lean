import Bitmessage.Common.Buffer

/-! The header that all objects share: nonce, expiry time, type, version and stream. -/

namespace Bitmessage

open Traced BufParser

/-- `BM_OBJECT_GETPUBKEY`, `BM_OBJECT_PUBKEY`, `BM_OBJECT_MSG`, `BM_OBJECT_BROADCAST` and
`BM_OBJECT_ONIONPEER`. -/
def objectGetpubkey : ℕ := 0
def objectPubkey : ℕ := 1
def objectMsg : ℕ := 2
def objectBroadcast : ℕ := 3
def objectOnionpeer : ℕ := 0x746f72

/-- `struct bm_object_header`. -/
structure ObjectHeader where
  nonce : ℕ
  expiresTime : ℕ
  objectType : ℕ
  version : ℕ
  stream : ℕ
  headerLen : ℕ
  deriving DecidableEq

/-- `bm_object_parse_header`. -/
def objectParseHeader (b : Buf) : BufParser ObjectHeader := do
  require (20 ≤ b.size)
  let nonce ← readBe .object b 8
  let expiresTime ← readBe .object b 8
  let objectType ← readBe .object b 4
  let version ← varint .object b
  let stream ← varint .object b
  let headerLen ← get
  pure ⟨nonce, expiresTime, objectType, version, stream, headerLen⟩

/-- The header of an object, if it is complete. -/
def Buf.header (b : Buf) : Option ObjectHeader := ((objectParseHeader b).result 0).map Prod.fst

/-- The header in terms of the fields at their offsets. -/
theorem result_objectParseHeader (b : Buf) : (objectParseHeader b).result 0 =
    if 20 ≤ b.size then
      (b.varintAt 20).bind fun v => (b.varintAt v.2).map fun s =>
        (⟨Radix.beNat (b.slice 0 8), Radix.beNat (b.slice 8 8), Radix.beNat (b.slice 16 4), v.1, s.1, s.2⟩, s.2)
    else none := by
  unfold objectParseHeader
  by_cases h : 20 ≤ b.size
  · rw [if_pos h, result_bind_of_result (show result (require (20 ≤ b.size)) 0 = some ((), 0) by simp [h]),
      result_bind_of_result (result_readBe (by norm_num)), result_bind_of_result (result_readBe (by norm_num)),
      result_bind_of_result (result_readBe (by norm_num)), result_bind]
    norm_num only
    rw [result_varint h]
    refine Option.bind_congr fun v hv => ?_
    rw [result_bind, result_varint (Buf.varintAt_eq_some hv h).2.1, Option.map_eq_bind]
    refine Option.bind_congr fun s hs => ?_
    rw [result_bind_of_result (result_get _), result_pure, Function.comp_apply]
  · rw [if_neg h, result_bind, result_require, if_neg h, Option.bind_none]

/-- The two numbers at the end of a parsed header. -/
theorem Buf.header_varints {b : Buf} {hdr : ObjectHeader} (h : b.header = some hdr) :
    20 ≤ b.size ∧ ∃ p, b.varintAt 20 = some (hdr.version, p) ∧ b.varintAt p = some (hdr.stream, hdr.headerLen) ∧
      (objectParseHeader b).result 0 = some (hdr, hdr.headerLen) := by
  unfold Buf.header at h
  rw [result_objectParseHeader] at h ⊢
  split_ifs at h ⊢ with h20
  · rcases hv : b.varintAt 20 with _ | ⟨v, p⟩
    · simp [hv] at h
    · rcases hs : b.varintAt p with _ | ⟨s, q⟩
      · simp [hv, hs] at h
      · simp only [hv, hs, Option.bind_some, Option.map_some, Option.some.injEq] at h ⊢
        subst h
        exact ⟨h20, p, rfl, hs, rfl⟩
  · cases h

/-- A parsed header lies inside the object, and its nonce precedes the signed part. -/
theorem Buf.header_eq_some {b : Buf} {hdr : ObjectHeader} (h : b.header = some hdr) :
    (objectParseHeader b).result 0 = some (hdr, hdr.headerLen) ∧ 20 < hdr.headerLen ∧ hdr.headerLen ≤ b.size := by
  obtain ⟨h20, p, hv, hs, hresult⟩ := Buf.header_varints h
  have hp := Buf.varintAt_eq_some hv h20
  have hq := Buf.varintAt_eq_some hs hp.2.1
  exact ⟨hresult, by omega, hq.2.1⟩

/-- The version and the stream of a header have 64 bits. -/
theorem Buf.header_lt {b : Buf} {hdr : ObjectHeader} (h : b.header = some hdr) :
    hdr.version < wordSize ∧ hdr.stream < wordSize := by
  obtain ⟨h20, p, hv, hs, -⟩ := Buf.header_varints h
  have hp := Buf.varintAt_eq_some hv h20
  exact ⟨hp.2.2, (Buf.varintAt_eq_some hs hp.2.1).2.2⟩

/-- The header depends on the contents of the object only. -/
theorem Buf.header_congr {b b' : Buf} (h : b.bytes = b'.bytes) : b.header = b'.header := by
  unfold Buf.header
  rw [result_objectParseHeader, result_objectParseHeader, ← Buf.size_congr h]
  split_ifs with h20
  · have hnonce : b.slice 0 8 = b'.slice 0 8 := Buf.slice_congr h (by omega)
    have hexpires : b.slice 8 8 = b'.slice 8 8 := Buf.slice_congr h (by omega)
    have htype : b.slice 16 4 = b'.slice 16 4 := Buf.slice_congr h (by omega)
    rw [← Buf.varintAt_congr h h20, ← hnonce, ← hexpires, ← htype]
    refine congrArg _ (Option.bind_congr fun v hv => ?_)
    rw [Buf.varintAt_congr h (Buf.varintAt_eq_some hv h20).2.1]
  · rfl

/-- Parsing the header is safe on every object. -/
theorem safe_objectParseHeader_bind {size : Region → ℕ} {b : Buf} (hb : b.size = size .object) {β : Type}
    {f : ObjectHeader → BufParser β} :
    Safe (Access.InBounds size) (objectParseHeader b >>= f) 0 ↔
      ∀ hdr, b.header = some hdr → Safe (Access.InBounds size) (f hdr) hdr.headerLen := by
  have hw := b.size_lt
  have hsafe : Safe (Access.InBounds size) (objectParseHeader b) 0 := by
    unfold objectParseHeader
    rw [safe_require_bind]
    intro h20
    rw [safe_readBe_bind (by norm_num), safe_readBe_bind (by norm_num), safe_readBe_bind (by norm_num), ← hb]
    refine ⟨by omega, by omega, by omega, ?_⟩
    rw [safe_varint_bind hb h20]
    intro v p hv
    rw [safe_varint_bind hb (Buf.varintAt_eq_some hv h20).2.1]
    intro s q hs
    rw [safe_get_bind]
    exact safe_pure _ _
  rw [safe_bind, and_iff_right hsafe]
  constructor
  · exact fun h hdr hhdr => h hdr _ (Buf.header_eq_some hhdr).1
  · intro h hdr q hr
    have hhdr : b.header = some hdr := by rw [Buf.header, hr]; rfl
    have := (Buf.header_eq_some hhdr).1
    rw [hr] at this
    cases this
    exact h hdr hhdr

/-- The header that was written is the one that is read. -/
theorem Buf.header_of_bytes {b : Buf} {nonce expires type version stream : ℕ} {data : Bytes}
    (hn : nonce < wordSize) (he : expires < wordSize) (ht : type < 2 ^ 32) (hv : version < wordSize)
    (hs : stream < wordSize)
    (h : b.bytes = packBe64 nonce ++ (packBe64 expires ++ (Radix.beBytes 4 type ++
      (varintEncode version ++ (varintEncode stream ++ data))))) :
    b.header = some ⟨nonce, expires, type, version, stream, 20 + varintSize version + varintSize stream⟩ := by
  have hlen : b.size = 20 + varintSize version + varintSize stream + data.length := by
    rw [← b.length_bytes, h]
    simp [packBe64, length_varintEncode]
    omega
  have hnonce : Radix.beNat (b.slice 0 8) = nonce := by
    have := Buf.slice_of_bytes [] (packBe64 nonce) _ h
    simp only [packBe64, List.length_nil, Radix.length_beBytes] at this
    rw [this, Radix.beNat_beBytes_of_lt (lt_of_lt_of_eq hn (by norm_num))]
  have hexpires : Radix.beNat (b.slice 8 8) = expires := by
    have := Buf.slice_of_bytes _ _ _ h
    simp only [packBe64, Radix.length_beBytes] at this
    rw [this, Radix.beNat_beBytes_of_lt (lt_of_lt_of_eq he (by norm_num))]
  rw [← List.append_assoc] at h
  have htype : Radix.beNat (b.slice 16 4) = type := by
    have := Buf.slice_of_bytes _ _ _ h
    simp only [packBe64, List.length_append, Radix.length_beBytes, Nat.reduceAdd] at this
    rw [this, Radix.beNat_beBytes_of_lt (lt_of_lt_of_eq ht (by norm_num))]
  rw [← List.append_assoc] at h
  have hversion : b.varintAt 20 = some (version, 20 + varintSize version) := by
    have := Buf.varintAt_of_bytes hv h
    simpa only [packBe64, List.length_append, Radix.length_beBytes, Nat.reduceAdd] using this
  rw [← List.append_assoc] at h
  have hstream : b.varintAt (20 + varintSize version) =
      some (stream, 20 + varintSize version + varintSize stream) := by
    have := Buf.varintAt_of_bytes hs h
    simpa only [packBe64, List.length_append, Radix.length_beBytes, length_varintEncode, Nat.reduceAdd] using this
  rw [Buf.header, result_objectParseHeader, if_pos (by omega), hversion, Option.bind_some, hstream, Option.map_some,
    Option.map_some, hnonce, hexpires, htype]

end Bitmessage
