import Bitmessage.Infra.PeerGossip
import Bitmessage.Lib.Regroup

/-! The announcement of an onion service: the address that a node puts into an onionpeer object is the
address that a receiver of the object learns. Both base-32 coders regroup bits, one five to eight and one
eight to five, through 64 bits that overflow on the way. -/

namespace Bitmessage

open Regroup (regroup State)

/-! ### The alphabet -/

/-- A character that `base32_decode_lower` takes. -/
def Base32Letter (c : UInt8) : Prop := (0x61 ≤ c ∧ c ≤ 0x7a) ∨ (0x32 ≤ c ∧ c ≤ 0x37)

instance : DecidablePred Base32Letter := fun _ => instDecidableOr

theorem base32Value_eq_none {c : UInt8} : base32Value c = none ↔ ¬ Base32Letter c := by
  unfold base32Value Base32Letter
  split_ifs <;> simp_all

/-- The letter of a value. -/
theorem base32Char_of_value {c : UInt8} {v : ℕ} (h : base32Value c = some v) : v < 32 ∧ base32Char v = c := by
  unfold base32Value at h
  split_ifs at h with hlower hdigit
  · cases h
    have hlo := UInt8.le_iff_toNat_le.mp hlower.1
    have hhi := UInt8.le_iff_toNat_le.mp hlower.2
    simp only [UInt8.reduceToNat] at hlo hhi
    refine ⟨by omega, ?_⟩
    rw [base32Char, if_pos (by omega), ← UInt8.toNat_inj, UInt8.toNat_ofNat_of_lt' (by rw [UInt8.size]; omega)]
    omega
  · cases h
    have hlo := UInt8.le_iff_toNat_le.mp hdigit.1
    have hhi := UInt8.le_iff_toNat_le.mp hdigit.2
    simp only [UInt8.reduceToNat] at hlo hhi
    refine ⟨by omega, ?_⟩
    rw [base32Char, if_neg (by omega), ← UInt8.toNat_inj, UInt8.toNat_ofNat_of_lt' (by rw [UInt8.size]; omega)]
    omega

theorem base32Value_char {v : ℕ} (h : v < 32) : base32Value (base32Char v) = some v := by
  revert v
  decide

theorem base32Char_mod (v : ℕ) : base32Char (v % 2 ^ 5) = base32Char v := by
  unfold base32Char
  rw [Nat.mod_mod_of_dvd v (by decide : 32 ∣ 2 ^ 5)]

/-! ### The coders -/

/-- The encoder regroups eight bits to five. -/
theorem foldl_put_eq (data : Bytes) (s : State) :
    data.foldl Base32State.put ⟨s.buffer, s.bits, s.out.map base32Char⟩ =
      let t := (data.map UInt8.toNat).foldl (State.put 64 8 5) s
      ⟨t.buffer, t.bits, t.out.map base32Char⟩ := by
  induction data generalizing s with
  | nil => rfl
  | cons byte data ih =>
    rw [List.foldl_cons, List.map_cons, List.foldl_cons, ← ih]
    congr 1
    simp only [Base32State.put, State.put, Regroup.topDigits, List.map_append, List.map_map]
    congr 2
    apply List.map_congr_left
    intro i _
    exact (base32Char_mod _).symm

theorem base32EncodeLower_eq {data : Bytes} (h : 5 ∣ 8 * data.length) :
    base32EncodeLower data = (regroup 64 8 5 (data.map UInt8.toNat)).map base32Char := by
  have hfold := foldl_put_eq data ⟨0, 0, []⟩
  have hsum := bits_foldl_put data ⟨0, 0, []⟩
  have hlt := @bits_foldl_put_lt data ⟨0, 0, []⟩ (by decide)
  simp only [List.length_nil] at hsum
  have hbits : (data.foldl Base32State.put ⟨0, 0, []⟩).bits = 0 := by omega
  unfold base32EncodeLower
  simp only
  rw [if_neg (by omega)]
  exact congrArg Base32State.out hfold

theorem shift_or_eq (buffer : ℕ) {val : ℕ} (h : val < 32) :
    (buffer * 32 % wordSize) ||| val = (buffer * 2 ^ 5 + val) % 2 ^ 64 := by
  have hmod : buffer * 32 % wordSize = 2 ^ 5 * (buffer % 2 ^ 59) := by
    unfold wordSize
    omega
  rw [hmod, ← Nat.two_pow_add_eq_or_of_lt h]
  omega

/-- The decoder regroups five bits to eight. -/
theorem base32DecodeFrom_map {vals : List ℕ} (hvals : ∀ v ∈ vals, v < 32) (buffer : ℕ) {bits : ℕ} (hbits : bits < 8)
    (out : List ℕ) :
    (base32DecodeFrom buffer bits (vals.map base32Char)).map (out.map UInt8.ofNat ++ ·) =
      some (((vals.foldl (State.put 64 5 8) ⟨buffer, bits, out⟩).out).map UInt8.ofNat) := by
  induction vals generalizing buffer bits out with
  | nil => simp [base32DecodeFrom]
  | cons val vals ih =>
    have hval := hvals val List.mem_cons_self
    have htail := fun v hv => hvals v (List.mem_cons_of_mem val hv)
    rw [List.map_cons, base32DecodeFrom, base32Value_char hval, Option.bind_some, shift_or_eq buffer hval,
      List.foldl_cons]
    simp only
    split_ifs with hfull
    · -- one byte is complete
      have hone : (bits + 5) / 8 = 1 := by omega
      have hrest : (bits + 5) % 8 = bits + 5 - 8 := by omega
      have hput : State.put 64 5 8 ⟨buffer, bits, out⟩ val = ⟨(buffer * 2 ^ 5 + val) % 2 ^ 64, bits + 5 - 8,
          out ++ [(buffer * 2 ^ 5 + val) % 2 ^ 64 / 2 ^ (bits + 5 - 8) % 2 ^ 8]⟩ := by
        simp [State.put, Regroup.topDigits, hone, hrest]
      rw [hput, ← ih htail _ (by omega), Option.map_map]
      congr 1
      funext rest
      simp only [Function.comp_apply, List.map_append, List.map_cons, List.map_nil, List.append_assoc,
        List.singleton_append]
      congr 2
      rw [← UInt8.toNat_inj, UInt8.toNat_ofNat', UInt8.toNat_ofNat', Nat.mod_mod]
    · have hnone : (bits + 5) / 8 = 0 := by omega
      have hrest : (bits + 5) % 8 = bits + 5 := by omega
      have hput : State.put 64 5 8 ⟨buffer, bits, out⟩ val =
          ⟨(buffer * 2 ^ 5 + val) % 2 ^ 64, bits + 5, out⟩ := by
        simp [State.put, Regroup.topDigits, hnone, hrest]
      rw [hput, ← ih htail _ (by omega)]

theorem base32DecodeLower_map {vals : List ℕ} (hvals : ∀ v ∈ vals, v < 32) :
    base32DecodeLower (vals.map base32Char) = (regroup 64 5 8 vals).map UInt8.ofNat := by
  have h := base32DecodeFrom_map hvals 0 (show 0 < 8 by decide) []
  simp only [List.map_nil, List.nil_append, Option.map_id'] at h
  rw [base32DecodeLower, h]
  rfl

/-- A text outside the alphabet has no bytes. -/
theorem base32DecodeFrom_letters {buffer bits : ℕ} {text data : Bytes}
    (h : base32DecodeFrom buffer bits text = some data) : ∀ c ∈ text, Base32Letter c := by
  induction text generalizing buffer bits data with
  | nil => intro c hc; cases hc
  | cons c cs ih =>
    rw [base32DecodeFrom, Option.bind_eq_some_iff] at h
    obtain ⟨val, hval, hrest⟩ := h
    intro d hd
    cases hd with
    | head =>
      by_contra hno
      rw [base32Value_eq_none.mpr hno] at hval
      cases hval
    | tail _ hd =>
      simp only at hrest
      split_ifs at hrest
      · obtain ⟨rest, hrest, -⟩ := Option.map_eq_some_iff.mp hrest
        exact ih hrest d hd
      · exact ih hrest d hd

/-- The values of a text. -/
theorem exists_vals {text : Bytes} (h : ∀ c ∈ text, Base32Letter c) :
    ∃ vals : List ℕ, (∀ v ∈ vals, v < 32) ∧ text = vals.map base32Char := by
  induction text with
  | nil => exact ⟨[], by simp, rfl⟩
  | cons c cs ih =>
    obtain ⟨vals, hvals, rfl⟩ := ih fun d hd => h d (List.mem_cons_of_mem c hd)
    have hsome : base32Value c ≠ none := fun hno => base32Value_eq_none.mp hno (h c List.mem_cons_self)
    obtain ⟨v, hv⟩ := Option.ne_none_iff_exists'.mp hsome
    obtain ⟨hlt, hchar⟩ := base32Char_of_value hv
    refine ⟨v :: vals, ?_, by rw [List.map_cons, hchar]⟩
    intro w hw
    cases hw with
    | head => exact hlt
    | tail _ hw => exact hvals w hw

theorem map_ofNat_toNat (data : Bytes) : (data.map UInt8.toNat).map UInt8.ofNat = data := by
  rw [List.map_map]
  conv_rhs => rw [← List.map_id data]
  exact List.map_congr_left fun x _ => UInt8.ofNat_toNat

theorem map_toNat_ofNat {ds : List ℕ} (h : ∀ d ∈ ds, d < 2 ^ 8) : (ds.map UInt8.ofNat).map UInt8.toNat = ds := by
  rw [List.map_map]
  conv_rhs => rw [← List.map_id ds]
  exact List.map_congr_left fun d hd => UInt8.toNat_ofNat_of_lt (h d hd)

/-- Decoding what was encoded. -/
theorem base32DecodeLower_encode {data : Bytes} (h : 5 ∣ 8 * data.length) :
    base32DecodeLower (base32EncodeLower data) = data := by
  have hlt : ∀ d ∈ data.map UInt8.toNat, d < 2 ^ 8 := Radix.map_toNat_lt data
  have heven : 5 ∣ 8 * (data.map UInt8.toNat).length := by rwa [List.length_map]
  obtain ⟨-, hvals, -⟩ := Regroup.regroup_spec (w := 64) (by decide) (by decide) hlt heven
  rw [base32EncodeLower_eq h, base32DecodeLower_map hvals,
    Regroup.regroup_regroup (by decide) (by decide) (by decide) hlt heven, map_ofNat_toNat]

/-- Encoding what was decoded. -/
theorem base32EncodeLower_decode {text : Bytes} (hletters : ∀ c ∈ text, Base32Letter c) (h : 8 ∣ 5 * text.length) :
    5 * text.length = 8 * (base32DecodeLower text).length ∧ base32EncodeLower (base32DecodeLower text) = text := by
  obtain ⟨vals, hvals, rfl⟩ := exists_vals hletters
  rw [List.length_map] at h ⊢
  obtain ⟨hlen, hbytes, -⟩ := Regroup.regroup_spec (w := 64) (by decide) (by decide) hvals h
  have hdata := base32DecodeLower_map hvals
  have hlength : (base32DecodeLower (vals.map base32Char)).length = (regroup 64 5 8 vals).length := by
    rw [hdata, List.length_map]
  refine ⟨by omega, ?_⟩
  rw [base32EncodeLower_eq (by omega), hdata, map_toNat_ofNat hbytes,
    Regroup.regroup_regroup (by decide) (by decide) (by decide) hvals h]

/-! ### The announcement -/

/-- The address of a v3 onion service. -/
structure OnionAddress where
  label : Bytes
  length_label : label.length = 56
  letters : ∀ c ∈ label, Base32Letter c

namespace OnionAddress

variable (a : OnionAddress)

/-- The label and `.onion`. -/
def text : CString where
  bytes := a.label ++ onionSuffix
  no_nul := by
    intro x hx
    rcases List.mem_append.mp hx with hlabel | hsuffix
    · rintro rfl
      exact absurd (a.letters 0 hlabel) (by decide)
    · rintro rfl
      exact absurd hsuffix (by decide)

/-- The 35 bytes of the key. -/
def key : Bytes := base32DecodeLower a.label

theorem length_key : a.key.length = 35 := by
  have h := (base32EncodeLower_decode a.letters (by rw [a.length_label]; decide)).1
  rw [a.length_label] at h
  unfold key
  omega

theorem encode_key : base32EncodeLower a.key = a.label :=
  (base32EncodeLower_decode a.letters (by rw [a.length_label]; decide)).2

/-- The row that is learned of the service. -/
def hostKey (port : ℕ) (stream : ℕ) : HostKey where
  ipAddress := a.text.bytes
  port := port
  stream := toInt32 stream
  length_ipAddress := by
    rw [text, List.length_append, a.length_label]
    decide

/-- What a node sends behind the header. -/
def announcement (port : ℕ) : Bytes := varintEncode port ++ (onioncatPrefix ++ a.key)

theorem buildOnionpeer_text (port stream expires : ℕ) : buildOnionpeer a.text port stream expires =
    some (commonHeader expires objectOnionpeer 1 stream ++ a.announcement port) := by
  have hlen : a.text.bytes.length = 56 + 6 := by
    rw [text, List.length_append, a.length_label]
    rfl
  have hdrop : a.text.bytes.drop 56 = onionSuffix := by
    rw [text, ← a.length_label, List.drop_left]
  have htake : a.text.bytes.take 56 = a.label := by
    rw [text, ← a.length_label, List.take_left]
  have hkey := a.length_key
  unfold key at hkey
  unfold buildOnionpeer
  rw [if_pos ⟨hlen, hdrop⟩, htake]
  simp only
  rw [if_pos hkey]
  rfl

/-- What a receiver reads from it. -/
theorem onionpeerLearned_announcement {port : ℕ} (hpos : 0 < port) (hport : port ≤ 65535) (stream : ℕ) (now : ℤ) :
    onionpeerLearned stream (a.announcement port) now =
      some ⟨a.hostKey port stream, 1, now, .onionpeerObj⟩ := by
  have hdecode : varintDecode (a.announcement port) = (varintSize port, port) :=
    varintDecode_varintEncode (lt_of_le_of_lt hport (by decide)) _
  have hsize : varintSize port ≠ 0 := by
    unfold varintSize
    split_ifs <;> decide
  have hhost : (a.announcement port).drop (varintSize port) = onioncatPrefix ++ a.key := by
    rw [announcement, ← length_varintEncode, List.drop_left]
  have hform : (onioncatPrefix ++ a.key).length = onioncatPrefix.length + 35 ∧
      (onioncatPrefix ++ a.key).take onioncatPrefix.length = onioncatPrefix :=
    ⟨by rw [List.length_append, a.length_key], List.take_left⟩
  unfold onionpeerLearned
  simp only [hdecode, hhost]
  rw [if_neg (by omega), dif_pos hform]
  simp only [List.drop_left, a.encode_key]
  rfl

end OnionAddress

theorem buildOnionpeer_eq_some {text : CString} {port stream expires : ℕ} {body : Bytes}
    (h : buildOnionpeer text port stream expires = some body) : ∃ a : OnionAddress, text = a.text := by
  unfold buildOnionpeer at h
  simp only at h
  split_ifs at h with hform hkey
  obtain ⟨hlen, hsuffix⟩ := hform
  have hsome : ∃ data, base32DecodeFrom 0 0 (text.bytes.take 56) = some data := by
    rw [← Option.ne_none_iff_exists']
    intro hnone
    rw [base32DecodeLower, hnone] at hkey
    cases hkey
  obtain ⟨data, hdata⟩ := hsome
  refine ⟨⟨text.bytes.take 56, by rw [List.length_take]; omega, base32DecodeFrom_letters hdata⟩, ?_⟩
  cases text with
  | mk bytes no_nul =>
    simp only [OnionAddress.text, CString.mk.injEq]
    simp only at hsuffix
    rw [← hsuffix, List.take_append_drop]

section

variable {R : Type*} (P : Ratings R)

/-- The object that announces an onion service is taken by its receiver, whose table then has exactly the address
and the port that were announced beside what it had; nothing else can be announced; and the two coders are
inverse to each other. -/
theorem onionpeer_round_trip (a : OnionAddress) {port stream expires : ℕ} (hpos : 1 ≤ port) (hport : port ≤ 65535)
    (hstream : stream < wordSize) (hexpires : expires < wordSize) :
    (∃ body, buildOnionpeer a.text port stream expires = some body ∧
      ∀ (nonce : ℕ) (b : Buf) (hosts : Hosts R) (now : ℤ), nonce < wordSize → b.bytes = packBe64 nonce ++ body →
        ∃ hdr, b.header = some hdr ∧ hdr.objectType = objectOnionpeer ∧ hdr.stream = stream ∧
          handleIncomingOnionpeer P hosts hdr.stream (b.bytes.drop hdr.headerLen) now =
            peerManagerUpsertLearned P hosts ⟨a.hostKey port stream, 1, now, .onionpeerObj⟩ ∧
          ∀ key, (handleIncomingOnionpeer P hosts hdr.stream (b.bytes.drop hdr.headerLen) now).find? key ≠ none ↔
            key = a.hostKey port stream ∨ hosts.find? key ≠ none) ∧
    (∀ (text : CString) (port stream expires : ℕ) (body : Bytes),
      buildOnionpeer text port stream expires = some body → ∃ a : OnionAddress, text = a.text) ∧
    (∀ key : Bytes, key.length = 35 → base32DecodeLower (base32EncodeLower key) = key) ∧
    base32EncodeLower (base32DecodeLower a.label) = a.label := by
  refine ⟨⟨_, a.buildOnionpeer_text port stream expires, ?_⟩, ?_, ?_, a.encode_key⟩
  · intro nonce b hosts now hnonce hb
    have hbytes : b.bytes = packBe64 nonce ++ (packBe64 expires ++ (Radix.beBytes 4 objectOnionpeer ++
        (varintEncode 1 ++ (varintEncode stream ++ a.announcement port)))) := by
      rw [hb, commonHeader]
      simp only [List.append_assoc]
    have hbody : b.bytes.drop (20 + varintSize 1 + varintSize stream) = a.announcement port := by
      have hlen : (packBe64 nonce ++ commonHeader expires objectOnionpeer 1 stream).length =
          20 + varintSize 1 + varintSize stream := by
        simp only [commonHeader, packBe64, List.length_append, Radix.length_beBytes, length_varintEncode]
        omega
      rw [hb, ← List.append_assoc, ← hlen, List.drop_left]
    have hlearns : handleIncomingOnionpeer P hosts stream (b.bytes.drop (20 + varintSize 1 + varintSize stream)) now =
        peerManagerUpsertLearned P hosts ⟨a.hostKey port stream, 1, now, .onionpeerObj⟩ := by
      rw [hbody, handleIncomingOnionpeer, a.onionpeerLearned_announcement hpos hport]
      rfl
    refine ⟨_, Buf.header_of_bytes hnonce hexpires (by decide) (by decide) hstream hbytes, rfl, rfl, hlearns,
      fun key => ?_⟩
    rw [hlearns]
    by_cases hkey : key = a.hostKey port stream
    · subst hkey
      exact iff_of_true (by rw [find?_upsertLearned_self]; exact Option.some_ne_none _) (.inl rfl)
    · rw [find?_upsertLearned_of_ne P hosts hkey, or_iff_right hkey]
  · intro text port stream expires body h
    exact buildOnionpeer_eq_some h
  · intro key hkey
    apply base32DecodeLower_encode
    rw [hkey]
    decide

/-- A service whose label has letters and digits. -/
def mixedLabel : Bytes := (List.replicate 8 [0x62, 0x37, 0x79, 0x32, 0x7a, 0x33, 0x6d]).flatten

theorem mixedLabel_letters : ∀ c ∈ mixedLabel, Base32Letter c := by
  intro c hc
  obtain ⟨letters, hletters, hc⟩ := List.mem_flatten.mp hc
  rw [List.eq_of_mem_replicate hletters] at hc
  simp only [List.mem_cons, List.not_mem_nil, or_false] at hc
  rcases hc with rfl | rfl | rfl | rfl | rfl | rfl | rfl <;> decide

def mixedAddress : OnionAddress := ⟨mixedLabel, rfl, mixedLabel_letters⟩

/-- It is announced at port 8444. -/
theorem onionpeer_round_trip_mixed :
    ∃ body, buildOnionpeer mixedAddress.text 8444 1 0 = some body ∧
      ∀ (nonce : ℕ) (b : Buf) (hosts : Hosts ℤ) (now : ℤ), nonce < wordSize → b.bytes = packBe64 nonce ++ body →
        ∃ hdr, b.header = some hdr ∧ hdr.objectType = objectOnionpeer ∧ hdr.stream = 1 ∧
          handleIncomingOnionpeer tenths hosts hdr.stream (b.bytes.drop hdr.headerLen) now =
            peerManagerUpsertLearned tenths hosts ⟨mixedAddress.hostKey 8444 1, 1, now, .onionpeerObj⟩ ∧
          ∀ key, (handleIncomingOnionpeer tenths hosts hdr.stream (b.bytes.drop hdr.headerLen) now).find? key ≠ none ↔
            key = mixedAddress.hostKey 8444 1 ∨ hosts.find? key ≠ none :=
  (onionpeer_round_trip tenths mixedAddress (by decide) (by decide) one_lt_wordSize (by decide)).1

end

end Bitmessage
