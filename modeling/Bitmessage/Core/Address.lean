import Bitmessage.Common.Base58
import Bitmessage.Core.Identity
import Mathlib.Data.List.TakeWhile

/-! Addresses. The encoder writes version, stream and the ripe with its leading zero
bytes shortened, appends a checksum and prints everything in base 58 behind `BM-`. It
accepts every version; the decoder accepts the versions 2 to 4 only, and for version 4
it wants at least four bytes of ripe. -/

namespace Bitmessage

open Radix

variable (H : Hashes)

/-- `BM_ADDRESS_STR_MAX`, the size of the buffers that hold an address string. -/
def addressStrMax : ℕ := 64

/-- What `snprintf` or `strncpy` leaves of a string in such a buffer. -/
def toAddressBuffer (s : Bytes) : Bytes := s.take (addressStrMax - 1)

/-- `bm_address_calc_ripe`. -/
def addressCalcRipe (signPub encPub : Bytes) : Bytes := H.ripemd160 (H.sha512 (signPub ++ encPub))

/-- `bm_address_derive_secret_and_tag`. -/
def addressDeriveSecretAndTag (version stream : ℕ) (ripe : Bytes) : Bytes × Bytes :=
  let full := H.sha512 (varintEncode version ++ varintEncode stream ++ ripe)
  (full.take 32, full.drop 32)

/-- The shortening of the ripe: at most two zero bytes for the versions 2 and 3, all of them for
version 4. -/
def trimRipe (version : ℕ) (ripe : Bytes) : Bytes :=
  if 2 ≤ version ∧ version < 4 then
    if ripe.take 2 = [0, 0] then ripe.drop 2 else if ripe.take 1 = [0] then ripe.drop 1 else ripe
  else if version = 4 then ripe.dropWhile (· = 0)
  else ripe

/-- Version, stream and ripe, and the checksum behind them. -/
def addressData (version stream : ℕ) (ripe : Bytes) : Bytes :=
  let data := varintEncode version ++ varintEncode stream ++ trimRipe version ripe
  data ++ (doubleSha512 H data).take 4

/-- `BM-`. -/
def addressMarker : Bytes := [0x42, 0x4d, 0x2d]

/-- `bm_address_encode`. -/
def addressEncode (version stream : ℕ) (ripe : Bytes) : Option Bytes :=
  if ripe.length ≠ ripeLen then none
  else (base58Encode (addressData H version stream ripe)).map fun b58 => addressMarker ++ b58

/-- The ripe with its leading zero bytes put back. -/
def padRipe (ripeData : Bytes) : Bytes := List.replicate (ripeLen - ripeData.length) 0 ++ ripeData

/-- The part of `bm_address_decode` behind the base 58 decoder. -/
def addressDecodeData (data : Bytes) : Option (ℕ × ℕ × Bytes) :=
  if data.length < 4 then none
  else
    let payload := data.take (data.length - 4)
    if (doubleSha512 H payload).take 4 ≠ data.drop (data.length - 4) then none
    else
      let (consumed, version) := varintDecode payload
      if consumed = 0 ∨ version < 2 ∨ version > 4 then none
      else
        let (consumed', stream) := varintDecode (payload.drop consumed)
        if consumed' = 0 then none
        else
          let ripeData := payload.drop (consumed + consumed')
          if version = 2 ∨ version = 3 then
            if ripeData.length > ripeLen then none else some (version, stream, padRipe ripeData)
          else if ripeData.length < 4 ∨ ripeData.length > 20 then none
          else if ripeData.head? = some 0 then none
          else some (version, stream, padRipe ripeData)

/-- `bm_address_decode`. -/
def addressDecode (address : Bytes) : Option (ℕ × ℕ × Bytes) :=
  let b58Part := if address.take 3 = addressMarker then address.drop 3 else address
  (base58Decode b58Part).bind fun data => addressDecodeData H data

/-! ### Round trip -/

theorem length_addressCalcRipe (signPub encPub : Bytes) : (addressCalcRipe H signPub encPub).length = ripeLen :=
  H.length_ripemd160 _

/-- What is decoded: behind the two varints stands the ripe, without zeros in front in version 4. -/
theorem addressDecodeData_eq_some {data : Bytes} {version stream : ℕ} {ripe : Bytes}
    (h : addressDecodeData H data = some (version, stream, ripe)) :
    ∃ consumed consumed' ripeData, (doubleSha512 H (data.take (data.length - 4))).take 4 = data.drop (data.length - 4) ∧
      varintDecode (data.take (data.length - 4)) = (consumed, version) ∧ consumed ≠ 0 ∧ 2 ≤ version ∧ version ≤ 4 ∧
      varintDecode ((data.take (data.length - 4)).drop consumed) = (consumed', stream) ∧ consumed' ≠ 0 ∧
      (data.take (data.length - 4)).drop (consumed + consumed') = ripeData ∧ ripeData.length ≤ ripeLen ∧
      (version = 4 → ripeData.head? ≠ some 0) ∧ ripe = padRipe ripeData := by
  unfold addressDecodeData at h
  simp only at h
  split_ifs at h with hlen hsum hversion hstream hold hlong hsize hzero
  all_goals
    obtain ⟨hconsumed, hlow⟩ := not_or.mp hversion
    cases h
    refine ⟨_, _, _, not_not.mp hsum, rfl, hconsumed, ?_, ?_, rfl, hstream, rfl, ?_, ?_, rfl⟩
  · omega
  · omega
  · exact not_lt.mp hlong
  · omega
  · omega
  · omega
  · exact not_lt.mp (not_or.mp hsize).2
  · exact fun _ => hzero

/-- Only the versions 2 to 4 are decoded. -/
theorem addressDecode_version {address : Bytes} {version stream : ℕ} {ripe : Bytes}
    (h : addressDecode H address = some (version, stream, ripe)) : 2 ≤ version ∧ version ≤ 4 := by
  obtain ⟨data, -, hd⟩ := Option.bind_eq_some_iff.mp h
  obtain ⟨_, _, _, -, -, -, hlow, hhigh, -⟩ := addressDecodeData_eq_some H hd
  exact ⟨hlow, hhigh⟩

/-- The stream is a 64-bit number. -/
theorem addressDecode_stream_lt {address : Bytes} {version stream : ℕ} {ripe : Bytes}
    (h : addressDecode H address = some (version, stream, ripe)) : stream < wordSize := by
  obtain ⟨data, -, hd⟩ := Option.bind_eq_some_iff.mp h
  obtain ⟨consumed, _, _, -, -, -, -, -, hstream, -⟩ := addressDecodeData_eq_some H hd
  have hlt := varintDecode_lt ((data.take (data.length - 4)).drop consumed)
  rwa [hstream] at hlt

/-- A byte string without its leading zero bytes, with as many put back. -/
theorem zeros_append_dropWhile (bs : Bytes) :
    List.replicate (bs.length - (bs.dropWhile (· = 0)).length) 0 ++ bs.dropWhile (· = 0) = bs := by
  have hsplit := List.takeWhile_append_dropWhile (p := fun x : UInt8 => decide (x = 0)) (l := bs)
  have hlen := congrArg List.length hsplit
  rw [List.length_append] at hlen
  have hzeros : bs.takeWhile (· = 0) = List.replicate (bs.takeWhile (· = 0)).length 0 :=
    List.eq_replicate_iff.mpr ⟨rfl, fun x hx => by simpa using List.mem_takeWhile_imp hx⟩
  rw [show bs.length - (bs.dropWhile (· = 0)).length = (bs.takeWhile (· = 0)).length by omega, ← hzeros]
  exact hsplit

theorem padRipe_trimRipe (version : ℕ) {ripe : Bytes} (hr : ripe.length = ripeLen) :
    padRipe (trimRipe version ripe) = ripe := by
  have hdrop : ∀ k, k ≤ ripe.length → ripe.take k = List.replicate k 0 → padRipe (ripe.drop k) = ripe := by
    intro k hk htake
    rw [padRipe, List.length_drop, ← hr, show ripe.length - (ripe.length - k) = k by omega, ← htake,
      List.take_append_drop]
  unfold trimRipe
  split_ifs with h₁ h₂ h₃ h₄
  · exact hdrop 2 (by rw [hr]; decide) h₂
  · exact hdrop 1 (by rw [hr]; decide) h₃
  · exact hdrop 0 (Nat.zero_le _) rfl
  · rw [padRipe, ← hr]
    exact zeros_append_dropWhile ripe
  · exact hdrop 0 (Nat.zero_le _) rfl

theorem length_trimRipe_le (version : ℕ) (ripe : Bytes) : (trimRipe version ripe).length ≤ ripe.length := by
  unfold trimRipe
  split_ifs
  · exact (List.drop_sublist 2 ripe).length_le
  · exact (List.drop_sublist 1 ripe).length_le
  · exact le_rfl
  · exact (List.dropWhile_sublist _).length_le
  · exact le_rfl

theorem trimRipe_four (ripe : Bytes) : trimRipe 4 ripe = ripe.dropWhile (· = 0) := by
  simp [trimRipe]

theorem trimRipe_four_head (ripe : Bytes) : (trimRipe 4 ripe).head? ≠ some 0 := by
  rw [trimRipe_four]
  induction ripe with
  | nil => simp
  | cons x ripe ih => by_cases h : x = 0 <;> simp [h, ih]

section

variable {H}

theorem length_checksum (data : Bytes) : ((doubleSha512 H data).take 4).length = 4 := by
  simp [doubleSha512, H.length_sha512]

/-- The decoder behind base 58, on the encoder's data. -/
theorem addressDecodeData_addressData {version stream : ℕ} {ripe : Bytes} (hv : version < wordSize)
    (hs : stream < wordSize) (hr : ripe.length = ripeLen) :
    addressDecodeData H (addressData H version stream ripe) =
      if version < 2 ∨ version > 4 ∨ version = 4 ∧ (ripe.dropWhile (· = 0)).length < 4 then none
      else some (version, stream, ripe) := by
  set payload := varintEncode version ++ varintEncode stream ++ trimRipe version ripe with hp
  have hdata : addressData H version stream ripe = payload ++ (doubleSha512 H payload).take 4 := rfl
  have hlen : (addressData H version stream ripe).length = payload.length + 4 := by
    rw [hdata, List.length_append, length_checksum]
  have htake : (addressData H version stream ripe).take (payload.length + 4 - 4) = payload := by
    rw [hdata, Nat.add_sub_cancel, List.take_left]
  have hdrop : (addressData H version stream ripe).drop (payload.length + 4 - 4) =
      (doubleSha512 H payload).take 4 := by
    rw [hdata, Nat.add_sub_cancel, List.drop_left]
  have hdec : varintDecode payload = (varintSize version, version) := by
    rw [hp, List.append_assoc]
    exact varintDecode_varintEncode hv _
  have hrest : payload.drop (varintSize version) = varintEncode stream ++ trimRipe version ripe := by
    rw [hp, List.append_assoc, ← length_varintEncode, List.drop_left]
  have hdec' : varintDecode (payload.drop (varintSize version)) = (varintSize stream, stream) := by
    rw [hrest]
    exact varintDecode_varintEncode hs _
  have hripe : payload.drop (varintSize version + varintSize stream) = trimRipe version ripe := by
    rw [← List.drop_drop, hrest, ← length_varintEncode, List.drop_left]
  have hsize : ∀ v, varintSize v ≠ 0 := fun v => by
    unfold varintSize
    split_ifs <;> omega
  have hle := length_trimRipe_le version ripe
  have hpad := padRipe_trimRipe version hr
  rw [hr] at hle
  unfold addressDecodeData
  simp only [hlen, htake, hdrop, hdec, hdec', hripe, hsize, hpad, false_or, if_false, ne_eq, not_true_eq_false,
    not_lt.mpr hle, gt_iff_lt, show ¬ payload.length + 4 < 4 by omega]
  by_cases hrange : version < 2 ∨ 4 < version
  · have : version < 2 ∨ 4 < version ∨ version = 4 ∧ (ripe.dropWhile (· = 0)).length < 4 := by tauto
    simp only [hrange, this, if_true]
  · by_cases h4 : version = 4
    · subst h4
      have hle' : (ripe.dropWhile (· = 0)).length ≤ 20 := by rw [← trimRipe_four]; exact hle
      have hh := trimRipe_four_head ripe
      rw [trimRipe_four] at hh ⊢
      simp [hh, not_lt.mpr hle']
    · have h23 : version = 2 ∨ version = 3 := by omega
      simp only [hrange, h23, h4, if_true, if_false, false_and, or_false]

theorem varintEncode_head_ne_zero {v : ℕ} (hpos : 0 < v) : (varintEncode v).head? ≠ some 0 := by
  unfold varintEncode
  split_ifs with h
  · simp only [List.head?_cons, ne_eq, Option.some.injEq]
    intro h0
    have := congrArg UInt8.toNat h0
    rw [UInt8.toNat_ofNat', Nat.mod_eq_of_lt (by omega)] at this
    exact hpos.ne' this
  all_goals simp

theorem varintEncode_ne_nil (v : ℕ) : varintEncode v ≠ [] := by
  intro h
  have := length_varintEncode v
  rw [h] at this
  unfold varintSize at this
  split_ifs at this

theorem addressData_ne_nil (version stream : ℕ) (ripe : Bytes) : addressData H version stream ripe ≠ [] := by
  simp [addressData, varintEncode_ne_nil]

theorem addressData_head {version : ℕ} (hpos : 0 < version) (stream : ℕ) (ripe : Bytes) :
    (addressData H version stream ripe).head? ≠ some 0 := by
  have h := varintEncode_head_ne_zero hpos
  obtain ⟨x, xs, hx⟩ := List.exists_cons_of_ne_nil (varintEncode_ne_nil version)
  simp only [addressData, hx, List.cons_append, List.head?_cons] at h ⊢
  exact h

/-- The decoder on the encoder's string. -/
theorem addressDecode_addressEncode {version stream : ℕ} {ripe : Bytes} (hpos : 0 < version)
    (hv : version < wordSize) (hs : stream < wordSize) (hr : ripe.length = ripeLen) :
    ∃ address, addressEncode H version stream ripe = some address ∧ address.length ≤ 61 ∧
      addressDecode H address =
        if version < 2 ∨ version > 4 ∨ version = 4 ∧ (ripe.dropWhile (· = 0)).length < 4 then none
        else some (version, stream, ripe) := by
  have hne := addressData_ne_nil (H := H) version stream ripe
  have hhead := addressData_head (H := H) hpos stream ripe
  have hlen : (addressData H version stream ripe).length ≤ 42 := by
    have := varintSize_le version
    have := varintSize_le stream
    have := length_trimRipe_le version ripe
    unfold ripeLen at hr
    simp only [addressData, List.length_append, length_varintEncode, length_checksum]
    omega
  refine ⟨addressMarker ++ (digits 58 (beNat (addressData H version stream ripe))).map
    fun d => base58Alphabet.getD d 0, ?_, ?_, ?_⟩
  · simp [addressEncode, hr, base58Encode_eq hne hhead]
  · have := length_digits58_le (k := 58) hlen (by norm_num)
    simp only [List.length_append, List.length_map, addressMarker, List.length_cons, List.length_nil]
    omega
  · have hmark : ∀ rest : Bytes, (addressMarker ++ rest).take 3 = addressMarker ∧
        (addressMarker ++ rest).drop 3 = rest := fun rest => ⟨rfl, rfl⟩
    simp only [addressDecode, hmark, if_true, base58Decode_digits hne hhead, Option.bind_some]
    exact addressDecodeData_addressData hv hs hr

end

end Bitmessage
