import Bitmessage.Core.StoredIdentity
import Bitmessage.Pq.Incoming

/-! The texts of an address. A decoder reads the base 58 digits as one number, so digits of no
value may stand in front, and takes a varint in each of its widths. How often and how wide is the
form of a text. Version, stream and hash are written once in every form, and the encoder writes
the shortest. -/

namespace Bitmessage

open Radix

/-! ### Digits and varints -/

/-- What stands behind `BM-`, if that is there. -/
def addressBody (address : Bytes) : Bytes := if address.take 3 = addressMarker then address.drop 3 else address

/-- The digits of no value in front. -/
def leadingOnes (body : Bytes) : ℕ := (body.takeWhile (· = 49)).length

/-- The digits of a byte string that does not begin with zero. -/
def base58Text (data : Bytes) : Bytes := (digits 58 (beNat data)).map fun d => base58Alphabet.getD d 0

/-- `bm_varint_encode` in a given width. -/
def varintForm (width v : ℕ) : Bytes :=
  if width = 1 then [UInt8.ofNat v]
  else if width = 3 then 0xfd :: beBytes 2 v
  else if width = 5 then 0xfe :: beBytes 4 v
  else 0xff :: beBytes 8 v

theorem idxOf_alphabet_eq_zero (c : UInt8) : base58Alphabet.idxOf c = 0 ↔ c = 49 := by
  rw [base58Alphabet, List.idxOf_cons]
  by_cases h : c = 49
  · simp [h]
  · have hbeq : ((49 : UInt8) == c) = false := by simpa using Ne.symm h
    rw [hbeq, cond_false]
    exact iff_of_false (Nat.succ_ne_zero _) h

/-- A text is the digits of what it decodes to, behind its ones. -/
theorem base58Decode_eq_some {body data : Bytes} (h : base58Decode body = some data) :
    body = List.replicate (leadingOnes body) 49 ++ base58Text data := by
  unfold base58Decode at h
  split_ifs at h with hnil hall
  obtain rfl := Option.some.inj h
  set ds := body.map fun c => base58Alphabet.idxOf c with hds
  have hmem : ∀ c ∈ body, c ∈ base58Alphabet := fun c hc => by simpa using List.all_eq_true.mp hall c hc
  have hlt : ∀ d ∈ ds, d < 58 := by
    intro d hd
    obtain ⟨c, hc, rfl⟩ := List.mem_map.mp hd
    exact List.idxOf_lt_length_of_mem (hmem c hc)
  have hvalue : beNat ((digits 256 (value 58 ds)).map UInt8.ofNat) = value 58 ds := by
    rw [beNat, List.map_map]
    have hid : (digits 256 (value 58 ds)).map (UInt8.toNat ∘ UInt8.ofNat) = digits 256 (value 58 ds) := by
      conv_rhs => rw [← List.map_id (digits 256 (value 58 ds))]
      refine List.map_congr_left fun d hd => ?_
      have : d < 256 := Nat.digits_lt_base (by norm_num) (List.mem_reverse.mp hd)
      rw [Function.comp_apply, UInt8.toNat_ofNat', Nat.mod_eq_of_lt this, id]
    rw [hid, value_digits]
  have hdigits : digits 58 (value 58 ds) = ds.dropWhile (· = 0) := by
    rw [← value_dropWhile_zero, digits_value (by norm_num) _ (dropWhile_zero_head ds)]
    exact fun d hd => hlt d ((List.dropWhile_sublist _).subset hd)
  have hdrop : ds.dropWhile (· = 0) = (body.dropWhile (· = 49)).map fun c => base58Alphabet.idxOf c := by
    rw [hds, List.dropWhile_map]
    congr 2
    funext c
    simp only [Function.comp_apply, idxOf_alphabet_eq_zero]
  have hback : (ds.dropWhile (· = 0)).map (fun d => base58Alphabet.getD d 0) = body.dropWhile (· = 49) := by
    rw [hdrop, List.map_map]
    conv_rhs => rw [← List.map_id (body.dropWhile (· = 49))]
    refine List.map_congr_left fun c hc => ?_
    have hc := hmem c ((List.dropWhile_sublist _).subset hc)
    rw [Function.comp_apply, List.getD_eq_getElem?_getD, List.getElem?_eq_getElem (List.idxOf_lt_length_of_mem hc),
      Option.getD_some, List.getElem_idxOf, id]
  have hones : body.takeWhile (· = 49) = List.replicate (leadingOnes body) 49 :=
    List.eq_replicate_iff.mpr ⟨rfl, fun c hc => by simpa using List.mem_takeWhile_imp hc⟩
  rw [base58Text, hvalue, hdigits, hback, ← hones, List.takeWhile_append_dropWhile]

theorem beBytes_beNat (bs : Bytes) : beBytes bs.length (beNat bs) = bs := by
  induction bs with
  | nil => rfl
  | cons x bs ih =>
    have hlt := beNat_lt bs
    have hpos : 0 < 256 ^ bs.length := Nat.pow_pos (by norm_num)
    rw [List.length_cons, beBytes, beNat_cons]
    have hdiv : (x.toNat * 256 ^ bs.length + beNat bs) / 256 ^ bs.length = x.toNat := by
      rw [Nat.mul_comm, Nat.mul_add_div hpos, Nat.div_eq_of_lt hlt, Nat.add_zero]
    have hmod : beBytes bs.length (x.toNat * 256 ^ bs.length + beNat bs) = beBytes bs.length (beNat bs) := by
      rw [← beBytes_mod le_rfl, Nat.mul_add_mod_self_right, Nat.mod_eq_of_lt hlt]
    rw [hdiv, hmod, ih, UInt8.ofNat_toNat]

/-- The bytes that a varint was read from. -/
theorem take_varintDecode {data : Bytes} (h : (varintDecode data).1 ≠ 0) :
    data.take (varintDecode data).1 = varintForm (varintDecode data).1 (varintDecode data).2 := by
  cases data with
  | nil => exact absurd rfl h
  | cons x data =>
    simp only [varintDecode] at h ⊢
    split_ifs at h ⊢ with hx hlen
    · simp [varintForm]
    · simp at h
    · have hread (n : ℕ) (hn : n ≤ data.length) : beBytes n (beNat (data.take n)) = data.take n := by
        have := beBytes_beNat (data.take n)
        rwa [List.length_take, Nat.min_eq_left hn] at this
      have hle := not_lt.mp hlen
      rw [Nat.add_comm, List.take_succ_cons]
      unfold varintWidth at hle ⊢
      split_ifs at hle ⊢ with h₁ h₂
      · simp [varintForm, hread _ hle, h₁]
      · simp [varintForm, hread _ hle, h₂]
      · have hff : x = 0xff := by
          have hlt := x.toNat_lt
          rw [← UInt8.toNat_inj] at h₁ h₂ ⊢
          rw [UInt8.lt_iff_toNat_lt] at hx
          have h₀ : (0xfd : UInt8).toNat = 253 := rfl
          have h₃ : (0xfe : UInt8).toNat = 254 := rfl
          have h₄ : (0xff : UInt8).toNat = 255 := rfl
          omega
        simp [varintForm, hread _ hle, hff]

theorem varintForm_varintSize (v : ℕ) : varintForm (varintSize v) v = varintEncode v := by
  unfold varintForm varintSize varintEncode
  split_ifs <;> first | rfl | omega

/-! ### The form of a text -/

/-- How a text writes what it says. -/
structure AddressForm where
  ones : ℕ
  versionWidth : ℕ
  streamWidth : ℕ
  deriving DecidableEq

/-- The form of an address. -/
def addressForm (address : Bytes) : AddressForm :=
  let data := (base58Decode (addressBody address)).getD []
  let payload := data.take (data.length - 4)
  ⟨leadingOnes (addressBody address), (varintDecode payload).1,
    (varintDecode (payload.drop (varintDecode payload).1)).1⟩

/-- The form that the encoders write. -/
def shortestForm (version stream : ℕ) : AddressForm := ⟨0, varintSize version, varintSize stream⟩

section

variable (H : Hashes)

/-- Everything in front of the checksum; the zero bytes at the front of the hash are dropped. -/
def formPayload (form : AddressForm) (version stream : ℕ) (hash : Bytes) : Bytes :=
  varintForm form.versionWidth version ++ varintForm form.streamWidth stream ++ hash.dropWhile (· = 0)

/-- The text in a form. -/
def addressText (form : AddressForm) (version stream : ℕ) (hash : Bytes) : Bytes :=
  let payload := formPayload form version stream hash
  List.replicate form.ones 49 ++ base58Text (payload ++ (doubleSha512 H payload).take 4)

variable {H} {address address' data hash : Bytes} {version stream : ℕ}

/-- A text whose checksum is right, and whose varints are complete, is written in its form. -/
theorem addressBody_eq_addressText (hdata : base58Decode (addressBody address) = some data)
    (hsum : (doubleSha512 H (data.take (data.length - 4))).take 4 = data.drop (data.length - 4))
    {consumed consumed' : ℕ} (hversion : varintDecode (data.take (data.length - 4)) = (consumed, version))
    (hstream : varintDecode ((data.take (data.length - 4)).drop consumed) = (consumed', stream))
    (hc : consumed ≠ 0) (hc' : consumed' ≠ 0)
    (hhash : (data.take (data.length - 4)).drop (consumed + consumed') = hash.dropWhile (· = 0)) :
    addressBody address = addressText H (addressForm address) version stream hash := by
  have hform : addressForm address = ⟨leadingOnes (addressBody address), consumed, consumed'⟩ := by
    simp only [addressForm, hdata, Option.getD_some, hversion, hstream]
  have htake : (data.take (data.length - 4)).take consumed = varintForm consumed version := by
    have h := @take_varintDecode (data.take (data.length - 4)) (by rw [hversion]; exact hc)
    rwa [hversion] at h
  have htake' : ((data.take (data.length - 4)).drop consumed).take consumed' = varintForm consumed' stream := by
    have h := @take_varintDecode ((data.take (data.length - 4)).drop consumed) (by rw [hstream]; exact hc')
    rwa [hstream] at h
  have hpayload : formPayload (addressForm address) version stream hash = data.take (data.length - 4) := by
    rw [formPayload, hform, ← htake, ← htake', ← hhash, ← List.drop_drop, List.append_assoc, List.take_append_drop,
      List.take_append_drop]
  rw [addressText, hpayload, hsum, List.take_append_drop, hform]
  exact base58Decode_eq_some hdata

theorem dropWhile_zeros {bs : Bytes} (h : bs.head? ≠ some 0) (n : ℕ) :
    (List.replicate n 0 ++ bs).dropWhile (· = 0) = bs := by
  induction n with
  | zero =>
    cases bs with
    | nil => rfl
    | cons x bs => simp_all
  | succ n ih => simpa [List.replicate_succ] using ih

theorem addressDecode_four_eq_some {ripe : Bytes} (h : addressDecode H address = some (4, stream, ripe)) :
    addressBody address = addressText H (addressForm address) 4 stream ripe := by
  obtain ⟨data, hdata, hd⟩ := Option.bind_eq_some_iff.mp h
  obtain ⟨consumed, consumed', ripeData, hsum, hversion, hc, -, -, hstream, hc', hrest, -, hzero, rfl⟩ :=
    addressDecodeData_eq_some H hd
  refine addressBody_eq_addressText hdata hsum hversion hstream hc hc' ?_
  rw [hrest, padRipe, dropWhile_zeros (hzero rfl)]

theorem addressDecode_ripe_length {ripe : Bytes} (h : addressDecode H address = some (version, stream, ripe)) :
    ripe.length = ripeLen := by
  obtain ⟨data, -, hd⟩ := Option.bind_eq_some_iff.mp h
  obtain ⟨_, _, ripeData, -, -, -, -, -, -, -, -, hshort, -, rfl⟩ := addressDecodeData_eq_some H hd
  rw [padRipe, List.length_append, List.length_replicate]
  omega

theorem pqv5AddressDecode_body {id : Bytes} (h : pqv5AddressDecode H address = some (version, stream, id)) :
    addressBody address = addressText H (addressForm address) version stream id := by
  obtain ⟨data, hdata, hd⟩ := Option.bind_eq_some_iff.mp h
  unfold pqv5AddressDecodeData at hd
  simp only at hd
  split_ifs at hd with hlen hsum hversion hstream hlong hzero
  simp only [Option.some.injEq, Prod.mk.injEq] at hd
  obtain ⟨hv, hs, rfl⟩ := hd
  exact addressBody_eq_addressText hdata (not_not.mp hsum) (Prod.ext rfl hv) (Prod.ext rfl hs)
    (not_or.mp hversion).1 hstream (dropWhile_zeros hzero _).symm

theorem pqv5AddressDecode_stream_lt {id : Bytes} (h : pqv5AddressDecode H address = some (version, stream, id)) :
    stream < wordSize := by
  obtain ⟨data, -, hd⟩ := Option.bind_eq_some_iff.mp h
  unfold pqv5AddressDecodeData at hd
  simp only at hd
  split_ifs at hd
  cases hd
  exact varintDecode_lt _

/-! ### The encoders -/

theorem addressBody_marker (body : Bytes) : addressBody (addressMarker ++ body) = body := rfl

theorem addressForm_congr (h : addressBody address = addressBody address') :
    addressForm address = addressForm address' := by
  unfold addressForm
  rw [h]

theorem formPayload_shortest : formPayload (shortestForm version stream) version stream hash =
    varintEncode version ++ varintEncode stream ++ hash.dropWhile (· = 0) := by
  unfold formPayload shortestForm
  rw [varintForm_varintSize, varintForm_varintSize]

/-- The data of an address whose version is not zero does not begin with a zero byte. -/
theorem shortest_data_head (hversion : 0 < version) (rest : Bytes) :
    formPayload (shortestForm version stream) version stream hash ++ rest ≠ [] ∧
      (formPayload (shortestForm version stream) version stream hash ++ rest).head? ≠ some 0 := by
  have h := varintEncode_head_ne_zero hversion
  obtain ⟨x, xs, hx⟩ := List.exists_cons_of_ne_nil (varintEncode_ne_nil version)
  rw [hx] at h
  rw [formPayload_shortest, hx]
  exact ⟨by simp, by simpa using h⟩

theorem addressText_shortest : addressText H (shortestForm version stream) version stream hash =
    base58Text (formPayload (shortestForm version stream) version stream hash ++
      (doubleSha512 H (formPayload (shortestForm version stream) version stream hash)).take 4) := by
  unfold addressText
  exact List.nil_append _

/-- What an encoder writes is in the shortest form. -/
theorem addressForm_shortest (hversion : 0 < version) (hv : version < wordSize) (hs : stream < wordSize) :
    addressForm (addressMarker ++ addressText H (shortestForm version stream) version stream hash) =
      shortestForm version stream := by
  set payload := formPayload (shortestForm version stream) version stream hash with hp
  set data := payload ++ (doubleSha512 H payload).take 4 with hd
  obtain ⟨hne, hhead⟩ := @shortest_data_head hash _ stream hversion ((doubleSha512 H payload).take 4)
  have htext : addressText H (shortestForm version stream) version stream hash = base58Text data := addressText_shortest
  have hdecode : base58Decode (base58Text data) = some data := base58Decode_digits hne hhead
  have hones : leadingOnes (base58Text data) = 0 := by
    have h := congrArg List.length (base58Decode_eq_some hdecode)
    rw [List.length_append, List.length_replicate] at h
    omega
  have htake : data.take (data.length - 4) = payload := by
    rw [hd, List.length_append, length_checksum, Nat.add_sub_cancel, List.take_left]
  have hpayload : payload = varintEncode version ++ (varintEncode stream ++ hash.dropWhile (· = 0)) := by
    rw [hp, formPayload_shortest, List.append_assoc]
  have hversion : varintDecode payload = (varintSize version, version) := by
    rw [hpayload]
    exact varintDecode_varintEncode hv _
  have hstream : varintDecode (payload.drop (varintSize version)) = (varintSize stream, stream) := by
    rw [hpayload, ← length_varintEncode, List.drop_left]
    exact varintDecode_varintEncode hs _
  simp only [addressForm, addressBody_marker, htext, hdecode, hones, Option.getD_some, htake, hversion, hstream]
  rfl

theorem addressEncode_four (stream : ℕ) {ripe : Bytes} (hr : ripe.length = ripeLen) :
    addressEncode H 4 stream ripe = some (addressMarker ++ addressText H (shortestForm 4 stream) 4 stream ripe) := by
  have hdata : addressData H 4 stream ripe = formPayload (shortestForm 4 stream) 4 stream ripe ++
      (doubleSha512 H (formPayload (shortestForm 4 stream) 4 stream ripe)).take 4 := by
    rw [formPayload_shortest, ← trimRipe_four]
    rfl
  obtain ⟨hne, hhead⟩ := @shortest_data_head ripe 4 stream (by norm_num)
    ((doubleSha512 H (formPayload (shortestForm 4 stream) 4 stream ripe)).take 4)
  rw [addressEncode, if_neg (not_not.mpr hr), hdata, base58Encode_eq hne hhead, Option.map_some, addressText_shortest,
    base58Text]

theorem pqv5AddressEncode_eq (hversion : 0 < version) (stream : ℕ) (id : Bytes) :
    pqv5AddressEncode H version stream id =
      some (addressMarker ++ addressText H (shortestForm version stream) version stream id) := by
  obtain ⟨hne, hhead⟩ := @shortest_data_head id _ stream hversion
    ((doubleSha512 H (formPayload (shortestForm version stream) version stream id)).take 4)
  rw [formPayload_shortest] at hne hhead
  rw [pqv5AddressEncode, base58Encode_eq hne hhead, Option.map_some]
  unfold addressText
  rw [formPayload_shortest]
  rfl

/-- Two texts that say the same are equal exactly when they are in the same form. -/
theorem addressBody_eq_iff (h : addressBody address = addressText H (addressForm address) version stream hash)
    (h' : addressBody address' = addressText H (addressForm address') version stream hash) :
    addressBody address = addressBody address' ↔ addressForm address = addressForm address' := by
  constructor
  · exact addressForm_congr
  · intro hform
    rw [h, h', hform]

/-- A text is that of the encoder exactly when it is in the shortest form. -/
theorem shortest_eq_iff (h : addressBody address = addressText H (addressForm address) version stream hash)
    (hversion : 0 < version) (hv : version < wordSize) (hs : stream < wordSize) :
    some (addressMarker ++ addressText H (shortestForm version stream) version stream hash) =
      some (addressMarker ++ addressBody address) ↔ addressForm address = shortestForm version stream := by
  rw [Option.some.injEq, List.append_cancel_left_eq]
  constructor
  · intro htext
    rw [← @addressForm_shortest H hash _ _ hversion hv hs]
    apply addressForm_congr
    rw [addressBody_marker, htext]
  · intro hform
    rw [h, hform]

end

/-- An accepted text is the one that the encoder writes exactly when it has no ones in front and its
varints are short, and two texts for one address are equal exactly when they are in the same form. -/
theorem address_canonical_iff (H : Hashes) :
    (∀ address stream ripe, addressDecode H address = some (4, stream, ripe) →
      (addressEncode H 4 stream ripe = some (addressMarker ++ addressBody address) ↔
        addressForm address = shortestForm 4 stream)) ∧
    (∀ address address' stream ripe, addressDecode H address = some (4, stream, ripe) →
      addressDecode H address' = some (4, stream, ripe) →
      (addressBody address = addressBody address' ↔ addressForm address = addressForm address')) ∧
    (∀ address stream id, pqv5AddressDecode H address = some (5, stream, id) →
      (pqv5AddressEncode H 5 stream id = some (addressMarker ++ addressBody address) ↔
        addressForm address = shortestForm 5 stream)) ∧
    ∀ address address' stream id, pqv5AddressDecode H address = some (5, stream, id) →
      pqv5AddressDecode H address' = some (5, stream, id) →
      (addressBody address = addressBody address' ↔ addressForm address = addressForm address') := by
  refine ⟨?_, ?_, ?_, ?_⟩
  · intro address stream ripe h
    rw [addressEncode_four stream (addressDecode_ripe_length h)]
    exact shortest_eq_iff (addressDecode_four_eq_some h) (by norm_num) (by norm_num) (addressDecode_stream_lt H h)
  · intro address address' stream ripe h h'
    exact addressBody_eq_iff (addressDecode_four_eq_some h) (addressDecode_four_eq_some h')
  · intro address stream id h
    rw [pqv5AddressEncode_eq (by norm_num)]
    exact shortest_eq_iff (pqv5AddressDecode_body h) (by norm_num) (by norm_num) (pqv5AddressDecode_stream_lt h)
  · intro address address' stream id h h'
    exact addressBody_eq_iff (pqv5AddressDecode_body h) (pqv5AddressDecode_body h')

/-- The id of a version 5 address. -/
def oldId : Bytes := List.replicate pqv5IdLen 1

/-- A one in front of the digits, or three bytes for the version: the address is accepted and is not
the text of the encoder. -/
theorem old_address_respelled :
    let one : AddressForm := ⟨1, 1, 1⟩
    let wide : AddressForm := ⟨0, 3, 1⟩
    let text (form : AddressForm) := addressText prefixHashes form 4 1 oldRipe
    let text5 (form : AddressForm) := addressText prefixHashes form 5 1 oldId
    addressEncode prefixHashes 4 1 oldRipe = some oldAddress ∧
      (∀ form ∈ [one, wide], addressDecode prefixHashes (addressMarker ++ text form) = some (4, 1, oldRipe) ∧
        addressMarker ++ text form ≠ oldAddress) ∧
      text one ≠ text wide ∧
      ∀ form ∈ [one, wide], pqv5AddressDecode prefixHashes (addressMarker ++ text5 form) = some (5, 1, oldId) ∧
        pqv5AddressEncode prefixHashes 5 1 oldId ≠ some (addressMarker ++ text5 form) := by
  decide +kernel

/-- The address of the encoder is in its shortest form. -/
theorem old_address_canonical :
    (addressEncode prefixHashes 4 1 oldRipe = some (addressMarker ++ addressBody oldAddress) ↔
      addressForm oldAddress = shortestForm 4 1) ∧ addressForm oldAddress = ⟨0, 1, 1⟩ :=
  ⟨(address_canonical_iff prefixHashes).1 oldAddress 1 oldRipe (by decide +kernel), by decide +kernel⟩

/-! ### Round trips -/

/-- The size of the buffer in `bm_pqv5_address_encode`. -/
def pqv5AddressBufferLen : ℕ := 16 + pqv5IdLen + 4

section

variable {H : Hashes} {stream : ℕ}

variable (H) in
/-- What `bm_pqv5_address_encode` writes to its buffer, field by field. -/
def pqv5AddressFields (version stream : ℕ) (id : Bytes) : List Bytes :=
  let trimmed := id.dropWhile (· = 0)
  [varintEncode version, varintEncode stream, trimmed,
    (doubleSha512 H (varintEncode version ++ varintEncode stream ++ trimmed)).take 4]

/-- With version 5 the fields fit into the buffer, and what is printed is what was written there. -/
theorem pqv5AddressFields_fit {id : Bytes} (hid : id.length = pqv5IdLen) {area : Bytes}
    (harea : area.length = pqv5AddressBufferLen) :
    let w := (BoundedWriter.start area).putAll (pqv5AddressFields H 5 stream id)
    w.overflow = false ∧ pqv5AddressEncode H 5 stream id = (base58Encode w.written).map (addressMarker ++ ·) := by
  have hfits : (pqv5AddressFields H 5 stream id).flatten.length ≤ (BoundedWriter.start area).rest.length := by
    have hstream := varintSize_le stream
    have hversion : varintSize 5 = 1 := rfl
    have htrimmed : (id.dropWhile (· = 0)).length ≤ id.length := (List.dropWhile_sublist _).length_le
    rw [hid, pqv5IdLen] at htrimmed
    have hrest : (BoundedWriter.start area).rest.length = 52 := harea
    simp only [pqv5AddressFields, List.flatten_cons, List.flatten_nil, List.length_append, List.length_nil,
      length_varintEncode, length_checksum, hrest, hversion]
    omega
  obtain ⟨hoverflow, hwritten⟩ := BoundedWriter.putAll_of_fits (w := BoundedWriter.start area) rfl hfits
  refine ⟨hoverflow, ?_⟩
  rw [hwritten]
  simp only [BoundedWriter.start, List.nil_append, pqv5AddressFields, List.flatten_cons, List.flatten_nil,
    List.append_nil]
  rw [← List.append_assoc, ← List.append_assoc]
  rfl

theorem pqv5AddressDecode_marker (body : Bytes) :
    pqv5AddressDecode H (addressMarker ++ body) = (base58Decode body).bind fun raw => pqv5AddressDecodeData H raw := rfl

/-- The decoder of version 5 on the encoder's text. -/
theorem pqv5AddressDecode_encode (hs : stream < wordSize) {id : Bytes} (hid : id.length = pqv5IdLen) :
    pqv5AddressDecode H (addressMarker ++ addressText H (shortestForm 5 stream) 5 stream id) =
      some (5, stream, id) := by
  set payload := formPayload (shortestForm 5 stream) 5 stream id with hp
  have hpayload : payload = varintEncode 5 ++ (varintEncode stream ++ id.dropWhile (· = 0)) := by
    rw [hp, formPayload_shortest, List.append_assoc]
  obtain ⟨hne, hhead⟩ := @shortest_data_head id 5 stream (by norm_num)
    ((doubleSha512 H payload).take 4)
  have hdecode : base58Decode (addressText H (shortestForm 5 stream) 5 stream id) =
      some (payload ++ (doubleSha512 H payload).take 4) := by
    rw [addressText_shortest]
    exact base58Decode_digits hne hhead
  have hlen : (payload ++ (doubleSha512 H payload).take 4).length = payload.length + 4 := by
    rw [List.length_append, length_checksum]
  have htake : (payload ++ (doubleSha512 H payload).take 4).take (payload.length + 4 - 4) = payload := by
    rw [Nat.add_sub_cancel, List.take_left]
  have hdrop : (payload ++ (doubleSha512 H payload).take 4).drop (payload.length + 4 - 4) =
      (doubleSha512 H payload).take 4 := by
    rw [Nat.add_sub_cancel, List.drop_left]
  have hversion : varintDecode payload = (varintSize 5, 5) := by
    rw [hpayload]
    exact varintDecode_varintEncode (by norm_num) _
  have hrest : payload.drop (varintSize 5) = varintEncode stream ++ id.dropWhile (· = 0) := by
    rw [hpayload, ← length_varintEncode, List.drop_left]
  have hstream : varintDecode (payload.drop (varintSize 5)) = (varintSize stream, stream) := by
    rw [hrest]
    exact varintDecode_varintEncode hs _
  have htrimmed : payload.drop (varintSize 5 + varintSize stream) = id.dropWhile (· = 0) := by
    rw [← List.drop_drop, hrest, ← length_varintEncode, List.drop_left]
  have hsize : varintSize stream ≠ 0 := by
    unfold varintSize
    split_ifs
    all_goals norm_num
  have hlong : ¬ payload.length + 4 < 4 + 2 := by
    have h := congrArg List.length hpayload
    have hone : varintSize 5 = 1 := rfl
    rw [List.length_append, List.length_append, length_varintEncode, length_varintEncode] at h
    omega
  have hle : (id.dropWhile (· = 0)).length ≤ id.length := (List.dropWhile_sublist _).length_le
  have hhash : (id.dropWhile (· = 0)).head? ≠ some 0 := by
    rw [← trimRipe_four]
    exact trimRipe_four_head id
  -- the zero bytes that were dropped are put back
  have hpad : List.replicate (pqv5IdLen - (id.dropWhile (· = 0)).length) 0 ++ id.dropWhile (· = 0) = id := by
    rw [← hid]
    exact zeros_append_dropWhile id
  rw [pqv5AddressDecode_marker, hdecode, Option.bind_some]
  unfold pqv5AddressDecodeData
  simp only [hlen, htake, hdrop, hversion, hstream, htrimmed, hsize, hpad, hhash, hlong, not_lt.mpr (hid ▸ hle),
    if_false, not_true_eq_false, ne_eq]
  rfl

end

/-- Every encoding is read back: addresses of the versions 2 and 3, those of version 4 whose ripe begins with
sixteen zero bytes at most, those of version 5, which never overrun the buffer, and private keys. -/
theorem encodings_round_trip (C : AddressCrypto) :
    (∀ version stream ripe, version = 2 ∨ version = 3 → stream < wordSize → ripe.length = ripeLen →
      ∃ address, addressEncode C.toHashes version stream ripe = some address ∧
        addressDecode C.toHashes address = some (version, stream, ripe)) ∧
    (∀ stream ripe, stream < wordSize → ripe.length = ripeLen → (ripe.takeWhile (· = 0)).length ≤ 16 →
      ∃ address, addressEncode C.toHashes 4 stream ripe = some address ∧
        addressDecode C.toHashes address = some (4, stream, ripe)) ∧
    (∀ stream id, stream < wordSize → id.length = pqv5IdLen →
      (∀ area : Bytes, area.length = pqv5AddressBufferLen →
        let w := (BoundedWriter.start area).putAll (pqv5AddressFields C.toHashes 5 stream id)
        w.overflow = false ∧
          pqv5AddressEncode C.toHashes 5 stream id = (base58Encode w.written).map (addressMarker ++ ·)) ∧
      ∃ address, pqv5AddressEncode C.toHashes 5 stream id = some address ∧
        pqv5AddressDecode C.toHashes address = some (5, stream, id)) ∧
    ∀ priv, priv.length = privateKeyLen →
      ∃ wif, addressEncodeWif C priv = some wif ∧ addressDecodeWif C wif = some priv := by
  refine ⟨?_, ?_, ?_, ?_⟩
  · intro version stream ripe hversion hs hr
    obtain ⟨address, hencode, -, hdecode⟩ :=
      @addressDecode_addressEncode C.toHashes version stream ripe (by omega)
        (by rcases hversion with rfl | rfl <;> norm_num) hs hr
    refine ⟨address, hencode, ?_⟩
    rw [hdecode, if_neg (by omega)]
  · intro stream ripe hs hr hzeros
    obtain ⟨address, hencode, -, hdecode⟩ :=
      @addressDecode_addressEncode C.toHashes 4 stream ripe (by norm_num) (by norm_num) hs hr
    refine ⟨address, hencode, ?_⟩
    have hsplit :=
      congrArg List.length (List.takeWhile_append_dropWhile (p := fun x : UInt8 => decide (x = 0)) (l := ripe))
    rw [List.length_append, hr, ripeLen] at hsplit
    rw [hdecode, if_neg (by omega)]
  · intro stream id hs hid
    refine ⟨fun area harea => pqv5AddressFields_fit hid harea, ?_⟩
    exact ⟨_, pqv5AddressEncode_eq (by norm_num) stream id, pqv5AddressDecode_encode hs hid⟩
  · exact fun priv hpriv => addressDecodeWif_addressEncodeWif C hpriv

theorem old_keys_round_trip :
    (∃ address, addressEncode plainAddressCrypto.toHashes 4 1 oldRipe = some address ∧
      addressDecode plainAddressCrypto.toHashes address = some (4, 1, oldRipe)) ∧
    ∃ wif, addressEncodeWif plainAddressCrypto oldKeys.signing = some wif ∧
      addressDecodeWif plainAddressCrypto wif = some oldKeys.signing :=
  ⟨(encodings_round_trip plainAddressCrypto).2.1 1 oldRipe (by decide) (by decide) (by decide),
    (encodings_round_trip plainAddressCrypto).2.2.2 oldKeys.signing (by decide)⟩

end Bitmessage
