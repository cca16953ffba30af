import Bitmessage.Pq.Object

/-! The post-quantum objects are read back as they were built. The sizes that a builder
computes in advance are the sizes of what it writes: if an allocation of the wrapped sum of
the lengths were too small, the bounded writer would mark an overflow and nothing would be
returned. -/

namespace Bitmessage

open Traced StickyParser

/-- Signatures of the identity verify under its public key. -/
def PqSignsFor (C : PqCrypto) (identity : Pqv5Identity) : Prop :=
  ∀ seed data sig, C.pqv5Sign seed data identity.sigSk = some sig → C.pqv5Verify data sig identity.sigPk = true

/-- The secret key opens what was sealed to the public key, and sealing adds a fixed number of
bytes. -/
def PqOpens (C : PqCrypto) (sk pk : Bytes) : Prop :=
  ∀ seed aad plaintext sealed, C.pqv5Seal seed pk aad plaintext = some sealed →
    sealed.length = pqv5SealOverhead + plaintext.length ∧
    ∃ inner, C.pqv5Open sk aad sealed = some inner ∧ inner.bytes = plaintext

/-- The two keys of a pair belong together. -/
def PqKeysOpen (C : PqCrypto) : Prop := ∀ seed pk sk, C.kemKeypairFromSeed seed = some (pk, sk) → PqOpens C sk pk

/-- The sizes computed in advance are those of what was written, and no write overflowed. -/
structure PqBuilt.Exact (b : PqBuilt) : Prop where
  header_fits : b.draft.w.overflow = false
  inner_fits : b.draft.iw.overflow = false
  header_written : b.draft.w.written.length = b.draft.plainLen
  inner_written : b.draft.iw.written.length = b.draft.innerLen
  total_eq : b.draft.plainLen + b.sealedLen = b.draft.total
  length_out : b.out.length = b.draft.total

section

variable {C : PqCrypto} {M : Allocator} {seed : Bytes} {object inner : Buf} {p : ℕ} {rest : Bytes} {β : Type}

/-! ### Sizes -/

/-- The two areas after the fields have been written without an overflow. -/
theorem pqDraft_eq_some {plainLen innerPresigLen : ℕ} {plain fields : List Bytes} {d : PqDraft}
    (h : pqDraft M plainLen innerPresigLen plain fields = some d) :
    d.plainLen = plainLen ∧ d.innerPresigLen = innerPresigLen ∧
    d.innerLen = addW (addW innerPresigLen (varintSize pqv5SigLen)) pqv5SigLen ∧
    d.total = addW (addW plainLen pqv5SealOverhead) d.innerLen ∧
    d.w.overflow = false ∧ d.w.written = plain.flatten ∧ d.iw.written = fields.flatten ∧
    d.iw.contents.length = d.innerLen ∧ d.innerLen < 2 ^ 63 := by
  simp only [pqDraft, Option.bind_eq_bind, Option.bind_eq_some_iff] at h
  obtain ⟨bufMem, hbuf, innerMem, hinner, h⟩ := h
  split at h
  · cases h
  · next hover =>
    rw [not_or, Bool.not_eq_true, Bool.not_eq_true] at hover
    cases h
    obtain ⟨hlen, hlt⟩ := M.inner_spec _ _ hinner
    refine ⟨rfl, rfl, rfl, rfl, hover.1, (BoundedWriter.written_putAll hover.1).2,
      (BoundedWriter.written_putAll hover.2).2, ?_, hlt⟩
    rw [BoundedWriter.length_contents_putAll]
    exact hlen

/-- The size of the fields with the signature behind them. -/
theorem varintSize_pqv5SigLen : varintSize pqv5SigLen = 3 := by decide

/-- The area of the fields once the signature is in it without an overflow: the size in front of
the signature was computed modulo the word size, but since the fields fit, it did not wrap, and
the area is full. -/
theorem inner_full {plainLen innerPresigLen : ℕ} {plain fields : List Bytes} {d : PqDraft} {sig : Bytes}
    (hpresig : innerPresigLen = fields.flatten.length % wordSize) (hsig : sig.length = pqv5SigLen)
    (hdraft : pqDraft M plainLen innerPresigLen plain fields = some d)
    (hfits : (d.iw.putAll [varintEncode pqv5SigLen, sig]).overflow = false) :
    d.iw.contents.take d.innerPresigLen = fields.flatten ∧
    (d.iw.putAll [varintEncode pqv5SigLen, sig]).contents = fields.flatten ++ (varintEncode pqv5SigLen ++ sig) ∧
    (d.iw.putAll [varintEncode pqv5SigLen, sig]).written.length = d.innerLen ∧
    d.innerLen = fields.flatten.length + (3 + 3373) := by
  obtain ⟨-, hd₂, hd₃, -, -, -, hiwritten, hcap, hlt⟩ := pqDraft_eq_some hdraft
  have hsigLen : pqv5SigLen = 3373 := rfl
  have hwritten : (d.iw.putAll [varintEncode pqv5SigLen, sig]).written =
      fields.flatten ++ (varintEncode pqv5SigLen ++ sig) := by
    rw [(BoundedWriter.written_putAll hfits).2, hiwritten, List.flatten_cons, List.flatten_cons, List.flatten_nil,
      List.append_nil]
  have hcount : (d.iw.putAll [varintEncode pqv5SigLen, sig]).written.length = fields.flatten.length + (3 + 3373) := by
    rw [hwritten, List.length_append, List.length_append, length_varintEncode, varintSize_pqv5SigLen, hsig, hsigLen]
  have hsize := BoundedWriter.length_contents_putAll d.iw [varintEncode pqv5SigLen, sig]
  have hle := BoundedWriter.length_written_le (d.iw.putAll [varintEncode pqv5SigLen, sig])
  rw [hsize, hcap, hcount] at hle
  have hnowrap : innerPresigLen = fields.flatten.length := by
    rw [hpresig]
    exact Nat.mod_eq_of_lt (by unfold wordSize; omega)
  have hinnerLen : d.innerLen = fields.flatten.length + (3 + 3373) := by
    rw [hd₃, hnowrap, varintSize_pqv5SigLen, hsigLen,
      addW_of_lt (show fields.flatten.length + 3 < wordSize by unfold wordSize; omega),
      addW_of_lt (by unfold wordSize; omega)]
  refine ⟨?_, ?_, by rw [hcount, hinnerLen], hinnerLen⟩
  · rw [hd₂, hnowrap, ← hiwritten]
    exact BoundedWriter.take_contents rfl
  · have htake := BoundedWriter.take_contents (show _ = d.innerLen by rw [hcount, hinnerLen])
    rw [← hwritten, ← htake, List.take_of_length_le (by rw [hsize, hcap])]

/-- The area of the clear fields holds them and nothing else. -/
theorem take_plainLen {plainLen innerPresigLen : ℕ} {plain fields : List Bytes} {d : PqDraft}
    (hplain : plain.flatten.length = plainLen) (hdraft : pqDraft M plainLen innerPresigLen plain fields = some d) :
    d.w.contents.take d.plainLen = plain.flatten := by
  obtain ⟨hd, -, -, -, -, hwritten, -⟩ := pqDraft_eq_some hdraft
  rw [hd, ← hwritten]
  exact BoundedWriter.take_contents (by rw [hwritten, hplain])

/-- The calls behind an object that was signed and sealed. -/
theorem pqSignAndSeal_cases {identity : Pqv5Identity} {kemPk : Bytes} {d : PqDraft} {b : PqBuilt}
    (h : pqSignAndSeal C seed identity kemPk d = some b) :
    ∃ sig sealed,
      C.pqv5Sign seed (d.w.contents.take d.plainLen ++ d.iw.contents.take d.innerPresigLen) identity.sigSk = some sig ∧
      (d.iw.putAll [varintEncode pqv5SigLen, sig]).overflow = false ∧
      C.pqv5Seal seed kemPk (d.w.contents.take d.plainLen) (d.iw.putAll [varintEncode pqv5SigLen, sig]).contents =
        some sealed ∧
      addW d.plainLen sealed.length = d.total ∧
      b = ⟨{ d with iw := d.iw.putAll [varintEncode pqv5SigLen, sig] }, sealed.length,
        d.w.contents.take d.plainLen ++ sealed⟩ := by
  simp only [pqSignAndSeal, Option.bind_eq_bind, Option.bind_eq_some_iff] at h
  obtain ⟨sig, hsig, h⟩ := h
  split at h
  · cases h
  · next hfits =>
    simp only [Option.bind_eq_some_iff] at h
    obtain ⟨sealed, hseal, h⟩ := h
    split at h
    · cases h
    · next htotal =>
      cases h
      exact ⟨sig, sealed, hsig, Bool.eq_false_iff.mpr hfits, hseal, not_not.mp htotal, rfl⟩

/-- What was written, signed and sealed. -/
theorem pqSignAndSeal_eq_some {identity : Pqv5Identity} {kemPk sk : Bytes} {plainLen innerPresigLen : ℕ}
    {plain fields : List Bytes} {d : PqDraft} {b : PqBuilt} (hopens : PqOpens C sk kemPk)
    (hplain : plain.flatten.length = plainLen) (hsmall : plainLen < 100)
    (hpresig : innerPresigLen = fields.flatten.length % wordSize)
    (hdraft : pqDraft M plainLen innerPresigLen plain fields = some d)
    (h : pqSignAndSeal C seed identity kemPk d = some b) :
    b.Exact ∧ ∃ sig sealed, C.pqv5Sign seed (plain.flatten ++ fields.flatten) identity.sigSk = some sig ∧
      C.pqv5Seal seed kemPk plain.flatten (fields.flatten ++ (varintEncode pqv5SigLen ++ sig)) = some sealed ∧
      b.out = plain.flatten ++ sealed := by
  obtain ⟨hd₁, -, -, -, hw, hwritten, -, hcap, hlt⟩ := pqDraft_eq_some hdraft
  have hover : pqv5SealOverhead = 1136 := rfl
  have hheader := take_plainLen hplain hdraft
  obtain ⟨sig, sealed, hsig, hfits, hseal, htotal, rfl⟩ := pqSignAndSeal_cases h
  have hlen := C.length_pqv5Sign _ _ _ _ hsig
  obtain ⟨hpresigned, hfull, hcount, hinnerLen⟩ := inner_full hpresig hlen hdraft hfits
  rw [hheader, hpresigned] at hsig
  rw [hheader, hfull] at hseal
  have hsealed : sealed.length = 1136 + d.innerLen := by
    rw [(hopens _ _ _ _ hseal).1, hover, ← hfull, BoundedWriter.length_contents_putAll, hcap]
  have hsum : d.plainLen + sealed.length = d.total := by
    rw [← htotal, addW_of_lt (by unfold wordSize; omega)]
  refine ⟨⟨hw, hfits, by rw [hwritten, hplain, hd₁], hcount, hsum, ?_⟩, sig, sealed, hsig, hseal, by rw [hheader]⟩
  rw [List.length_append, hheader, hplain, ← hd₁]
  exact hsum

/-! ### Opening what was built -/

/-- The header and what is sealed behind it, in an object with a nonce. -/
theorem pqOpen_of_rest {sk plain sealed : Bytes} (h : object.Rest 8 (plain ++ sealed)) :
    pqOpen C sk plain.length object = C.pqv5Open sk plain sealed := by
  have hw := object.size_lt
  have hsize := h.size
  rw [List.length_append] at hsize
  have hsub : subW (subW object.size 8) plain.length = sealed.length := by
    rw [subW_of_le (by unfold wordSize; omega) (show 8 ≤ object.size by omega),
      subW_of_le (by unfold wordSize; omega) (by omega)]
    omega
  have hbehind := h.append
  rw [← List.append_nil sealed] at hbehind
  rw [pqOpen, h.slice, hsub, hbehind.slice]

theorem flatten_wObjectHeader (expires type objectVersion stream : ℕ) :
    (wObjectHeader expires type objectVersion stream).flatten.length = objectHeaderSize objectVersion stream := by
  simp only [wObjectHeader, objectHeaderSize, List.flatten_cons, List.flatten_nil, List.length_append,
    List.length_nil, Radix.length_beBytes, length_varintEncode]
  omega

/-- The front of an object with a tag. -/
theorem pqOpenTagged_of_rest {objectVersion : ℕ} {candidate : PqCandidate} {header sealed pk sk : Bytes} {s : RBuf}
    (hheader : header.length = objectHeaderSize objectVersion candidate.stream)
    (hobject : object.Rest 8 (header ++ candidate.tag C ++ sealed)) (hsealed : pqv5SealOverhead ≤ sealed.length)
    (hkeys : pqv5AddressKemKeypair C candidate.version candidate.stream candidate.id = some (pk, sk))
    (hopen : C.pqv5Open sk (header ++ candidate.tag C) sealed = some inner) :
    (pqOpenTagged C objectVersion candidate object).result s = some (inner, ⟨0, false⟩) := by
  have hsize := hobject.size
  have h32 := candidate.length_tag C
  have hlen : (header ++ candidate.tag C).length = objectHeaderSize objectVersion candidate.stream + 32 := by
    rw [List.length_append, hheader, h32]
  rw [List.length_append, hlen] at hsize
  have hfits : addW (addW 8 (objectHeaderSize objectVersion candidate.stream + 32)) pqv5SealOverhead ≤ object.size := by
    rw [addW_taggedLen]
    omega
  have htag : object.slice (8 + (objectHeaderSize objectVersion candidate.stream + 32) - 32) 32 = candidate.tag C := by
    have h := hobject
    rw [List.append_assoc] at h
    have hslice := h.append.slice
    rw [h32, hheader] at hslice
    exact hslice
  have hinner : pqTaggedInner C objectVersion candidate object = some inner := by
    rw [pqTaggedInner, hkeys, Option.bind_some, ← hlen, pqOpen_of_rest hobject]
    exact hopen
  unfold pqOpenTagged
  rw [result_require_bind (show 8 ≤ object.size by omega)]
  dsimp only
  rw [result_require_bind hfits, result_emit_bind, result_require_bind htag, result_pqOpenAccess_bind, hinner]
  dsimp only
  rw [result_bind_of_result (result_set _ _), result_pure]

/-! ### The fields -/

theorem length_keyFields_pq (sender : PqSenderInfo) : sender.keyFields.flatten.length = sender.keyFieldsLen := by
  simp only [PqSenderInfo.keyFields, PqSenderInfo.keyFieldsLen, List.flatten_cons, List.flatten_nil, List.length_append,
    List.length_nil, Radix.length_beBytes, length_varintEncode, sender.identity.length_sigPk,
    sender.identity.length_kemPk]
  omega

/-- The length of the fields does not wrap. -/
theorem keyFieldsLen_eq_mod (sender : PqSenderInfo) :
    sender.keyFieldsLen = sender.keyFields.flatten.length % wordSize := by
  have htrials := varintSize_le sender.nonceTrialsPerByte
  have hextra := varintSize_le sender.payloadLengthExtraBytes
  rw [length_keyFields_pq, Nat.mod_eq_of_lt]
  simp only [PqSenderInfo.keyFieldsLen, pqv5SigPkLen, pqv5KemPkLen]
  unfold wordSize
  omega

theorem length_senderFields_pq (sender : PqSenderInfo) :
    sender.senderFields.flatten.length = sender.senderFieldsLen := by
  simp only [PqSenderInfo.senderFields, PqSenderInfo.senderFieldsLen, List.flatten_cons, List.length_append,
    length_varintEncode, length_keyFields_pq]
  omega

/-- What the keys and the difficulty of a sender are read as. -/
def PqSenderInfo.asKeyFields (sender : PqSenderInfo) : PqKeyFields :=
  ⟨sender.bitfield, sender.identity.sigPk, sender.identity.kemPk, sender.nonceTrialsPerByte,
    sender.payloadLengthExtraBytes⟩

theorem calcId_asKeyFields {sender : PqSenderInfo}
    (hid : sender.identity.id = pqv5CalcId C sender.identity.sigPk sender.identity.kemPk) :
    pqv5CalcId C sender.asKeyFields.sigPk sender.asKeyFields.kemPk = sender.identity.candidate.id := hid.symm

theorem pqKeyFields_of_rest {sender : PqSenderInfo} (h : inner.Rest p (sender.keyFields.flatten ++ rest)) :
    (pqKeyFields inner).result ⟨p, false⟩ =
      some (sender.asKeyFields, ⟨p + sender.keyFields.flatten.length, false⟩) := by
  have hlen : p + sender.keyFields.flatten.length = p + (Radix.beBytes 4 sender.bitfield).length +
      sender.identity.sigPk.length + sender.identity.kemPk.length + (varintEncode sender.nonceTrialsPerByte).length +
      (varintEncode sender.payloadLengthExtraBytes).length := by
    simp only [PqSenderInfo.keyFields, List.flatten_cons, List.flatten_nil, List.length_append, List.length_nil]
    omega
  simp only [PqSenderInfo.keyFields, List.flatten_cons, List.flatten_nil, List.append_assoc, List.nil_append] at h
  have h₁ := h.append
  have h₂ := h₁.append
  have h₃ := h₂.append
  have h₄ := h₃.append
  unfold pqKeyFields
  rw [result_bind_of_result (rU32_of_rest h sender.bitfield_lt),
    result_bind_of_result (rBytes_of_rest h₁ sender.identity.length_sigPk),
    result_bind_of_result (rBytes_of_rest h₂ sender.identity.length_kemPk),
    result_bind_of_result (rVarint_of_rest h₃ sender.nonceTrialsPerByte_lt),
    result_bind_of_result (rVarint_of_rest h₄ sender.payloadLengthExtraBytes_lt), result_pure, hlen]
  rfl

/-- The sender in front of a text. -/
theorem result_pqSender_bind {sender : PqSenderInfo} (h : inner.Rest p (sender.senderFields.flatten ++ rest))
    (f : ℕ → ℕ → PqKeyFields → StickyParser β) :
    result (rVarint .body inner >>= fun version => rVarint .body inner >>= fun stream => pqKeyFields inner >>= fun keys =>
      f version stream keys) ⟨p, false⟩ =
    (f sender.identity.version sender.identity.stream sender.asKeyFields).result
      ⟨p + sender.senderFields.flatten.length, false⟩ := by
  have hlen : p + sender.senderFields.flatten.length = p + (varintEncode sender.identity.version).length +
      (varintEncode sender.identity.stream).length + sender.keyFields.flatten.length := by
    simp only [PqSenderInfo.senderFields, List.flatten_cons, List.length_append]
    omega
  simp only [PqSenderInfo.senderFields, List.flatten_cons, List.append_assoc] at h
  have h₁ := h.append
  have h₂ := h₁.append
  rw [result_bind_of_result (rVarint_of_rest h sender.identity.version_lt),
    result_bind_of_result (rVarint_of_rest h₁ sender.identity.stream_lt),
    result_bind_of_result (pqKeyFields_of_rest h₂), hlen]

theorem pqLength_of_rest {xs : Bytes} (h : inner.Rest p (varintEncode xs.length ++ (xs ++ rest))) :
    (pqLength inner).result ⟨p, false⟩ = some (xs.length, ⟨p + (varintEncode xs.length).length, false⟩) := by
  have hw := inner.size_lt
  have hsize := h.size
  have hroom := h.append.size
  rw [List.length_append, List.length_append] at hsize
  rw [List.length_append] at hroom
  have hok : (false = false) ∧ xs.length ≤ subW inner.size (p + (varintEncode xs.length).length) := by
    rw [subW_of_le (by unfold wordSize; omega) (by omega)]
    exact ⟨rfl, by omega⟩
  unfold pqLength
  rw [result_bind_of_result (rVarint_of_rest h (by unfold wordSize; omega)), result_bind_of_result (result_get _),
    result_require_bind hok, result_emit_bind, result_pure]

theorem pqAck_of_rest {xs : Bytes} (h : inner.Rest p (xs ++ rest)) :
    (pqAck inner xs.length).result ⟨p, false⟩ = some (xs, ⟨p + xs.length, false⟩) := by
  unfold pqAck
  split
  · exact rBytes_of_rest h rfl
  · next hempty =>
    rw [List.eq_nil_of_length_eq_zero (show xs.length = 0 by omega)]
    rfl

theorem pqCheckSignature_of_rest {plain fields sig sigPk : Bytes}
    (hinner : inner.bytes = fields ++ (varintEncode pqv5SigLen ++ sig)) (hp : fields.length = p)
    (hsig : sig.length = pqv5SigLen) (hobject : object.slice 8 plain.length = plain)
    (hverify : C.pqv5Verify (plain ++ fields) sig sigPk = true) :
    ∃ t, (pqCheckSignature C plain.length object inner sigPk).result ⟨p, false⟩ = some ((), t) := by
  have hrest : inner.Rest p (varintEncode pqv5SigLen ++ sig) := ⟨fields, hinner, hp⟩
  have hsigned : inner.slice 0 p = fields := hp ▸ Buf.Rest.slice_front hinner
  have h₁ := hrest.append
  rw [← List.append_nil sig] at h₁
  rw [← hobject, ← hsigned] at hverify
  unfold pqCheckSignature
  rw [result_bind_of_result (result_get _), result_bind_of_result (rVarint_of_rest hrest (by decide)),
    result_bind_of_result (result_get _), result_require_bind ⟨rfl, rfl⟩, result_bind_of_result (rBytes_of_rest h₁ hsig),
    result_bind_of_result (result_get _), result_require_bind rfl, result_emit_bind, result_emit_bind]
  exact ⟨_, result_require_eq_some.mpr ⟨hverify, rfl⟩⟩

/-! ### Objects with a tag -/

/-- An object with a tag, built for the address of its sender: the plaintext that the parser finds
behind the tag. -/
theorem pqTagged_built {sender : PqSenderInfo} {keys : Bytes × Bytes} {expires type objectVersion innerPresigLen : ℕ}
    {nonce : ℕ} {fields : List Bytes} {d : PqDraft} {b : PqBuilt} {s : RBuf} (hsign : PqSignsFor C sender.identity)
    (hopens : PqKeysOpen C) (hkeys : pqv5AddressKemKeypair C sender.identity.version sender.identity.stream
      sender.identity.id = some keys)
    (hpresig : innerPresigLen = fields.flatten.length % wordSize)
    (hdraft : pqDraft M (objectHeaderSize objectVersion sender.identity.stream + 32) innerPresigLen
      (wObjectHeader expires type objectVersion sender.identity.stream ++ [sender.identity.candidate.tag C]) fields = some d)
    (hbuilt : pqSignAndSeal C seed sender.identity keys.1 d = some b) :
    b.Exact ∧ (object.bytes = packBe64 nonce ++ b.out →
      ∃ sig inner plain, plain.length = objectHeaderSize objectVersion sender.identity.candidate.stream + 32 ∧
        inner.bytes = fields.flatten ++ (varintEncode pqv5SigLen ++ sig) ∧ sig.length = pqv5SigLen ∧
        object.slice 8 plain.length = plain ∧
        C.pqv5Verify (plain ++ fields.flatten) sig sender.asKeyFields.sigPk = true ∧
        (pqOpenTagged C objectVersion sender.identity.candidate object).result s = some (inner, ⟨0, false⟩)) := by
  have h32 := sender.identity.candidate.length_tag C
  have hflat : (wObjectHeader expires type objectVersion sender.identity.stream ++
      [sender.identity.candidate.tag C]).flatten =
      (wObjectHeader expires type objectVersion sender.identity.stream).flatten ++ sender.identity.candidate.tag C := by
    rw [List.flatten_append, List.flatten_singleton]
  have hplain : (wObjectHeader expires type objectVersion sender.identity.stream ++
      [sender.identity.candidate.tag C]).flatten.length =
      objectHeaderSize objectVersion sender.identity.stream + 32 := by
    rw [hflat, List.length_append, flatten_wObjectHeader, h32]
  have hsmall := objectHeaderSize_le objectVersion sender.identity.stream
  have hpair := hopens _ _ _ hkeys
  obtain ⟨hexact, sig, sealed, hsig, hseal, hout⟩ :=
    pqSignAndSeal_eq_some hpair hplain (by omega) hpresig hdraft hbuilt
  refine ⟨hexact, fun hobject => ?_⟩
  obtain ⟨hoverhead, inner, hopen, hinner⟩ := hpair _ _ _ _ hseal
  rw [hout] at hobject
  have hrest : object.Rest 8 _ := ⟨packBe64 nonce, hobject, Radix.length_beBytes _ _⟩
  have hslice := hrest.slice
  rw [hflat] at hrest hopen
  refine ⟨sig, inner, _, hplain, hinner, C.length_pqv5Sign _ _ _ _ hsig, hslice, hsign _ _ _ hsig, ?_⟩
  exact pqOpenTagged_of_rest (flatten_wObjectHeader _ _ _ _) hrest (by omega) hkeys hopen

theorem parsed_pqBuildPubkey {sender : PqSenderInfo} {nonce expires : ℕ} {b : PqBuilt}
    (hid : sender.identity.id = pqv5CalcId C sender.identity.sigPk sender.identity.kemPk)
    (hsign : PqSignsFor C sender.identity) (hopens : PqKeysOpen C)
    (hbuild : pqBuildPubkey C seed M sender expires = some b) :
    b.Exact ∧ (object.bytes = packBe64 nonce ++ b.out →
      pqParsed (pqParsePubkey C sender.identity.candidate object) = some
        ⟨sender.identity.version, sender.identity.stream, sender.bitfield, sender.identity.sigPk,
          sender.identity.kemPk, sender.nonceTrialsPerByte, sender.payloadLengthExtraBytes⟩) := by
  simp only [pqBuildPubkey, Option.bind_eq_bind, Option.bind_eq_some_iff] at hbuild
  obtain ⟨keys, hkeys, d, hdraft, hbuilt⟩ := hbuild
  have hpresig : sender.keyFieldsLen = sender.keyFields.flatten.length % wordSize := keyFieldsLen_eq_mod sender
  obtain ⟨hexact, hopened⟩ := pqTagged_built (s := rbufInit) hsign hopens hkeys hpresig hdraft hbuilt
  refine ⟨hexact, fun hobject => ?_⟩
  obtain ⟨sig, inner, plain, hplain, hinner, hsig, hslice, hverify, hopen⟩ := hopened hobject
  have h₀ := Buf.rest_zero hinner
  obtain ⟨t, ht⟩ := pqCheckSignature_of_rest hinner (Nat.zero_add _).symm hsig hslice hverify
  rw [hplain] at ht
  unfold pqParsed pqParsePubkey
  rw [result_bind_of_result hopen, result_bind_of_result (pqKeyFields_of_rest h₀),
    result_bind_of_result ht, result_require_bind (calcId_asKeyFields hid), result_pure,
    Option.map_some]
  rfl

theorem parsed_pqBuildBroadcast {sender : PqSenderInfo} {nonce expires encoding : ℕ} {message : Bytes} {b : PqBuilt}
    (hid : sender.identity.id = pqv5CalcId C sender.identity.sigPk sender.identity.kemPk)
    (hsign : PqSignsFor C sender.identity) (hopens : PqKeysOpen C) (hencoding : encoding < wordSize)
    (hbuild : pqBuildBroadcast C seed M sender encoding message expires = some b) :
    b.Exact ∧ (object.bytes = packBe64 nonce ++ b.out →
      pqParsed (pqParseBroadcast C sender.identity.candidate object) = some
        ⟨sender.identity.version, sender.identity.stream, sender.bitfield, sender.identity.sigPk,
          sender.identity.kemPk, sender.nonceTrialsPerByte, sender.payloadLengthExtraBytes, sender.identity.id,
          encoding, message⟩) := by
  simp only [pqBuildBroadcast, Option.bind_eq_bind, Option.bind_eq_some_iff] at hbuild
  obtain ⟨keys, hkeys, d, hdraft, hbuilt⟩ := hbuild
  have hpresig : addW (addW (sender.senderFieldsLen + varintSize encoding) (varintSize message.length)) message.length =
      (sender.senderFields ++ [varintEncode encoding, varintEncode message.length, message]).flatten.length %
        wordSize := by
    simp only [addW, Nat.mod_add_mod, List.flatten_append, List.flatten_cons, List.flatten_nil, List.length_append,
      List.length_nil, length_senderFields_pq, length_varintEncode, Nat.add_zero, Nat.add_assoc]
  obtain ⟨hexact, hopened⟩ := pqTagged_built (s := rbufInit) hsign hopens hkeys hpresig hdraft hbuilt
  refine ⟨hexact, fun hobject => ?_⟩
  obtain ⟨sig, inner, plain, hplain, hinner, hsig, hslice, hverify, hopen⟩ := hopened hobject
  have h₀ := Buf.rest_zero hinner
  simp only [List.flatten_append, List.flatten_cons, List.flatten_nil, List.append_assoc, List.nil_append] at h₀
  have h₁ := h₀.append
  have h₂ := h₁.append
  have h₃ := h₂.append
  have hend : (sender.senderFields ++ [varintEncode encoding, varintEncode message.length, message]).flatten.length =
      0 + sender.senderFields.flatten.length + (varintEncode encoding).length + (varintEncode message.length).length +
        message.length := by
    simp only [List.flatten_append, List.flatten_cons, List.flatten_nil, List.length_append, List.length_nil]
    omega
  obtain ⟨t, ht⟩ := pqCheckSignature_of_rest hinner hend hsig hslice hverify
  rw [hplain] at ht
  unfold pqParsed pqParseBroadcast
  rw [result_bind_of_result hopen, result_pqSender_bind h₀, result_bind_of_result (rVarint_of_rest h₁ hencoding),
    result_bind_of_result (pqLength_of_rest h₂), result_bind_of_result (rBytes_of_rest h₃ rfl),
    result_bind_of_result ht, result_require_bind (calcId_asKeyFields hid), result_pure,
    Option.map_some, hid]
  rfl

/-! ### Messages -/

/-- The plaintext of a message. -/
theorem result_pqParseMsgInner {sender : PqSenderInfo} {encoding : ℕ} {plain toId message ack sig : Bytes} {s : RBuf}
    (hinner : inner.bytes = sender.senderFields.flatten ++ (toId ++ (varintEncode encoding ++
      (varintEncode message.length ++ (message ++ (varintEncode ack.length ++ ack))))) ++
      (varintEncode pqv5SigLen ++ sig))
    (hencoding : encoding < wordSize) (htoId : toId.length = pqv5IdLen) (hsig : sig.length = pqv5SigLen)
    (hobject : object.slice 8 plain.length = plain)
    (hverify : C.pqv5Verify (plain ++ (sender.senderFields.flatten ++ (toId ++ (varintEncode encoding ++
      (varintEncode message.length ++ (message ++ (varintEncode ack.length ++ ack))))))) sig
      sender.asKeyFields.sigPk = true) :
    ∃ t, (pqParseMsgInner C plain.length object inner).result s = some
      (⟨sender.identity.version, sender.identity.stream, sender.bitfield, sender.identity.sigPk,
        sender.identity.kemPk, sender.nonceTrialsPerByte, sender.payloadLengthExtraBytes, toId,
        pqv5CalcId C sender.identity.sigPk sender.identity.kemPk, encoding, message, ack⟩, t) := by
  have h₀ := Buf.rest_zero hinner
  simp only [List.append_assoc] at h₀
  have h₁ := h₀.append
  have h₂ := h₁.append
  have h₃ := h₂.append
  have h₄ := h₃.append
  have h₅ := h₄.append
  have h₆ := h₅.append
  have hend : (sender.senderFields.flatten ++ (toId ++ (varintEncode encoding ++ (varintEncode message.length ++
      (message ++ (varintEncode ack.length ++ ack)))))).length =
      0 + sender.senderFields.flatten.length + toId.length + (varintEncode encoding).length +
        (varintEncode message.length).length + message.length + (varintEncode ack.length).length + ack.length := by
    simp only [List.length_append]
    omega
  obtain ⟨t, ht⟩ := pqCheckSignature_of_rest hinner hend hsig hobject hverify
  unfold pqParseMsgInner
  rw [result_bind_of_result (result_set _ _), result_pqSender_bind h₀, result_bind_of_result (rBytes_of_rest h₁ htoId),
    result_bind_of_result (rVarint_of_rest h₂ hencoding), result_bind_of_result (pqLength_of_rest h₃),
    result_bind_of_result (rBytes_of_rest h₄ rfl), result_bind_of_result (pqLength_of_rest h₅),
    result_bind_of_result (pqAck_of_rest h₆), result_bind_of_result ht, result_pure]
  exact ⟨t, rfl⟩

/-- The header of a message, in front of what is sealed. -/
theorem result_pqParseMsg_header {expires toStream plainLen : ℕ} {kemSk sealed : Bytes} {s : RBuf}
    (htoStream : toStream < wordSize)
    (hplain : (wObjectHeader expires pqObjectMsg pqMsgObjectVersion toStream).flatten.length = plainLen)
    (h : object.Rest 8 ((wObjectHeader expires pqObjectMsg pqMsgObjectVersion toStream).flatten ++ sealed))
    (hsealed : pqv5SealOverhead ≤ sealed.length) (hopen : pqOpen C kemSk plainLen object = some inner) :
    (pqParseMsg C kemSk object).result s =
      (pqParseMsgInner C plainLen object inner).result ⟨8 + plainLen, false⟩ := by
  have hw := object.size_lt
  have hsize := h.size
  have hover : pqv5SealOverhead = 1136 := rfl
  rw [List.length_append, hplain] at hsize
  have hcursor : 8 + plainLen = 8 + 8 + 4 + (varintEncode pqMsgObjectVersion).length + (varintEncode toStream).length := by
    simp only [← hplain, wObjectHeader, List.flatten_cons, List.flatten_nil, List.length_append, List.length_nil,
      Radix.length_beBytes]
    omega
  simp only [wObjectHeader, List.flatten_cons, List.flatten_nil, List.append_assoc, List.nil_append] at h
  have h₁ := h.append.append
  rw [Radix.length_beBytes, Radix.length_beBytes] at h₁
  have h₂ := h₁.append
  have h20 : 8 + 12 ≤ object.size := by omega
  have hsub : subW (8 + plainLen) 8 = plainLen := by
    rw [subW_of_le (by unfold wordSize; omega) (by omega), Nat.add_sub_cancel_left]
  have hfits : addW (addW 8 plainLen) pqv5SealOverhead ≤ object.size := by
    rw [addW_of_lt (show 8 + plainLen < wordSize by unfold wordSize; omega), addW_of_lt (by unfold wordSize; omega)]
    omega
  unfold pqParseMsg
  rw [result_require_bind h20, result_bind_of_result (result_set _ _),
    result_bind_of_result (rVarint_of_rest h₁ (by decide)), result_bind_of_result (result_get _),
    result_require_bind ⟨rfl, rfl⟩, result_bind_of_result (rVarint_of_rest h₂ htoStream),
    result_bind_of_result (result_get _), result_require_bind rfl]
  refine (congrArg (fun n => (pqParseMsgSealed C kemSk object (subW n 8)).result ⟨n, false⟩) hcursor.symm).trans ?_
  rw [hsub, pqParseMsgSealed, result_require_bind hfits, result_pqOpenAccess_bind, hopen]

theorem parsed_pqBuildMsg {sender : PqSenderInfo} {nonce expires encoding toStream : ℕ}
    {toId toKemPk kemSk message ack : Bytes} {b : PqBuilt}
    (hsign : PqSignsFor C sender.identity) (hopens : PqOpens C kemSk toKemPk) (hencoding : encoding < wordSize)
    (htoStream : toStream < wordSize) (htoId : toId.length = pqv5IdLen)
    (hbuild : pqBuildMsg C seed M sender toStream toId toKemPk encoding message ack expires = some b) :
    b.Exact ∧ (object.bytes = packBe64 nonce ++ b.out →
      pqParsed (pqParseMsg C kemSk object) = some
        ⟨sender.identity.version, sender.identity.stream, sender.bitfield, sender.identity.sigPk,
          sender.identity.kemPk, sender.nonceTrialsPerByte, sender.payloadLengthExtraBytes, toId,
          pqv5CalcId C sender.identity.sigPk sender.identity.kemPk, encoding, message, ack⟩) := by
  simp only [pqBuildMsg, Option.bind_eq_bind, Option.bind_eq_some_iff] at hbuild
  obtain ⟨d, hdraft, hbuilt⟩ := hbuild
  have hack : (if 0 < ack.length then [ack] else []).flatten = ack := by
    split
    · exact List.flatten_singleton
    · next hempty => exact (List.eq_nil_of_length_eq_zero (by omega)).symm
  have hfields : (sender.senderFields ++ [toId, varintEncode encoding, varintEncode message.length, message,
      varintEncode ack.length] ++ if 0 < ack.length then [ack] else []).flatten =
      sender.senderFields.flatten ++ (toId ++ (varintEncode encoding ++ (varintEncode message.length ++ (message ++
        (varintEncode ack.length ++ ack))))) := by
    rw [List.flatten_append, hack]
    simp only [List.flatten_append, List.flatten_cons, List.flatten_nil, List.append_assoc, List.nil_append]
  split at hbuilt
  · cases hbuilt
  · have hpresig : addW (addW (addW (addW (sender.senderFieldsLen + pqv5IdLen + varintSize encoding)
        (varintSize message.length)) message.length) (varintSize ack.length)) ack.length =
        (sender.senderFields ++ [toId, varintEncode encoding, varintEncode message.length, message,
          varintEncode ack.length] ++ if 0 < ack.length then [ack] else []).flatten.length % wordSize := by
      rw [hfields]
      simp only [addW, Nat.mod_add_mod, List.length_append, length_senderFields_pq, length_varintEncode, htoId,
        Nat.add_assoc]
    have hsmall := objectHeaderSize_le pqMsgObjectVersion toStream
    obtain ⟨hexact, sig, sealed, hsig, hseal, hout⟩ :=
      pqSignAndSeal_eq_some hopens (flatten_wObjectHeader _ _ _ _) (by omega) hpresig hdraft hbuilt
    refine ⟨hexact, fun hobject => ?_⟩
    obtain ⟨hoverhead, inner, hopen, hinner⟩ := hopens _ _ _ _ hseal
    rw [hout] at hobject
    have hrest : object.Rest 8 _ := ⟨packBe64 nonce, hobject, Radix.length_beBytes _ _⟩
    have hslice := hrest.slice
    have hverify := hsign _ _ _ hsig
    have hsigLen := C.length_pqv5Sign _ _ _ _ hsig
    have hopened : pqOpen C kemSk _ object = C.pqv5Open kemSk _ _ := pqOpen_of_rest hrest
    rw [hopen] at hopened
    rw [hfields] at hinner hverify
    obtain ⟨t, ht⟩ := result_pqParseMsgInner (s := ⟨_, false⟩) hinner hencoding htoId hsigLen hslice hverify
    rw [pqParsed, result_pqParseMsg_header htoStream rfl hrest (by omega) hopened, ht, Option.map_some]

/-- Objects of address version 5 that a builder returns have the sizes that were computed for
them, and are read back as they were built. -/
theorem pq_objects_round_trip (C : PqCrypto) (M : Allocator) (seed : Bytes) (sender : PqSenderInfo)
    (nonce expires encoding : ℕ) (message : Bytes) (hsign : PqSignsFor C sender.identity) (hopens : PqKeysOpen C)
    (hid : sender.identity.id = pqv5CalcId C sender.identity.sigPk sender.identity.kemPk)
    (hencoding : encoding < wordSize) :
    (∀ (b : PqBuilt) (object : Buf), pqBuildPubkey C seed M sender expires = some b →
      b.Exact ∧ (object.bytes = packBe64 nonce ++ b.out →
        pqParsed (pqParsePubkey C sender.identity.candidate object) = some
          ⟨sender.identity.version, sender.identity.stream, sender.bitfield, sender.identity.sigPk,
            sender.identity.kemPk, sender.nonceTrialsPerByte, sender.payloadLengthExtraBytes⟩)) ∧
    (∀ (toStream : ℕ) (toId toKemPk kemSk ack : Bytes) (b : PqBuilt) (object : Buf), toStream < wordSize →
      toId.length = pqv5IdLen → PqOpens C kemSk toKemPk →
      pqBuildMsg C seed M sender toStream toId toKemPk encoding message ack expires = some b →
      b.Exact ∧ (object.bytes = packBe64 nonce ++ b.out →
        pqParsed (pqParseMsg C kemSk object) = some
          ⟨sender.identity.version, sender.identity.stream, sender.bitfield, sender.identity.sigPk,
            sender.identity.kemPk, sender.nonceTrialsPerByte, sender.payloadLengthExtraBytes, toId,
            sender.identity.id, encoding, message, ack⟩)) ∧
    (∀ (b : PqBuilt) (object : Buf), pqBuildBroadcast C seed M sender encoding message expires = some b →
      b.Exact ∧ (object.bytes = packBe64 nonce ++ b.out →
        pqParsed (pqParseBroadcast C sender.identity.candidate object) = some
          ⟨sender.identity.version, sender.identity.stream, sender.bitfield, sender.identity.sigPk,
            sender.identity.kemPk, sender.nonceTrialsPerByte, sender.payloadLengthExtraBytes, sender.identity.id,
            encoding, message⟩)) := by
  refine ⟨?_, ?_, ?_⟩
  · intro b object hbuild
    exact parsed_pqBuildPubkey hid hsign hopens hbuild
  · intro toStream toId toKemPk kemSk ack b object htoStream htoId hpair hbuild
    rw [hid]
    exact parsed_pqBuildMsg hsign hpair hencoding htoStream htoId hbuild
  · intro b object hbuild
    exact parsed_pqBuildBroadcast hid hsign hopens hencoding hbuild

end

/-! ### A library without secrets -/

theorem length_padded_sha3_256 (data : Bytes) : ((data ++ List.replicate 32 0).take 32).length = 32 := by simp

theorem length_padded_sha3_512 (data : Bytes) : ((data ++ List.replicate 64 0).take 64).length = 64 := by simp

/-- Sealing puts zeroes in front of the plaintext, and every signature is zero and verifies. -/
def plainPqCrypto : PqCrypto where
  sha3_256 data := (data ++ List.replicate 32 0).take 32
  sha3_512 data := (data ++ List.replicate 64 0).take 64
  kemKeypairFromSeed seed := some (seed, seed)
  pqv5Sign _ _ _ := some (List.replicate pqv5SigLen 0)
  pqv5Verify _ _ _ := true
  pqv5Seal _ _ _ plaintext :=
    if plaintext.length < 2 ^ 63 then some (List.replicate pqv5SealOverhead 0 ++ plaintext) else none
  pqv5Open _ _ sealed :=
    if h : (sealed.drop pqv5SealOverhead).length < 2 ^ 63 then some (Buf.ofBytes _ h) else none
  length_sha3_256 := length_padded_sha3_256
  length_sha3_512 := length_padded_sha3_512
  length_pqv5Sign seed data sk sig h := by
    cases h
    exact List.length_replicate

theorem plainPqCrypto_opens (sk pk : Bytes) : PqOpens plainPqCrypto sk pk := by
  intro seed aad plaintext sealed h
  simp only [plainPqCrypto] at h
  split at h
  · next hlen =>
    cases h
    have hdrop : (List.replicate pqv5SealOverhead (0 : UInt8) ++ plaintext).drop pqv5SealOverhead = plaintext :=
      List.drop_left' List.length_replicate
    have hfits : ((List.replicate pqv5SealOverhead (0 : UInt8) ++ plaintext).drop pqv5SealOverhead).length < 2 ^ 63 := by
      rw [hdrop]
      exact hlen
    refine ⟨by rw [List.length_append, List.length_replicate], Buf.ofBytes _ hfits, ?_, ?_⟩
    · simp only [plainPqCrypto]
      rw [dif_pos hfits]
    · rw [Buf.bytes_ofBytes, hdrop]
  · cases h

/-- Memory full of zeroes. -/
def zeroAllocator : Allocator where
  buf n := if n < 2 ^ 63 then some (List.replicate n 0) else none
  inner n := if n < 2 ^ 63 then some (List.replicate n 0) else none
  buf_spec n mem h := by
    split at h
    · next hn =>
      cases h
      exact ⟨List.length_replicate, hn⟩
    · cases h
  inner_spec n mem h := by
    split at h
    · next hn =>
      cases h
      exact ⟨List.length_replicate, hn⟩
    · cases h

/-- A sender with keys of ones. -/
def onesSender : PqSenderInfo where
  identity := {
    version := 5
    stream := 1
    sigPk := List.replicate pqv5SigPkLen 1
    sigSk := []
    kemPk := List.replicate pqv5KemPkLen 1
    kemSk := []
    id := List.replicate pqv5IdLen 1
    version_lt := by decide
    stream_lt := one_lt_wordSize
    length_sigPk := List.length_replicate
    length_kemPk := List.length_replicate
    length_id := List.length_replicate }
  bitfield := 2
  nonceTrialsPerByte := 1000
  payloadLengthExtraBytes := 1000
  bitfield_lt := by decide
  nonceTrialsPerByte_lt := thousand_lt_wordSize
  payloadLengthExtraBytes_lt := thousand_lt_wordSize

/-- A message of two bytes from that sender. -/
def onesMsg : Option PqBuilt :=
  pqBuildMsg plainPqCrypto [] zeroAllocator onesSender 1 (List.replicate pqv5IdLen 7) [] 1 [0x48, 0x69] [] 0

/-- The message with a nonce. -/
def onesObject : Buf := Buf.ofBytes (packBe64 5 ++ (onesMsg.elim [] PqBuilt.out)) (by decide +kernel)

theorem onesMsg_round_trip :
    ∃ b, onesMsg = some b ∧ b.Exact ∧ pqParsed (pqParseMsg plainPqCrypto [] onesObject) = some
      ⟨5, 1, 2, List.replicate pqv5SigPkLen 1, List.replicate pqv5KemPkLen 1, 1000, 1000, List.replicate pqv5IdLen 7,
        List.replicate pqv5IdLen 1, 1, [0x48, 0x69], []⟩ := by
  have hsome : onesMsg.isSome = true := by decide +kernel
  obtain ⟨b, hb⟩ := Option.isSome_iff_exists.mp hsome
  obtain ⟨-, hmsg, -⟩ := pq_objects_round_trip plainPqCrypto zeroAllocator [] onesSender 5 0 1 [0x48, 0x69]
    (fun _ _ _ _ => rfl) (fun _ pk sk _ => plainPqCrypto_opens sk pk) (by decide +kernel) (by decide)
  obtain ⟨hexact, hparse⟩ := hmsg 1 (List.replicate pqv5IdLen 7) [] [] [] b onesObject (by decide)
    List.length_replicate (plainPqCrypto_opens _ _) hb
  refine ⟨b, hb, hexact, hparse ?_⟩
  rw [onesObject, Buf.bytes_ofBytes, hb, Option.elim_some]

end Bitmessage
