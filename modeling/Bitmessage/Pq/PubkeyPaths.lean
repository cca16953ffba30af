import Bitmessage.Infra.PoolAdmission
import Bitmessage.Pq.PubkeyCache

/-! A `pubkey` of version 5 reaches the cache when it arrives, or from the pool when its
address is asked for later. The pool looks for the tag where it stands behind a header
with version 5 and the stream of the address, and selects by type only. On arrival the
version has to be 5 and the tag has to stand behind the header as it was parsed. The
parser that both of them call looks at neither version nor stream of the header. -/

namespace Bitmessage

open Traced StickyParser Transition

section

variable (P : PqCrypto)

/-- The row that the arrival of an object writes: `handle_object` hands over a `pubkey` of version 5. -/
def arrivedPubkeyRow (requests : PqRequestTable) (hdr : ObjectHeader) (object : Buf) (now : ℤ) : Option PqPubkeyRow :=
  if hdr.objectType = objectPubkey ∧ hdr.version = pqPubkeyObjectVersion then
    incomingPubkeyRow P requests hdr object now
  else none

/-- The pool with one object in it. -/
def onlyObject (H : Hashes) (object : Buf) (hdr : ObjectHeader) (receivedTime : ℤ) : ObjectPool :=
  objectStoreInsert KeyedTable.empty (poolObject H object hdr receivedTime)

/-- The parser takes the object for a `pubkey` of the address. -/
def OpensAs (address : PqCandidate) (object : Buf) : Prop := (pqParsed (pqParsePubkey P address object)).isSome = true

end

section

variable {P : PqCrypto} {H : Hashes} {object object' : Buf} {address : PqCandidate} {hdr : ObjectHeader}

theorem pqHandleObject_pubkey (htype : hdr.objectType = objectPubkey) (R : PqReceivers) (store : PqPubkeyStore)
    (now : ℤ) : pqHandleObject P H R store hdr object now =
      match arrivedPubkeyRow P store.requests hdr object now with
      | none => store
      | some row =>
        ⟨store.cache.replace row, pqPubkeyCacheClearRequest store.requests (object.slice hdr.headerLen 32)⟩ := by
  have hmsg : ¬ objectPubkey = objectMsg := by decide
  unfold pqHandleObject arrivedPubkeyRow
  rw [htype, if_neg hmsg, if_pos rfl]
  by_cases hversion : hdr.version = pqPubkeyObjectVersion
  · rw [if_pos hversion, if_pos ⟨rfl, hversion⟩]
    rfl
  · rw [if_neg hversion, if_neg fun h => hversion h.2]

/-! ### The parser and the bytes -/

/-- What opens an object with a tag. -/
theorem result_pqOpenTagged (objectVersion : ℕ) (s : RBuf) :
    (pqOpenTagged P objectVersion address object).result s =
      if 8 ≤ object.size ∧ addW (addW 8 (objectHeaderSize objectVersion address.stream + 32)) pqv5SealOverhead ≤ object.size ∧
          object.slice (8 + (objectHeaderSize objectVersion address.stream + 32) - 32) 32 = address.tag P then
        (pqTaggedInner P objectVersion address object).map fun inner => (inner, ⟨0, false⟩)
      else none := by
  unfold pqOpenTagged
  by_cases h8 : 8 ≤ object.size
  · rw [result_require_bind h8]
    dsimp only
    by_cases hfits : addW (addW 8 (objectHeaderSize objectVersion address.stream + 32)) pqv5SealOverhead ≤ object.size
    · rw [result_require_bind hfits, result_emit_bind]
      by_cases htag : object.slice (8 + (objectHeaderSize objectVersion address.stream + 32) - 32) 32 = address.tag P
      · rw [result_require_bind htag, result_pqOpenAccess_bind, if_pos ⟨h8, hfits, htag⟩]
        cases pqTaggedInner P objectVersion address object with
        | none => rw [result_stop, Option.map_none]
        | some inner => rw [result_bind_of_result (result_set _ _), result_pure, Option.map_some]
      · rw [result_bind, result_require, if_neg htag, Option.bind_none, if_neg fun h => htag h.2.2]
    · rw [result_bind, result_require, if_neg hfits, Option.bind_none, if_neg fun h => hfits h.2.1]
  · rw [result_bind, result_require, if_neg h8, Option.bind_none, if_neg fun h => h8 h.1]

/-- The parser of a `pubkey` depends on the bytes of the object only. -/
theorem pqParsePubkey_congr (h : object.bytes = object'.bytes) :
    pqParsed (pqParsePubkey P address object) = pqParsed (pqParsePubkey P address object') := by
  have hsize : object.size = object'.size := by rw [← object.length_bytes, h, object'.length_bytes]
  unfold pqParsed pqParsePubkey
  rw [result_bind, result_bind, result_pqOpenTagged, result_pqOpenTagged, ← hsize]
  by_cases hfits : addW (addW 8 (objectHeaderSize pqPubkeyObjectVersion address.stream + 32)) pqv5SealOverhead ≤ object.size
  · have hlarge := hfits
    rw [addW_taggedLen] at hlarge
    have hover : pqv5SealOverhead = 1136 := rfl
    have hw := object.size_lt
    have hsub : subW (subW object.size 8) (objectHeaderSize pqPubkeyObjectVersion address.stream + 32) =
        object.size - 8 - (objectHeaderSize pqPubkeyObjectVersion address.stream + 32) := by
      rw [subW_of_le (by unfold wordSize; omega) (show 8 ≤ object.size by omega),
        subW_of_le (by unfold wordSize; omega) (by omega)]
    have hcongr (off len : ℕ) (hle : off + len ≤ object.size) : object.slice off len = object'.slice off len :=
      Buf.slice_congr h hle
    have hplain := hcongr 8 (objectHeaderSize pqPubkeyObjectVersion address.stream + 32) (by omega)
    have htag := hcongr (8 + (objectHeaderSize pqPubkeyObjectVersion address.stream + 32) - 32) 32 (by omega)
    have hsealed := hcongr (8 + (objectHeaderSize pqPubkeyObjectVersion address.stream + 32))
      (object.size - 8 - (objectHeaderSize pqPubkeyObjectVersion address.stream + 32)) (by omega)
    have hinner : pqTaggedInner P pqPubkeyObjectVersion address object =
        pqTaggedInner P pqPubkeyObjectVersion address object' := by
      simp only [pqTaggedInner, pqOpen, ← hsize, hsub, hplain, hsealed]
    have hcheck : ∀ inner sigPk,
        pqCheckSignature P (objectHeaderSize pqPubkeyObjectVersion address.stream + 32) object inner sigPk =
          pqCheckSignature P (objectHeaderSize pqPubkeyObjectVersion address.stream + 32) object' inner sigPk := by
      intro inner sigPk
      unfold pqCheckSignature
      rw [hplain]
    simp only [htag, hinner, hcheck]
  · simp only [hfits, false_and, and_false, if_false, Option.bind_none]

/-- The tag of an object that opens stands behind a header of version 5 with the stream of the address. -/
theorem OpensAs.tag (h : OpensAs P address object) :
    20 + varintSize pqPubkeyObjectVersion + varintSize address.stream + 32 + pqv5SealOverhead ≤ object.size ∧
      object.slice (20 + varintSize pqPubkeyObjectVersion + varintSize address.stream) 32 = address.tag P := by
  obtain ⟨parsed, hparsed⟩ := Option.isSome_iff_exists.mp h
  obtain ⟨u, hresult⟩ := pqParsed_eq_some hparsed
  unfold pqParsePubkey at hresult
  obtain ⟨inner, s, hopen, -⟩ := result_bind_eq_some.mp hresult
  rw [result_pqOpenTagged] at hopen
  split_ifs at hopen with hcond
  obtain ⟨-, hfits, htag⟩ := hcond
  have hoff : 8 + (objectHeaderSize pqPubkeyObjectVersion address.stream + 32) - 32 =
      20 + varintSize pqPubkeyObjectVersion + varintSize address.stream := by
    unfold objectHeaderSize
    omega
  rw [addW_taggedLen] at hfits
  rw [hoff] at htag
  refine ⟨?_, htag⟩
  unfold objectHeaderSize at hfits
  omega

/-! ### The row from the pool -/

theorem rows_onlyObject (receivedTime : ℤ) :
    (onlyObject H object hdr receivedTime).rows = [poolObject H object hdr receivedTime] := rfl

theorem length_inventoryHash (payload : Bytes) : (inventoryHash H payload).length = 32 := by
  rw [inventoryHash, doubleSha512, List.length_take, H.length_sha512]
  rfl

/-- From the pool a `pubkey` is stored when it opens, whatever its header says otherwise. -/
theorem poolPubkeyRow_onlyObject (htype : hdr.objectType < 2 ^ 32) (receivedTime now : ℤ) :
    poolPubkeyRow P (onlyObject H object hdr receivedTime) address now =
      if hdr.objectType = objectPubkey then
        (pqParsed (pqParsePubkey P address object)).map fun parsed => pqPubkeyRow P address.id parsed now
      else none := by
  have hmem : poolObject H object hdr receivedTime ∈ (onlyObject H object hdr receivedTime).rows :=
    List.mem_singleton.mpr rfl
  obtain ⟨read, hread, hbytes⟩ := objectStoreGet_of_mem hmem
  have hint : (poolObject H object hdr receivedTime).objectType = (objectPubkey : ℤ) ↔ hdr.objectType = objectPubkey :=
    objectType_poolObject_iff htype (by decide)
  have hparse : pqParsed (pqParsePubkey P address read) = pqParsed (pqParsePubkey P address object) :=
    pqParsePubkey_congr hbytes
  have hlength := length_inventoryHash (H := H) object.bytes
  simp only [poolPubkeyRow, objectStoreListHashesByTag, rows_onlyObject, List.filter_cons, List.filter_nil, hint]
  by_cases hpubkey : hdr.objectType = objectPubkey
  · by_cases htag : ((poolObject H object hdr receivedTime).payload.drop
        (8 + 8 + 4 + varintSize pqPubkeyObjectVersion + varintSize address.stream)).take 32 = address.tag P
    · have hhash : (poolObject H object hdr receivedTime).hash = inventoryHash H object.bytes := rfl
      simp only [hpubkey, htag, and_self, decide_true, if_true, List.mergeSort_singleton, List.filterMap_cons, hhash,
        hlength, List.filterMap_nil, List.findSome?_cons, hread, Option.bind_some, hparse]
      cases (pqParsed (pqParsePubkey P address object)).map fun parsed => pqPubkeyRow P address.id parsed now <;> rfl
    · have hclosed : pqParsed (pqParsePubkey P address object) = none := by
        rw [← Option.not_isSome_iff_eq_none]
        intro hopens
        obtain ⟨hsize, hslice⟩ := OpensAs.tag hopens
        rw [object.slice_eq (by omega)] at hslice
        exact htag hslice
      simp [hpubkey, htag, hclosed]
  · simp [hpubkey]

/-! ### The row on arrival -/

theorem Buf.varintAt_le_nine {b : Buf} {p v q : ℕ} (h : b.varintAt p = some (v, q)) : q ≤ p + 9 := by
  have hnine := varintDecode_length_le_nine (b.slice p (min (b.size - p) 9))
  unfold Buf.varintAt at h
  split at h
  · cases h
  · cases h
    exact Nat.add_le_add_left hnine p

/-- A header is short, and its type has 32 bits. -/
theorem Buf.header_bounds {b : Buf} {hdr : ObjectHeader} (h : b.header = some hdr) :
    hdr.headerLen ≤ 38 ∧ hdr.objectType < 2 ^ 32 := by
  unfold Buf.header at h
  rw [result_objectParseHeader] at h
  split_ifs at h with h20
  · rcases hv : b.varintAt 20 with _ | ⟨v, p⟩
    · simp [hv] at h
    · rcases hs : b.varintAt p with _ | ⟨s, q⟩
      · simp [hv, hs] at h
      · have hp := Buf.varintAt_le_nine hv
        have hq := Buf.varintAt_le_nine hs
        have htype := Radix.beNat_lt (b.slice 16 4)
        rw [Buf.length_slice] at htype
        simp only [hv, hs, Option.bind_some, Option.map_some, Option.some.injEq] at h
        subst h
        exact ⟨by simp only; omega, by simp only; omega⟩
  · cases h

variable {store : PqPubkeyStore} {request : PqPubkeyRequest} {row : PqPubkeyRow}

/-- On arrival a `pubkey` is stored for an address that was asked for when it opens, its header is of
version 5 and the tag stands right behind the header. -/
theorem arrivedPubkeyRow_iff (hintegrity : store.Integrity P) (hrequest : request ∈ store.requests.rows)
    (hheader : object.header = some hdr) {now : ℤ} :
    arrivedPubkeyRow P store.requests hdr object now = some row ∧ row.candidate = request.candidate ↔
      (hdr.objectType = objectPubkey ∧ hdr.version = pqPubkeyObjectVersion ∧
        object.slice hdr.headerLen 32 = request.tag) ∧
      (pqParsed (pqParsePubkey P request.candidate object)).map (fun parsed => pqPubkeyRow P request.id parsed now) =
        some row := by
  obtain ⟨hversion, hid, htag⟩ := hintegrity.requests request hrequest
  constructor
  · rintro ⟨harrived, hcandidate⟩
    unfold arrivedPubkeyRow at harrived
    split_ifs at harrived with hkind
    obtain ⟨other, hmem, hother, parsed, hparsed, rfl⟩ := incomingPubkeyRow_eq_some harrived
    obtain ⟨hversion', -, htag'⟩ := hintegrity.requests other hmem
    -- the request that was found is for the same address, so it has the same tag
    have hbound : (pqPubkeyRow P other.candidate.id parsed now).candidate = other.candidate :=
      (pqParsePubkey_bound hversion' hparsed).2
    have hsame : other.candidate = request.candidate := by
      rw [← hbound]
      exact hcandidate
    have heq : other = request := by
      apply List.inj_on_of_nodup_map store.requests.nodup hmem hrequest
      rw [htag', hsame, ← htag]
    subst heq
    exact ⟨⟨hkind.1, hkind.2, hother.symm⟩, by rw [hparsed, Option.map_some]⟩
  · rintro ⟨⟨htype, hver, hslice⟩, hmap⟩
    obtain ⟨parsed, hparsed, rfl⟩ := Option.map_eq_some_iff.mp hmap
    have hopens : OpensAs P request.candidate object := by rw [OpensAs, hparsed]; rfl
    have hsize := (OpensAs.tag hopens).1
    have hover : pqv5SealOverhead = 1136 := rfl
    have hlen := (Buf.header_bounds hheader).1
    have hfind : pqPubkeyCacheFindRequest store.requests (object.slice hdr.headerLen 32) = some request := by
      rw [pqPubkeyCacheFindRequest, hslice, KeyedTable.find?_eq_some.mpr ⟨hrequest, rfl⟩, Option.filter_some]
      simp only [hid, decide_true, if_true]
    refine ⟨?_, (pqParsePubkey_bound hversion hparsed).2⟩
    unfold arrivedPubkeyRow incomingPubkeyRow
    rw [if_pos ⟨htype, hver⟩, if_neg (by omega), hfind, Option.bind_some, hparsed, Option.map_some]

end

/-- In every reachable state the arrival of an object stores for an address that was asked for what
the pool would store with that object in it, exactly when the header of an object that opens as a
`pubkey` of the address is of version 5 and ends at the tag. -/
theorem pubkey_v5_paths_agree_iff (P : PqCrypto) (H : Hashes) {es : List PqPubkeyEvent} {store : PqPubkeyStore}
    (hrun : run (pqPubkeyStep P H) emptyPqPubkeyStore es = some store) {request : PqPubkeyRequest}
    (hrequest : request ∈ store.requests.rows) {object : Buf} {hdr : ObjectHeader} (hheader : object.header = some hdr)
    (receivedTime now : ℤ) :
    (∀ row, arrivedPubkeyRow P store.requests hdr object now = some row ∧ row.candidate = request.candidate ↔
      poolPubkeyRow P (onlyObject H object hdr receivedTime) request.candidate now = some row) ↔
    (hdr.objectType = objectPubkey → OpensAs P request.candidate object →
      hdr.version = pqPubkeyObjectVersion ∧ object.slice hdr.headerLen 32 = request.tag) := by
  have hintegrity := integrity_run hrun
  have htype := (Buf.header_bounds hheader).2
  simp only [arrivedPubkeyRow_iff hintegrity hrequest hheader, poolPubkeyRow_onlyObject htype]
  constructor
  · intro hagree hpubkey hopens
    obtain ⟨parsed, hparsed⟩ := Option.isSome_iff_exists.mp hopens
    have hrow := (hagree (pqPubkeyRow P request.id parsed now)).mpr
      (by rw [if_pos hpubkey, hparsed, Option.map_some]; rfl)
    exact hrow.1.2
  · intro hcond row
    by_cases hpubkey : hdr.objectType = objectPubkey
    · rw [if_pos hpubkey]
      constructor
      · exact fun h => h.2
      · intro hmap
        obtain ⟨parsed, hparsed, -⟩ := Option.map_eq_some_iff.mp hmap
        have hopens : OpensAs P request.candidate object := by rw [OpensAs, hparsed]; rfl
        exact ⟨⟨hpubkey, hcond hpubkey hopens⟩, hmap⟩
    · rw [if_neg hpubkey]
      constructor
      · exact fun h => absurd h.1.1 hpubkey
      · intro h
        cases h

/-! ### Another version in the header -/

/-- `bm_pq_build_pubkey` with another version in the header. -/
def pubkeyOfVersion (P : PqCrypto) (seed : Bytes) (M : Allocator) (sender : PqSenderInfo) (objectVersion expires : ℕ) :
    Option PqBuilt := do
  let identity := sender.identity
  let keys ← pqv5AddressKemKeypair P identity.version identity.stream identity.id
  let d ← pqDraft M (objectHeaderSize objectVersion identity.stream + 32) sender.keyFieldsLen
    (wObjectHeader expires pqObjectPubkey objectVersion identity.stream ++ [identity.candidate.tag P])
    sender.keyFields
  pqSignAndSeal P seed identity keys.1 d

theorem pqBuildPubkey_eq (P : PqCrypto) (seed : Bytes) (M : Allocator) (sender : PqSenderInfo) (expires : ℕ) :
    pqBuildPubkey P seed M sender expires = pubkeyOfVersion P seed M sender pqPubkeyObjectVersion expires := rfl

section

variable {P : PqCrypto} {M : Allocator} {seed : Bytes} {sender : PqSenderInfo} {object : Buf} {version nonce expires : ℕ}
  {b : PqBuilt}

/-- The parser looks at the size of the version only. -/
theorem pqOpenTagged_version {objectVersion objectVersion' : ℕ} {address : PqCandidate}
    (h : varintSize objectVersion = varintSize objectVersion') :
    pqOpenTagged P objectVersion address object = pqOpenTagged P objectVersion' address object := by
  have hsize : objectHeaderSize objectVersion address.stream = objectHeaderSize objectVersion' address.stream := by
    rw [objectHeaderSize, objectHeaderSize, h]
  unfold pqOpenTagged pqTaggedInner
  rw [hsize]

/-- The owner's `pubkey` with another version in the header is as long, and opens all the same. -/
theorem pubkeyOfVersion_opens (hversion : varintSize version = varintSize pqPubkeyObjectVersion)
    (hid : sender.identity.id = pqv5CalcId P sender.identity.sigPk sender.identity.kemPk)
    (hsign : PqSignsFor P sender.identity) (hopens : PqKeysOpen P)
    (hbuild : pubkeyOfVersion P seed M sender version expires = some b) (hobject : object.bytes = packBe64 nonce ++ b.out) :
    OpensAs P sender.identity.candidate object := by
  simp only [pubkeyOfVersion, Option.bind_eq_bind, Option.bind_eq_some_iff] at hbuild
  obtain ⟨keys, hkeys, d, hdraft, hbuilt⟩ := hbuild
  have hpresig : sender.keyFieldsLen = sender.keyFields.flatten.length % wordSize := keyFieldsLen_eq_mod sender
  obtain ⟨-, hopened⟩ := pqTagged_built (s := rbufInit) hsign hopens hkeys hpresig hdraft hbuilt
  obtain ⟨sig, inner, plain, hplain, hinner, hsig, hslice, hverify, hopen⟩ := hopened hobject
  rw [pqOpenTagged_version hversion] at hopen
  have hsize : objectHeaderSize version sender.identity.candidate.stream =
      objectHeaderSize pqPubkeyObjectVersion sender.identity.candidate.stream := by
    rw [objectHeaderSize, objectHeaderSize, hversion]
  obtain ⟨t, ht⟩ := pqCheckSignature_of_rest hinner (Nat.zero_add _).symm hsig hslice hverify
  rw [hplain, hsize] at ht
  unfold OpensAs pqParsed pqParsePubkey
  rw [result_bind_of_result hopen, result_bind_of_result (pqKeyFields_of_rest (Buf.rest_zero hinner)),
    result_bind_of_result ht, result_require_bind (calcId_asKeyFields hid), result_pure, Option.map_some]
  rfl

/-- Its header is the one that was written. -/
theorem header_pubkeyOfVersion (hversion : version < wordSize) (hnonce : nonce < wordSize) (hexpires : expires < wordSize)
    (hbuild : pubkeyOfVersion P seed M sender version expires = some b) (hobject : object.bytes = packBe64 nonce ++ b.out) :
    object.header = some ⟨nonce, expires, objectPubkey, version, sender.identity.stream,
      20 + varintSize version + varintSize sender.identity.stream⟩ := by
  simp only [pubkeyOfVersion, Option.bind_eq_bind, Option.bind_eq_some_iff] at hbuild
  obtain ⟨keys, -, d, hdraft, hbuilt⟩ := hbuild
  obtain ⟨sealed, hout⟩ := pqSignAndSeal_out (MinedObject.length_taggedHeader _ _ _ _ _) hdraft hbuilt
  have hbytes : object.bytes = packBe64 nonce ++ (packBe64 expires ++ (Radix.beBytes 4 objectPubkey ++
      (varintEncode version ++ (varintEncode sender.identity.stream ++
        (sender.identity.candidate.tag P ++ sealed))))) := by
    rw [hobject, hout]
    simp only [wObjectHeader, packBe64, List.flatten_append, List.flatten_cons, List.flatten_nil, List.append_assoc,
      List.nil_append]
    rfl
  exact Buf.header_of_bytes hnonce hexpires (by decide) hversion sender.identity.stream_lt hbytes

end

/-- The address of the sender of ones, and what is asked for when a message to it is sent. -/
def onesAddress : Bytes := (pqv5AddressEncode prefixHashes 5 1 (List.replicate pqv5IdLen 1)).getD []
def onesRequest : PqPubkeyRequest :=
  ⟨onesSender.identity.candidate.tag plainPqCrypto, List.replicate pqv5IdLen 1, 5, 1, 0⟩
def onesAsked : List PqPubkeyEvent := [.sendMessage zeroAllocator [] KeyedTable.empty onesAddress 0]
def onesAskedStore : PqPubkeyStore :=
  ⟨KeyedTable.empty, pqPubkeyCacheRecordRequest plainPqCrypto KeyedTable.empty onesSender.identity.candidate 0⟩

/-- A message to an address of which nothing is known. -/
theorem pqRequestPubkeyIfUnknown_new {P : PqCrypto} {H : Hashes} {M : Allocator} {toAddress id : Bytes}
    {version stream : ℕ} {now : ℤ} (hdecode : pqv5AddressDecode H toAddress = some (version, stream, id))
    (hbuild : (pqBuildGetpubkey P M version stream id (addW (ofInt64 now) getpubkeyRequestTtl)).isSome = true) :
    pqRequestPubkeyIfUnknown P H M [] KeyedTable.empty emptyPqPubkeyStore toAddress now =
      ⟨KeyedTable.empty, pqPubkeyCacheRecordRequest P KeyedTable.empty ⟨version, stream, id⟩ now⟩ := by
  obtain ⟨payload, hpayload⟩ := Option.isSome_iff_exists.mp hbuild
  have hlookup : pqPubkeyCacheLookup P emptyPqPubkeyStore.cache ⟨version, stream, id⟩ = none := rfl
  have hrecent : pqPubkeyCacheHasRecentRequest emptyPqPubkeyStore.requests (PqCandidate.tag P ⟨version, stream, id⟩) now
      getpubkeyRequestCooldown = false := rfl
  have hpool : resolvePqPubkeyFromPool P KeyedTable.empty emptyPqPubkeyStore ⟨version, stream, id⟩ now = none := by
    simp [resolvePqPubkeyFromPool, poolPubkeyRow, objectStoreListHashesByTag, KeyedTable.empty]
  simp only [pqRequestPubkeyIfUnknown, hdecode, hlookup, hrecent, hpool, hpayload, List.not_mem_nil, Option.isSome_none,
    Bool.false_eq_true, or_self, if_false]
  rfl

theorem run_onesAsked : run (pqPubkeyStep plainPqCrypto prefixHashes) emptyPqPubkeyStore onesAsked = some onesAskedStore := by
  have hdecode : pqv5AddressDecode prefixHashes onesAddress = some (5, 1, List.replicate pqv5IdLen 1) := by decide +kernel
  have hbuild : (pqBuildGetpubkey plainPqCrypto zeroAllocator 5 1 (List.replicate pqv5IdLen 1)
      (addW (ofInt64 0) getpubkeyRequestTtl)).isSome = true := by
    decide +kernel
  have hnext := pqRequestPubkeyIfUnknown_new hdecode hbuild
  rw [onesAsked, run_cons_of (u := onesAskedStore), run_nil]
  exact congrArg some hnext

theorem onesRequest_mem : onesRequest ∈ onesAskedStore.requests.rows := List.mem_singleton.mpr rfl

/-- The `pubkey` of the sender of ones with 6 in the place of the version. -/
def onesPubkeyOfSix : Option PqBuilt := pubkeyOfVersion plainPqCrypto [] zeroAllocator onesSender 6 0

theorem onesPubkeyOfSix_built :
    (onesPubkeyOfSix.elim [] PqBuilt.out).length < 2 ^ 17 ∧ onesPubkeyOfSix.isSome = true := by
  decide +kernel

theorem length_onesPubkeyOfSix : (packBe64 0 ++ onesPubkeyOfSix.elim [] PqBuilt.out).length < 2 ^ 63 := by
  have hlen := onesPubkeyOfSix_built.1
  rw [List.length_append, packBe64, Radix.length_beBytes]
  omega

def sixObject : Buf := Buf.ofBytes _ length_onesPubkeyOfSix
def sixHeader : ObjectHeader := ⟨0, 0, objectPubkey, 6, 1, 22⟩

/-- The object is accepted and opens as a `pubkey` of its owner. -/
theorem sixObject_read : objectAccept prefixHashes sixObject 0 = some sixHeader ∧
    OpensAs plainPqCrypto onesSender.identity.candidate sixObject := by
  obtain ⟨b, hb⟩ := Option.isSome_iff_exists.mp onesPubkeyOfSix_built.2
  have hbytes : sixObject.bytes = packBe64 0 ++ b.out := by
    rw [sixObject, Buf.bytes_ofBytes, hb, Option.elim_some]
  have hheader : sixObject.header = some sixHeader :=
    header_pubkeyOfVersion (by decide) (by norm_num) (by norm_num) hb hbytes
  have hsize : sixObject.size < 2 ^ 17 + 8 := by
    have hlen := onesPubkeyOfSix_built.1
    rw [hb, Option.elim_some] at hlen
    rw [← sixObject.length_bytes, hbytes, List.length_append, packBe64, Radix.length_beBytes]
    omega
  have hpow : objectPowIsValid prefixHashes sixObject sixHeader 0 = true := powSolves_prefixHashes_zero _ _
  constructor
  · rw [objectAccept, if_neg (by unfold maxObjectPayloadSize; omega), objectCheck, hheader, Option.bind_some, hpow]
    rfl
  · exact pubkeyOfVersion_opens (by decide) (by decide +kernel) (fun _ _ _ _ => rfl)
      (fun _ pk sk _ => plainPqCrypto_opens sk pk) hb hbytes

/-- With 6 in the header an object is stored from the pool, and not on arrival. -/
theorem version_six_stored_from_pool_only :
    run (pqPubkeyStep plainPqCrypto prefixHashes) emptyPqPubkeyStore onesAsked = some onesAskedStore ∧
      onesRequest ∈ onesAskedStore.requests.rows ∧ objectAccept prefixHashes sixObject 0 = some sixHeader ∧
      arrivedPubkeyRow plainPqCrypto onesAskedStore.requests sixHeader sixObject 0 = none ∧
      (poolPubkeyRow plainPqCrypto (onlyObject prefixHashes sixObject sixHeader 0) onesRequest.candidate 0).isSome =
        true := by
  obtain ⟨haccept, hopens⟩ := sixObject_read
  refine ⟨run_onesAsked, onesRequest_mem, haccept, rfl, ?_⟩
  rw [poolPubkeyRow_onlyObject (by decide), if_pos (show sixHeader.objectType = objectPubkey from rfl), Option.isSome_map]
  exact hopens

/-- At that object the two ways do not agree, since the version in its header is not 5. -/
theorem version_six_paths_disagree :
    ¬ ∀ row, arrivedPubkeyRow plainPqCrypto onesAskedStore.requests sixHeader sixObject 0 = some row ∧
        row.candidate = onesRequest.candidate ↔
      poolPubkeyRow plainPqCrypto (onlyObject prefixHashes sixObject sixHeader 0) onesRequest.candidate 0 = some row := by
  have hheader : sixObject.header = some sixHeader := objectAccept_header sixObject_read.1
  intro hagree
  have hversion := (pubkey_v5_paths_agree_iff plainPqCrypto prefixHashes run_onesAsked onesRequest_mem hheader 0 0).mp
    hagree rfl sixObject_read.2
  exact absurd hversion.1 (by decide)

end Bitmessage
