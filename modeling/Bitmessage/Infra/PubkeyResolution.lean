import Bitmessage.Infra.PubkeySync

/-! What a later send finds in the cache. A row that came with a signature stays as it is
under objects of third parties, as long as no unsigned key of version 2 with the same ripe
is among them. And the key of an address is found once its `pubkey` object has come and it
has been asked for, as long as the object was stored while the request was pending. -/

namespace Bitmessage

open Transition

variable (N : Node)

/-! ### Downgrades -/

/-- What `prepare_legacy_msg` takes from the cache: the encryption key and the difficulty. -/
def sendData (store : PubkeyStore) (sender : Difficulty) (ripe : Bytes) : Option (Bytes × Difficulty) :=
  (pubkeyCacheLookup store.cache ripe).map fun row => (row.encryptionPubkey, legacyDifficulty sender (some row))

/-- An object that was made without the private signing key of a row: no signature in it verifies
under that key, and no keys in it collide with those of the row. -/
structure ThirdPartyObject (C : Crypto) (row : CachedPubkey) (object : Buf) : Prop where
  unforged : ∀ key, SignedPubkey C object key → key.signingPubkey ≠ row.signingPubkey
  no_collision : ∀ key, SignedPubkey C object key → key.ripe = row.ripe → key.signingPubkey = row.signingPubkey

/-- Every object received is one of a third party. -/
def FromThirdParty (row : CachedPubkey) (_ : PubkeySync) : PubkeyEvent → Prop
  | .pool (.receive _ r) => ThirdPartyObject N.toCrypto row r.object
  | .pool (.gc _) | .pool (.maybeGc _) | .sendMessage _ _ => True
  | .cachePubkey _ _ _ => False

/-- No `pubkey` of version 2 with the ripe of the row is handled. -/
def NoUnsignedTwin (row : CachedPubkey) (s : PubkeySync) : PubkeyEvent → Prop
  | .pool (.receive K r) =>
    ∀ hdr ∈ s.sync.sync.dispatched (N.context K) r, hdr.objectType = objectPubkey → hdr.version = 2 →
      ∀ key ∈ parsedPubkey (parsePubkeyV2 N.toCrypto r.object), key.ripe ≠ row.ripe
  | .pool (.gc _) | .pool (.maybeGc _) | .sendMessage _ _ | .cachePubkey _ _ _ => True

section

variable {N} {row : CachedPubkey} {s : PubkeySync}

/-- A third party's object that is not of version 2 has another ripe. -/
theorem ThirdPartyObject.ripe_ne {C : Crypto} {object : Buf} (h : ThirdPartyObject C row object) {key : CachedPubkey}
    (hkey : SignedPubkey C object key) : key.ripe ≠ row.ripe :=
  fun hripe => h.unforged key hkey (h.no_collision key hkey hripe)

theorem lookup_step {e : PubkeyEvent} (h : pubkeyCacheLookup s.store.cache row.ripe = some row)
    (hthird : FromThirdParty N row s e) (htwin : NoUnsignedTwin N row s e) :
    pubkeyCacheLookup (pubkeyNext N s e).store.cache row.ripe = some row := by
  cases e with
  | pool e =>
    cases e with
    | receive K r =>
      rcases storeAfter_receive (N := N) (s := s) K r with hsame | ⟨hdr, key, hd, htype, hkey, hafter⟩
      · simpa only [pubkeyNext, hsame] using h
      · have hne : row.ripe ≠ key.ripe := by
          rcases receivedPubkey_cases hkey with ⟨hversion, hkey⟩ | hkey
          · exact (htwin hdr hd htype hversion key hkey).symm
          · exact (hthird.ripe_ne hkey).symm
        simp only [pubkeyNext, hafter, pubkeyCacheLookup]
        rw [find?_pubkeyCacheUpsert_of_ne hne]
        exact h
    | gc now => exact h
    | maybeGc now => exact h
  | cachePubkey address signingHex encryptionHex => exact hthird.elim
  | sendMessage toAddress now => simpa only [pubkeyNext, requestPubkeyIfUnknown_cache] using h

end

/-- While objects of third parties arrive and none of them is an unsigned key with the same ripe,
what a send to the address uses does not change. -/
theorem no_downgrade {s : PubkeySync} {row : CachedPubkey} (hrow : pubkeyCacheLookup s.store.cache row.ripe = some row)
    {es : List PubkeyEvent} (hthird : Along (pubkeyStep N) (FromThirdParty N row) s es)
    (htwin : Along (pubkeyStep N) (NoUnsignedTwin N row) s es) :
    Always (pubkeyStep N) (fun t => ∀ sender, sendData t.store sender row.ripe = sendData s.store sender row.ripe)
      s es := by
  have hlookup : Always (pubkeyStep N) (fun t => pubkeyCacheLookup t.store.cache row.ripe = some row) s es := by
    refine always_of_along ?_ hrow (hthird.and htwin)
    intro u e t hu hcond ht
    cases ht
    exact lookup_step hu hcond.1 hcond.2
  refine hlookup.imp fun t ht sender => ?_
  rw [sendData, sendData, ht, hrow]

/-! ### Resolution -/

/-- The hash of an object. -/
def objectHash (object : Buf) : Bytes := inventoryHash N.toHashes object.bytes

/-- The object arrives and is accepted, be it for the first time or not. -/
def PubkeyEvent.Arrives (object : Buf) (e : PubkeyEvent) : Prop :=
  ∃ K r, e = .pool (.receive K r) ∧ objectHash N r.object = objectHash N object ∧
    (objectAccept N.toHashes r.object r.now).isSome = true

/-- A message asks for the key of the address. -/
def PubkeyEvent.Asks (address : Candidate) (e : PubkeyEvent) : Prop :=
  ∃ toAddress now, e = .sendMessage toAddress now ∧
    addressDecode N.toHashes toAddress = some (address.version, address.stream, address.ripe)

/-- Once the object has arrived and the key was asked for, the key is in the cache. -/
def Resolved (address : Candidate) (object : Buf) (s : PubkeySync) (es : List PubkeyEvent) : Prop :=
  ∀ before after t, es = before ++ after → (∃ e ∈ before, e.Arrives N object) → (∃ e ∈ before, e.Asks N address) →
    run (pubkeyStep N) s before = some t → (pubkeyCacheLookup t.store.cache address.ripe).isSome = true

/-- If the event stores the object while the key is unknown, it is the arrival of the object, the
request for the address is pending, and no other pending request opens the object. -/
def StoredWhilePending (address : Candidate) (object : Buf) (s : PubkeySync) (e : PubkeyEvent) : Prop :=
  pubkeyCacheLookup s.store.cache address.ripe = none → objectHash N object ∉ s.sync.sync.poolHashes →
    objectHash N object ∈ (pubkeyNext N s e).sync.sync.poolHashes →
    (∃ K r, e = .pool (.receive K r) ∧ r.object = object) ∧
      address ∈ pubkeyCacheListPending s.store.requests ∧
      ∀ candidate ∈ pubkeyCacheListPending s.store.requests,
        (parsedPubkey (parsePubkeyV4 N.toCrypto candidate object)).isSome = true → candidate = address

section

variable {N} {address : Candidate} {object : Buf} {row : CachedPubkey} {s : PubkeySync}

/-- Rows are never deleted. -/
theorem lookup_isSome_step (e : PubkeyEvent) {ripe : Bytes}
    (h : (pubkeyCacheLookup s.store.cache ripe).isSome = true) :
    (pubkeyCacheLookup (pubkeyNext N s e).store.cache ripe).isSome = true := by
  cases e with
  | pool e =>
    cases e with
    | receive K r =>
      rcases storeAfter_receive (N := N) (s := s) K r with hsame | ⟨hdr, key, -, -, -, hafter⟩
      · simpa only [pubkeyNext, hsame] using h
      · simp only [pubkeyNext, hafter, pubkeyCacheLookup]
        exact isSome_find?_pubkeyCacheUpsert h
    | gc now => exact h
    | maybeGc now => exact h
  | cachePubkey address signingHex encryptionHex =>
    simp only [pubkeyNext, cachePubkey]
    split
    · exact h
    · exact isSome_find?_pubkeyCacheUpsert h
  | sendMessage toAddress now => simpa only [pubkeyNext, requestPubkeyIfUnknown_cache] using h

/-- The only pending request that opens an object is the one it is taken for. -/
theorem receivedPubkey_of_pending {pending : List Candidate} {hdr : ObjectHeader} (hversion : hdr.version = 4)
    (hvalid : parsedPubkey (parsePubkeyV4 N.toCrypto address object) = some row) (hmem : address ∈ pending)
    (honly : ∀ candidate ∈ pending,
      (parsedPubkey (parsePubkeyV4 N.toCrypto candidate object)).isSome = true → candidate = address) :
    receivedPubkey N.toCrypto pending hdr object = some row := by
  simp only [receivedPubkey, hversion, if_true]
  cases hfind : pending.findSome? fun candidate => parsedPubkey (parsePubkeyV4 N.toCrypto candidate object) with
  | none =>
    have := List.findSome?_eq_none_iff.mp hfind address hmem
    rw [hvalid] at this
    cases this
  | some key =>
    obtain ⟨candidate, hcandidate, hkey⟩ := List.exists_of_findSome?_eq_some hfind
    have heq := honly candidate hcandidate (by rw [hkey]; rfl)
    rw [heq, hvalid] at hkey
    simpa using hkey.symm

/-- An object that is stored while its request is pending brings the key. -/
theorem lookup_of_stored (hvalid : parsedPubkey (parsePubkeyV4 N.toCrypto address object) = some row) {K : Receivers}
    {r : Receipt} (hobject : r.object = object) {hdr : ObjectHeader}
    (hd : s.sync.sync.dispatched (N.context K) r = some hdr)
    (hmem : address ∈ pubkeyCacheListPending s.store.requests)
    (honly : ∀ candidate ∈ pubkeyCacheListPending s.store.requests,
      (parsedPubkey (parsePubkeyV4 N.toCrypto candidate object)).isSome = true → candidate = address) :
    (pubkeyCacheLookup (s.storeAfter N (.receive K r)).cache address.ripe).isSome = true := by
  obtain ⟨hdr', hhdr', htype, hversion⟩ := parsePubkeyV4_header hvalid
  have haccept := (dispatched_eq_some.mp hd).2
  have hhdr : object.header = some hdr := by
    rw [← hobject]
    exact objectAccept_header haccept
  have heq : hdr = hdr' := Option.some.inj (hhdr.symm.trans hhdr')
  subst heq
  have hreceived := receivedPubkey_of_pending hversion hvalid hmem honly
  have hripe : row.ripe = address.ripe := (parsePubkeyV4_spec hvalid).2.1
  simp only [PubkeySync.storeAfter, hd, htype, if_true, handleIncomingPubkey, hobject, hreceived, pubkeyCacheLookup]
  rw [← hripe, find?_pubkeyCacheUpsert_self]
  rfl

/-- The key is known, or the object has not been stored. -/
def KnownOrNew (N : Node) (address : Candidate) (object : Buf) (s : PubkeySync) : Prop :=
  (pubkeyCacheLookup s.store.cache address.ripe).isSome = true ∨ objectHash N object ∉ s.sync.sync.poolHashes

theorem knownOrNew_step (hvalid : parsedPubkey (parsePubkeyV4 N.toCrypto address object) = some row)
    (h : KnownOrNew N address object s) {e : PubkeyEvent} (hcond : StoredWhilePending N address object s e) :
    KnownOrNew N address object (pubkeyNext N s e) := by
  by_cases hknown : (pubkeyCacheLookup s.store.cache address.ripe).isSome = true
  · exact .inl (lookup_isSome_step e hknown)
  · by_cases hstored : objectHash N object ∈ (pubkeyNext N s e).sync.sync.poolHashes
    · have hnew := h.resolve_left hknown
      rw [Bool.not_eq_true, Option.isSome_eq_false_iff, Option.isNone_iff_eq_none] at hknown
      obtain ⟨⟨K, r, rfl, hobject⟩, hmem, honly⟩ := hcond hknown hnew hstored
      left
      cases hd : s.sync.sync.dispatched (N.context K) r with
      | none =>
        have hpool : objectHash N object ∈ (handleObject (N.context K) s.sync.sync r).poolHashes := hstored
        rw [ObjectSync.poolHashes, (handleObject_of_not_dispatched hd).1] at hpool
        exact absurd hpool hnew
      | some hdr => exact lookup_of_stored hvalid hobject hd hmem honly
    · exact .inr hstored

/-- An object that is accepted is in the pool afterwards. -/
theorem PubkeyEvent.Arrives.stored {e : PubkeyEvent} (h : e.Arrives N object) (s : PubkeySync) :
    objectHash N object ∈ (pubkeyNext N s e).sync.sync.poolHashes := by
  obtain ⟨K, r, rfl, hhash, haccept⟩ := h
  rw [← hhash]
  by_cases hin : objectHash N r.object ∈ s.sync.sync.poolHashes
  · exact poolHashes_subset_handleObject hin
  · obtain ⟨hdr, hhdr⟩ := Option.isSome_iff_exists.mp haccept
    have hd : s.sync.sync.dispatched (N.context K) r = some hdr := dispatched_eq_some.mpr ⟨hin, hhdr⟩
    exact mem_poolHashes_handleObject.mpr (.inr (.inl ⟨Option.isSome_iff_exists.mpr ⟨hdr, hd⟩, rfl⟩))

end

/-- In every run in which the object of a version 4 address is stored while the request for the
address is pending, the key is in the cache once the object has arrived and was asked for. -/
theorem pubkey_resolved {address : Candidate} {object : Buf} {row : CachedPubkey} {s : PubkeySync}
    {es : List PubkeyEvent} (hvalid : parsedPubkey (parsePubkeyV4 N.toCrypto address object) = some row)
    (hnew : objectHash N object ∉ s.sync.sync.poolHashes)
    (hpending : Along (pubkeyStep N) (StoredWhilePending N address object) s es) : Resolved N address object s es := by
  intro before after t hes ⟨e, he, harrives⟩ _ hrun
  rw [hes] at hpending
  obtain ⟨front, back, rfl⟩ := List.append_of_mem he
  obtain ⟨u, hu, hback⟩ := run_append_some hrun
  obtain ⟨v, hv, hback⟩ := run_cons hback
  cases hv
  have hstep : ∀ s e t, KnownOrNew N address object s → StoredWhilePending N address object s e →
      pubkeyStep N s e = some t → KnownOrNew N address object t := by
    intro s e t hs hcond ht
    cases ht
    exact knownOrNew_step hvalid hs hcond
  have hu' : KnownOrNew N address object u := run_invariant_along hstep (.inr hnew) hpending.left.left hu
  have hcond : StoredWhilePending N address object u e := (hpending.left.right hu).1
  -- the arrival leaves the object in the pool, so the key is known from then on
  have hknown := (knownOrNew_step hvalid hu' hcond).resolve_right (not_not.mpr (harrives.stored u))
  have hkeep : ∀ s e t, (pubkeyCacheLookup s.store.cache address.ripe).isSome = true →
      pubkeyStep N s e = some t → (pubkeyCacheLookup t.store.cache address.ripe).isSome = true := by
    intro s e t hs ht
    cases ht
    exact lookup_isSome_step e hs
  exact run_invariant hkeep hknown hback

/-! ### The public keys of `greeter` -/

/-- The address of `greeter` as a candidate. -/
def greeterCandidate : Candidate := greeter.candidate exampleNode.toHashes

/-- Another identity. -/
def stranger : IdentityInfo := { greeter with pubSigning := ⟨List.replicate 64 7, rfl⟩ }

theorem length_greeterPubkeys :
    (packBe64 0 ++ (buildPubkeyV4 plainSender [] greeter greeterCandidate.ripe 100).getD []).length < 2 ^ 63 ∧
      (packBe64 0 ++ (buildPubkeyV3 plainSender [] greeter 100).getD []).length < 2 ^ 63 := by
  decide +kernel

theorem length_greeterPubkeyV4 :
    (packBe64 0 ++ (buildPubkeyV4 plainSender [] greeter greeterCandidate.ripe 100).getD []).length < 2 ^ 63 :=
  length_greeterPubkeys.1

theorem length_greeterPubkeyV3 :
    (packBe64 0 ++ (buildPubkeyV3 plainSender [] greeter 100).getD []).length < 2 ^ 63 :=
  length_greeterPubkeys.2

theorem length_pubkeyV2 (id : IdentityInfo) : (packBe64 0 ++ buildPubkeyV2 id 100).length < 2 ^ 63 := by
  have := varintSize_le id.stream
  simp only [buildPubkeyV2, commonHeader, IdentityInfo.keyFields, bitfieldBytes, pubkey64, packBe64,
    List.length_append, Radix.length_beBytes, length_varintEncode, List.length_take, List.length_drop]
  have := varintSize_le 2
  omega

/-- The `pubkey` objects of `greeter`, and one without a signature of any identity, with a nonce. -/
def greeterPubkeyV4 : Buf := Buf.ofBytes _ length_greeterPubkeyV4
def greeterPubkeyV3 : Buf := Buf.ofBytes _ length_greeterPubkeyV3
def pubkeyV2Object (id : IdentityInfo) : Buf := Buf.ofBytes _ (length_pubkeyV2 id)

/-- An object is received at the time 0. -/
def receiveNow (object : Buf) : PubkeyEvent := .pool (.receive exampleReceivers ⟨object, 0, 0, 0⟩)

theorem greeterPubkeyV3_isSome : (parsedPubkey (parsePubkeyV3 exampleNode.toCrypto greeterPubkeyV3)).isSome = true := by
  decide +kernel

/-- The objects of `greeter` are read, accepted, and of the address that is asked for. -/
theorem greeterPubkeyV4_read :
    (parsedPubkey (parsePubkeyV4 exampleNode.toCrypto greeterCandidate greeterPubkeyV4)).isSome = true ∧
      (objectAccept exampleNode.toHashes greeterPubkeyV4 0).isSome = true ∧
      addressDecode exampleNode.toHashes greeterAddress =
        some (greeterCandidate.version, greeterCandidate.stream, greeterCandidate.ripe) := by
  decide +kernel

/-- The row that the signed object brings, and the state with it. -/
def signedRow : CachedPubkey := (parsedPubkey (parsePubkeyV3 exampleNode.toCrypto greeterPubkeyV3)).get greeterPubkeyV3_isSome
def signedState : PubkeySync := pubkeyNext exampleNode emptyPubkeySync (receiveNow greeterPubkeyV3)

/-- The row is cached, the key of the stranger has another address, and the unsigned twin changes
what is sent. -/
theorem signedState_facts :
    pubkeyCacheLookup signedState.store.cache signedRow.ripe = some signedRow ∧
      (parsedPubkey (parsePubkeyV2 exampleNode.toCrypto (pubkeyV2Object stranger))).all
        (fun key => decide (key.ripe ≠ signedRow.ripe)) = true ∧
      sendData (pubkeyNext exampleNode signedState (receiveNow (pubkeyV2Object greeter))).store ⟨1, 1⟩ signedRow.ripe ≠
        sendData signedState.store ⟨1, 1⟩ signedRow.ripe := by
  decide +kernel

/-- An unsigned object speaks for no signing key. -/
theorem thirdPartyObject_pubkeyV2 {id : IdentityInfo} {hdr : ObjectHeader} (hhdr : (pubkeyV2Object id).header = some hdr)
    (hversion : hdr.version = 2) (C : Crypto) (row : CachedPubkey) : ThirdPartyObject C row (pubkeyV2Object id) := by
  have hunsigned : ∀ key, ¬ SignedPubkey C (pubkeyV2Object id) key := by
    intro key hkey
    obtain ⟨hdr', hhdr', hge⟩ := hkey.version
    rw [hhdr] at hhdr'
    cases hhdr'
    omega
  exact ⟨fun key hkey => absurd hkey (hunsigned key), fun key hkey => absurd hkey (hunsigned key)⟩

theorem header_pubkeyV2_isSome (id : IdentityInfo) : (pubkeyV2Object id).header = some ⟨0, 100, objectPubkey, 2, id.stream,
    20 + varintSize 2 + varintSize id.stream⟩ := by
  have hbytes : (pubkeyV2Object id).bytes = packBe64 0 ++ (packBe64 100 ++ (Radix.beBytes 4 objectPubkey ++
      (varintEncode 2 ++ (varintEncode id.stream ++ id.keyFields)))) := by
    rw [pubkeyV2Object, Buf.bytes_ofBytes]
    simp [buildPubkeyV2, commonHeader]
  exact Buf.header_of_bytes (by norm_num) (by norm_num) (by decide) (by norm_num) id.stream_lt hbytes

/-- The unsigned key of a stranger changes nothing. -/
theorem stranger_changes_nothing :
    Always (pubkeyStep exampleNode) (fun t => ∀ sender, sendData t.store sender signedRow.ripe =
      sendData signedState.store sender signedRow.ripe) signedState [receiveNow (pubkeyV2Object stranger)] := by
  obtain ⟨hlookup, hripe, -⟩ := signedState_facts
  refine no_downgrade exampleNode hlookup ⟨?_, fun _ _ => trivial⟩ ⟨?_, fun _ _ => trivial⟩
  · exact thirdPartyObject_pubkeyV2 (header_pubkeyV2_isSome stranger) rfl _ _
  · intro hdr _ _ _ key hkey
    have hkey : parsedPubkey (parsePubkeyV2 exampleNode.toCrypto (pubkeyV2Object stranger)) = some key := hkey
    rw [hkey, Option.all_some] at hripe
    exact of_decide_eq_true hripe

/-- The same keys without a signature: a third party makes the object, and the difficulty that the
signed object asks for is no longer used. -/
theorem unsigned_twin_downgrades :
    SignedPubkey exampleNode.toCrypto greeterPubkeyV3 signedRow ∧
      pubkeyCacheLookup signedState.store.cache signedRow.ripe = some signedRow ∧
      ThirdPartyObject exampleNode.toCrypto signedRow (pubkeyV2Object greeter) ∧
      ¬ Always (pubkeyStep exampleNode) (fun t => ∀ sender, sendData t.store sender signedRow.ripe =
        sendData signedState.store sender signedRow.ripe) signedState [receiveNow (pubkeyV2Object greeter)] := by
  obtain ⟨hlookup, -, hdiffer⟩ := signedState_facts
  exact ⟨.inl (Option.some_get _).symm, hlookup, thirdPartyObject_pubkeyV2 (header_pubkeyV2_isSome greeter) rfl _ _,
    fun h => hdiffer (h.2 _ rfl ⟨1, 1⟩)⟩

/-- A message asks for the key. -/
def askedState : PubkeySync := pubkeyNext exampleNode emptyPubkeySync (.sendMessage greeterAddress 0)

/-- The request is pending, and a request after the object leaves the key unknown. -/
theorem askedState_facts :
    pubkeyCacheListPending askedState.store.requests = [greeterCandidate] ∧
      pubkeyCacheLookup ([receiveNow greeterPubkeyV4, .sendMessage greeterAddress 0, receiveNow greeterPubkeyV4].foldl
        (pubkeyNext exampleNode) emptyPubkeySync).store.cache greeterCandidate.ripe = none := by
  decide +kernel

/-- The key is asked for and comes afterwards. -/
theorem request_before_arrival_resolved :
    Resolved exampleNode greeterCandidate greeterPubkeyV4 emptyPubkeySync
      [.sendMessage greeterAddress 0, receiveNow greeterPubkeyV4] := by
  have hpending := askedState_facts.1
  refine pubkey_resolved exampleNode (Option.some_get greeterPubkeyV4_read.1).symm List.not_mem_nil ⟨?_, ?_⟩
  · exact fun _ hnew hstored => absurd hstored hnew
  · intro t ht
    cases ht
    refine ⟨fun _ _ _ => ⟨⟨exampleReceivers, _, rfl, rfl⟩, ?_, ?_⟩, fun _ _ => trivial⟩
    · show greeterCandidate ∈ pubkeyCacheListPending askedState.store.requests
      rw [hpending]
      exact List.mem_singleton_self _
    · show ∀ candidate ∈ pubkeyCacheListPending askedState.store.requests, _ → candidate = greeterCandidate
      rw [hpending]
      exact fun candidate hmem _ => List.mem_singleton.mp hmem

/-- The object comes first, then a message asks for the key, and the object is announced again:
the key is not in the cache. -/
theorem arrival_before_request_unresolved :
    ¬ Resolved exampleNode greeterCandidate greeterPubkeyV4 emptyPubkeySync
      [receiveNow greeterPubkeyV4, .sendMessage greeterAddress 0, receiveNow greeterPubkeyV4] := by
  intro h
  obtain ⟨-, haccept, hdecode⟩ := greeterPubkeyV4_read
  have hfound := h _ [] _ (List.append_nil _).symm
    ⟨_, List.mem_cons_self, exampleReceivers, _, rfl, rfl, haccept⟩
    ⟨_, List.mem_cons_of_mem _ List.mem_cons_self, _, _, rfl, hdecode⟩ rfl
  have hnone := askedState_facts.2
  simp only [List.foldl_cons, List.foldl_nil] at hnone
  rw [hnone] at hfound
  exact absurd hfound Bool.false_ne_true

end Bitmessage
