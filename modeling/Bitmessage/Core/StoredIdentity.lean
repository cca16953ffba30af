import Bitmessage.Core.RoundTrip
import Bitmessage.Core.VaultSafety

/-! Identities that come in through the API: with the private keys of an old client, or made
from a passphrase. The string that the caller names is what the private keys are
authenticated with, and the row is stored under as much of it as the column holds; the
stream goes through an `int`. What was stored is found again exactly when neither cuts
anything off. -/

namespace Bitmessage

open Radix

/-! ### Keys and addresses -/

/-- `BM_PRIVATE_KEY_LEN`. -/
def privateKeyLen : ℕ := 32

/-- What `address.h` takes from the crypto library besides. -/
structure AddressCrypto extends SenderCrypto where
  /-- `bm_double_sha256`. -/
  doubleSha256 (data : Bytes) : Bytes
  length_doubleSha256 : ∀ data, (doubleSha256 data).length = 32

/-- A 64-bit number in an `int`, as it is widened again. -/
def throughInt (x : ℕ) : ℕ :=
  if x % 2 ^ 32 < 2 ^ 31 then x % 2 ^ 32 else 2 ^ 64 - 2 ^ 32 + x % 2 ^ 32

/-- The numbers that an `int` holds, widened to 64 bits. -/
def FitsInt (x : ℕ) : Prop := x < 2 ^ 31 ∨ 2 ^ 64 - 2 ^ 31 ≤ x

instance (x : ℕ) : Decidable (FitsInt x) := by unfold FitsInt; infer_instance

theorem throughInt_eq_iff {x : ℕ} (hx : x < 2 ^ 64) : throughInt x = x ↔ FitsInt x := by
  unfold throughInt FitsInt
  split_ifs
  · omega
  · omega

section

variable (C : AddressCrypto)

/-- `bm_address_derive_private_key`. -/
def addressDerivePrivateKey (passphrase : Bytes) (nonce : ℕ) : Bytes :=
  (C.sha512 (passphrase ++ varintEncode nonce)).take privateKeyLen

/-- `bm_address_encode_wif`. -/
def addressEncodeWif (priv : Bytes) : Option Bytes :=
  let raw := 0x80 :: priv
  base58Encode (raw ++ (C.doubleSha256 raw).take 4)

/-- `bm_address_decode_wif`. -/
def addressDecodeWif (wif : Bytes) : Option Bytes :=
  (base58Decode wif).bind fun data =>
    if data.length ≠ 1 + privateKeyLen + 4 ∨ data.head? ≠ some 0x80 then none
    else if (C.doubleSha256 (data.take (1 + privateKeyLen))).take 4 ≠ data.drop (1 + privateKeyLen) then none
    else some ((data.drop 1).take privateKeyLen)

/-- The decoder reads back what the encoder wrote. -/
theorem addressDecodeWif_addressEncodeWif {priv : Bytes} (h : priv.length = privateKeyLen) :
    ∃ wif, addressEncodeWif C priv = some wif ∧ addressDecodeWif C wif = some priv := by
  have hchecksum : ((C.doubleSha256 (0x80 :: priv)).take 4).length = 4 := by
    rw [List.length_take, C.length_doubleSha256]
    rfl
  have hne : (0x80 :: priv) ++ (C.doubleSha256 (0x80 :: priv)).take 4 ≠ [] := by simp
  have hhead : ((0x80 :: priv) ++ (C.doubleSha256 (0x80 :: priv)).take 4).head? ≠ some 0 := by simp
  have hraw : (0x80 :: priv : Bytes).length = 1 + privateKeyLen := by
    rw [List.length_cons, h, Nat.add_comm]
  refine ⟨_, base58Encode_eq hne hhead, ?_⟩
  unfold addressDecodeWif
  rw [base58Decode_digits hne hhead, Option.bind_some, if_neg, if_neg]
  · rw [List.cons_append, List.drop_one, List.tail_cons, List.take_left' h]
  · rw [List.take_left' hraw, List.drop_left' hraw]
    exact not_not.mpr rfl
  · rw [List.length_append, hraw, hchecksum]
    simp

/-- `struct bm_generated_address`, without the nonces. -/
structure GeneratedAddress where
  keys : PrivateKeys
  pubSigning : Bytes
  pubEncryption : Bytes
  ripe : Bytes
  ripe_length : ripe.length = ripeLen

/-- The loop of `bm_address_generate_deterministic`. It ends when the ripe begins with enough zero
bytes, or when there is no public key; `none` says that it goes on. -/
def addressGenerateDeterministic (passphrase : Bytes) (nullBytes : ℤ) :
    ℕ → ℕ → ℕ → Option (Option GeneratedAddress)
  | 0, _, _ => none
  | fuel + 1, signingNonce, encryptionNonce =>
    let keys : PrivateKeys :=
      ⟨addressDerivePrivateKey C passphrase signingNonce, addressDerivePrivateKey C passphrase encryptionNonce⟩
    match C.getPublicKey keys.signing, C.getPublicKey keys.encryption with
    | some pubSigning, some pubEncryption =>
      let ripe := addressCalcRipe C.toHashes pubSigning pubEncryption
      if (List.range nullBytes.toNat).all fun i => ripe.getD i 0 = 0 then
        some (some ⟨keys, pubSigning, pubEncryption, ripe, length_addressCalcRipe C.toHashes _ _⟩)
      else
        addressGenerateDeterministic passphrase nullBytes fuel ((signingNonce + 2) % wordSize)
          ((encryptionNonce + 2) % wordSize)
    | _, _ => some none

end

/-! ### The handlers -/

/-- The defaults in `struct bm_api_server_config`. -/
structure ApiDefaults where
  nonceTrialsPerByte : ℕ
  payloadLengthExtraBytes : ℕ

/-- The parameters of `importAddress`; `none` is a parameter that is missing or of another type. -/
structure ImportAddressParams where
  address : Option Bytes
  signingWif : Option Bytes
  encryptionWif : Option Bytes
  label : Option Bytes
  storePassphrase : Option Bytes
  nonceTrials : Option ℕ
  payloadExtra : Option ℕ
  isChan : Bool

/-- The parameters of `createDeterministicAddress`. -/
structure CreateAddressParams where
  passphrase : Option Bytes
  version : Option UInt64
  stream : Option UInt64
  nullBytes : Option ℤ
  label : Option Bytes
  storePassphrase : Option Bytes

section

variable (C : AddressCrypto) (W : KeyWrapping) (config : ApiDefaults)

/-- `h_importAddress`. -/
def importAddress (db : IdentityStore) (params : ImportAddressParams) (fresh : Fresh) :
    IdentityStore × Except String Bool :=
  match params.address, params.signingWif, params.encryptionWif, params.storePassphrase with
  | some address, some signingWif, some encryptionWif, some storePassphrase =>
    match addressDecode C.toHashes address with
    | none => (db, .error "invalid address")
    | some (version, stream, ripe) =>
      match addressDecodeWif C signingWif, addressDecodeWif C encryptionWif with
      | some signing, some encryption =>
        match C.getPublicKey signing, C.getPublicKey encryption with
        | some pubSigning, some pubEncryption =>
          if addressCalcRipe C.toHashes pubSigning pubEncryption ≠ ripe then
            (db, .error "WIF keys do not match the given address")
          else
            let new : NewIdentity := ⟨address, params.label.getD [], throughInt version, throughInt stream,
              pubSigning, pubEncryption, ⟨signing, encryption⟩,
              params.nonceTrials.getD config.nonceTrialsPerByte,
              params.payloadExtra.getD config.payloadLengthExtraBytes⟩
            match keyringImportIdentity W db new storePassphrase fresh with
            | (db, false) => (db, .error ("failed to store identity (duplicate address, or storePassphrase " ++
                "does not match the existing vault passphrase?)"))
            | (db, true) => (if params.isChan then identityStoreSetIsChan db address else db, .ok true)
        | _, _ => (db, .error "failed to derive public key from WIF")
      | _, _ => (db, .error "invalid WIF (signingWIF/encryptionWIF)")
  | _, _, _, _ => (db, .error ("importAddress requires [address, signingWIF, encryptionWIF, label, " ++
      "storePassphrase, nonceTrialsPerByte?, payloadLengthExtraBytes?]"))

/-- `h_createDeterministicAddress` for the versions 3 and 4; `none` says that the search goes on. The
version 5 has a table and a keyring of its own. -/
def createDeterministicAddress (fuel : ℕ) (db : IdentityStore) (params : CreateAddressParams) (fresh : Fresh) :
    Option (IdentityStore × Except String Bytes) :=
  match params.passphrase, params.version, params.stream, params.nullBytes, params.storePassphrase with
  | some passphrase, some version, some stream, some nullBytes, some storePassphrase =>
    if version < 3 ∨ version > 4 then some (db, .error "addressVersion must be 3 or 4")
    else
      (addressGenerateDeterministic C passphrase nullBytes fuel 0 1).map fun
        | none => (db, .error "address generation failed")
        | some gen =>
          match addressEncode C.toHashes version.toNat stream.toNat gen.ripe with
          | none => (db, .error "address encoding failed")
          | some address =>
            let new : NewIdentity := ⟨address, params.label.getD [], throughInt version.toNat,
              throughInt stream.toNat, gen.pubSigning, gen.pubEncryption, gen.keys, config.nonceTrialsPerByte,
              config.payloadLengthExtraBytes⟩
            match keyringCreateIdentity W db new storePassphrase fresh with
            | none => (db, .error "failed to store identity (duplicate address?)")
            | some db => (db, .ok address)
  | _, _, _, _, _ => some (db, .error ("createDeterministicAddress requires " ++
      "[passphrase, addressVersion, stream, ripeNullBytes, label, storePassphrase]"))

end

/-! ### Finding it again -/

/-- The identity is found under the address, its row has the version and the stream, and the passphrase
gives the keys: to an export, and to an unlocking that a lookup by address then finds. -/
structure Recoverable (H : Hashes) (W : KeyWrapping) (db : IdentityStore) (address passphrase : Bytes)
    (keys : PrivateKeys) (version stream : ℕ) : Prop where
  row : ∃ row, identityStoreLoad db address = some row ∧ row.addressVersion = version ∧ row.stream = stream
  exported : keyringExport W db address passphrase = some keys
  unlocked : ∀ entries now, ∃ kr entry, keyringUnlock H W ⟨entries, db⟩ address passphrase now = some kr ∧
    keyringFindByAddress kr address = some entry ∧ entry.privSigning = keys.signing ∧
    entry.privEncryption = keys.encryption

section

variable {H : Hashes} {W : KeyWrapping} {db db' : IdentityStore} {address passphrase : Bytes} {keys : PrivateKeys}
  {version stream : ℕ}

/-- It is enough that the row under the address gives the keys. -/
theorem recoverable_of_row {row : IdentityRow} (hrow : identityStoreLoad db address = some row)
    (hkeys : rowKeys W db row passphrase = some keys) (hversion : row.addressVersion = version)
    (hstream : row.stream = stream) : Recoverable H W db address passphrase keys version stream where
  row := ⟨row, hrow, hversion, hstream⟩
  exported := by rw [keyringExport_eq, hrow, Option.bind_some, hkeys]
  unlocked := by
    intro entries now
    have haddress := identityStoreLoad_address hrow
    have hfind := keyringFindByAddress_addUnlockedEntry H ⟨entries, db⟩ row keys now
    rw [haddress] at hfind
    obtain ⟨kek, hkek, hunwrap⟩ := Option.bind_eq_some_iff.mp hkeys
    refine ⟨_, _, ?_, hfind, rfl, rfl⟩
    rw [keyringUnlock, hrow, Option.bind_some, hkek, Option.bind_some, unlockWithKek, hunwrap, Option.map_some]

/-- The wrapping key of a row, and the address it was authenticated with, give its keys. -/
theorem rowKeys_of_wrapped (hW : W.Lawful) {row : IdentityRow} {kek : Bytes}
    (hkek : resolveKekForRow W db row passphrase = some kek) (h : WrappedUnder W kek row.address keys row) :
    rowKeys W db row passphrase = some keys := by
  rw [rowKeys, hkek, Option.bind_some]
  exact (h.unwrapKeys_eq_some hW).mpr ⟨rfl, rfl, rfl⟩

/-- A row that was stored under as much of the address as fits is recovered exactly when all of it fits. -/
theorem recoverable_iff (H : Hashes) (hW : W.Lawful) {new : NewIdentity} {row : IdentityRow} {kek : Bytes}
    (hrow : identityStoreLoad db (toAddressBuffer new.address) = some row)
    (hversion : row.addressVersion = new.addressVersion) (hstream : row.stream = new.stream)
    (hkek : row.address = new.address → resolveKekForRow W db row passphrase = some kek)
    (hwrapped : WrappedUnder W kek new.address new.keys row) :
    Recoverable H W db new.address passphrase new.keys version stream ↔
      new.address.length < addressStrMax ∧ new.addressVersion = version ∧ new.stream = stream := by
  constructor
  · intro h
    obtain ⟨row', hload, hversion', hstream'⟩ := h.row
    have hlen := length_of_load hload
    rw [toAddressBuffer_of_length hlen, hload] at hrow
    cases hrow
    exact ⟨hlen, hversion.symm.trans hversion', hstream.symm.trans hstream'⟩
  · rintro ⟨hlen, rfl, rfl⟩
    rw [toAddressBuffer_of_length hlen] at hrow
    have haddress := identityStoreLoad_address hrow
    refine recoverable_of_row hrow (rowKeys_of_wrapped hW (hkek haddress) ?_) hversion hstream
    rwa [haddress]

/-- What `bm_keyring_create_identity` stores. -/
theorem recoverable_createIdentity_iff (H : Hashes) (hW : W.Lawful) {new : NewIdentity} {fresh : Fresh}
    (h : keyringCreateIdentity W db new passphrase fresh = some db') :
    Recoverable H W db' new.address passphrase new.keys version stream ↔
      new.address.length < addressStrMax ∧ new.addressVersion = version ∧ new.stream = stream := by
  obtain ⟨kek, signing, encryption, hkek, hwrapped, hi⟩ := keyringCreateIdentity_eq_some h
  obtain ⟨-, hself, -, -⟩ := identityStoreInsert_eq_some hi
  exact recoverable_iff H hW hself rfl rfl (fun _ => hkek) hwrapped

/-- The flag is set on the row under the address, if there is one. -/
theorem load_flagged (address : Bytes) (isChan : Bool) {row : IdentityRow} {a : Bytes}
    (hrow : identityStoreLoad db a = some row) :
    ∃ row', identityStoreLoad (if isChan then identityStoreSetIsChan db address else db) a = some row' ∧
      SameWrapping row row' ∧ row'.addressVersion = row.addressVersion ∧ row'.stream = row.stream := by
  split_ifs
  · by_cases ha : a = address
    · rw [← ha, load_setIsChan_self, hrow, Option.map_some]
      exact ⟨_, rfl, ⟨rfl, rfl, rfl, rfl, rfl, rfl⟩, rfl, rfl⟩
    · rw [load_setIsChan_of_ne db ha]
      exact ⟨row, hrow, .refl row, rfl, rfl⟩
  · exact ⟨row, hrow, .refl row, rfl, rfl⟩

/-- What `bm_keyring_import_identity` stores, flagged or not. -/
theorem recoverable_importIdentity_iff (H : Hashes) (hW : W.Lawful) {new : NewIdentity} {fresh : Fresh} {isChan : Bool}
    (h : keyringImportIdentity W db new passphrase fresh = (db', true)) :
    Recoverable H W (if isChan then identityStoreSetIsChan db' new.address else db') new.address passphrase new.keys
        version stream ↔
      new.address.length < addressStrMax ∧ new.addressVersion = version ∧ new.stream = stream := by
  unfold keyringImportIdentity at h
  rcases hr : keyringResolveOrCreateVaultMasterKek W db passphrase fresh with _ | ⟨masterKek, db₁⟩
  · rw [hr] at h
    cases h
  rw [hr] at h
  simp only at h
  rcases hm : keyringImportIdentityWithMasterKek W db₁ new masterKek fresh with _ | db₂
  · rw [hm] at h
    cases h
  rw [hm] at h
  cases h
  obtain ⟨kek, signing, encryption, hkek, hwrapped, hi⟩ := keyringImportIdentityWithMasterKek_eq_some hm
  obtain ⟨-, hself, -, hvault⟩ := identityStoreInsert_eq_some hi
  obtain ⟨row, hrow, hsame, hversion, hstream⟩ := load_flagged new.address isChan hself
  have hvault' : (if isChan then identityStoreSetIsChan db' new.address else db').vault = db₁.vault := by
    split_ifs
    · exact hvault
    · exact hvault
  have hwrapped' : WrappedUnder W kek new.address new.keys row := by
    obtain ⟨hs, he⟩ := hwrapped
    exact ⟨by rw [hsame.signing]; exact hs, by rw [hsame.encryption]; exact he⟩
  refine recoverable_iff H hW hrow hversion hstream ?_ hwrapped'
  intro haddress
  have hmaster := (keyringResolveOrCreateVaultMasterKek_masterKek hW hr).1
  unfold resolveKekForRow
  rw [hsame.kdfAlgo, hsame.kdfSalt, haddress]
  simp only [newIdentityRow]
  rw [vaultMasterKek_congr hvault', hmaster, Option.bind_some, hkek]

end

/-! ### What the handlers store -/

section

variable {C : AddressCrypto} {W : KeyWrapping} {config : ApiDefaults} {db db' : IdentityStore} {fresh : Fresh}

/-- What the parameters of an import name. -/
structure ImportAddressParams.Names (C : AddressCrypto) (params : ImportAddressParams) (address passphrase : Bytes)
    (keys : PrivateKeys) (version stream : ℕ) : Prop where
  address_eq : params.address = some address
  passphrase_eq : params.storePassphrase = some passphrase
  signing : params.signingWif.bind (addressDecodeWif C) = some keys.signing
  encryption : params.encryptionWif.bind (addressDecodeWif C) = some keys.encryption
  decoded : ∃ ripe, addressDecode C.toHashes address = some (version, stream, ripe)

/-- An import that is acknowledged has stored the keys that its parameters name. -/
theorem importAddress_eq_ok {params : ImportAddressParams} {acknowledged : Bool}
    (h : importAddress C W config db params fresh = (db', .ok acknowledged)) :
    ∃ new passphrase version stream db₁, params.Names C new.address passphrase new.keys version stream ∧
      new.addressVersion = throughInt version ∧ new.stream = throughInt stream ∧
      keyringImportIdentity W db new passphrase fresh = (db₁, true) ∧
      db' = if params.isChan then identityStoreSetIsChan db₁ new.address else db₁ := by
  unfold importAddress at h
  split at h
  · next address signingWif encryptionWif passphrase haddress hsigningWif hencryptionWif hpassphrase =>
    split at h
    · cases h
    · next version stream ripe hdecode =>
      split at h
      · next signing encryption hsigning hencryption =>
        split at h
        · next pubSigning pubEncryption _ _ =>
          split at h
          · cases h
          · simp only at h
            split at h
            · cases h
            · next db₁ himport =>
              cases h
              refine ⟨_, passphrase, version, stream, db₁, ⟨haddress, hpassphrase, ?_, ?_, ripe, hdecode⟩, rfl, rfl,
                himport, rfl⟩
              · rw [hsigningWif, Option.bind_some, hsigning]
              · rw [hencryptionWif, Option.bind_some, hencryption]
        · cases h
      · cases h
  · cases h

/-- What the parameters of a creation name, and the address that is made from them. -/
structure CreateAddressParams.Makes (C : AddressCrypto) (fuel : ℕ) (params : CreateAddressParams)
    (address passphrase : Bytes) (keys : PrivateKeys) (version stream : ℕ) : Prop where
  passphrase_eq : params.storePassphrase = some passphrase
  version_eq : params.version.map UInt64.toNat = some version
  stream_eq : params.stream.map UInt64.toNat = some stream
  made : ∃ seed nullBytes gen, params.passphrase = some seed ∧ params.nullBytes = some nullBytes ∧
    addressGenerateDeterministic C seed nullBytes fuel 0 1 = some (some gen) ∧ gen.keys = keys ∧
    addressEncode C.toHashes version stream gen.ripe = some address

theorem version_three_or_four {version : UInt64} (h : ¬ (version < 3 ∨ version > 4)) :
    version.toNat = 3 ∨ version.toNat = 4 := by
  have h₃ : (3 : UInt64).toNat = 3 := rfl
  have h₄ : (4 : UInt64).toNat = 4 := rfl
  rw [gt_iff_lt, UInt64.lt_iff_toNat_lt, UInt64.lt_iff_toNat_lt] at h
  omega

/-- A creation that returns an address has stored the keys that it was made from. -/
theorem createDeterministicAddress_eq_ok {fuel : ℕ} {params : CreateAddressParams} {address : Bytes}
    (h : createDeterministicAddress C W config fuel db params fresh = some (db', .ok address)) :
    ∃ new passphrase version stream, new.address = address ∧
      params.Makes C fuel address passphrase new.keys version stream ∧ (version = 3 ∨ version = 4) ∧
      stream < wordSize ∧ new.addressVersion = throughInt version ∧ new.stream = throughInt stream ∧
      address.length < addressStrMax ∧ keyringCreateIdentity W db new passphrase fresh = some db' := by
  unfold createDeterministicAddress at h
  split at h
  · next seed version stream nullBytes passphrase hseed hversion hstream hnull hpassphrase =>
    split_ifs at h with hrange
    · cases h
    · obtain ⟨gen, hgen, h⟩ := Option.map_eq_some_iff.mp h
      split at h
      · cases h
      · next gen =>
        split at h
        · cases h
        · next made hencode =>
          simp only at h
          split at h
          · cases h
          · next db₁ hcreate =>
            cases h
            have hversion' := version_three_or_four hrange
            have hwordSize : wordSize = 2 ^ 64 := rfl
            have hlt := stream.toNat_lt
            obtain ⟨_, hencode', hlen, -⟩ := @addressDecode_addressEncode C.toHashes version.toNat stream.toNat gen.ripe
              (by omega) (by omega) (by omega) gen.ripe_length
            rw [hencode] at hencode'
            cases hencode'
            have haddress : address.length < addressStrMax := lt_of_le_of_lt hlen (by decide)
            refine ⟨_, passphrase, version.toNat, stream.toNat, rfl, ⟨hpassphrase, ?_, ?_, ?_⟩, hversion', hlt, rfl, rfl,
              haddress, hcreate⟩
            · rw [hversion, Option.map_some]
            · rw [hstream, Option.map_some]
            · exact ⟨seed, nullBytes, gen, hseed, hnull, hgen, rfl, hencode⟩
  · cases h

theorem throughInt_version {version : ℕ} (h : version ≤ 4) : throughInt version = version :=
  (throughInt_eq_iff (by omega)).mpr (.inl (by omega))

/-- An import that is acknowledged can be recovered exactly when the address fits the column and the
stream fits an `int`; an address that is created fits the column. -/
theorem stored_recoverable_iff (hW : W.Lawful) :
    (∀ config db params fresh db' acknowledged,
      importAddress C W config db params fresh = (db', .ok acknowledged) →
      ∃ address passphrase keys version stream, params.Names C address passphrase keys version stream ∧
        (Recoverable C.toHashes W db' address passphrase keys version stream ↔
          address.length < addressStrMax ∧ FitsInt stream)) ∧
    ∀ config fuel db params fresh db' address,
      createDeterministicAddress C W config fuel db params fresh = some (db', .ok address) →
      ∃ passphrase keys version stream, params.Makes C fuel address passphrase keys version stream ∧
        (Recoverable C.toHashes W db' address passphrase keys version stream ↔ FitsInt stream) := by
  constructor
  · intro config db params fresh db' acknowledged h
    obtain ⟨new, passphrase, version, stream, db₁, hnames, hversion, hstream, himport, rfl⟩ := importAddress_eq_ok h
    obtain ⟨ripe, hdecode⟩ := hnames.decoded
    have hfits := throughInt_version (addressDecode_version _ hdecode).2
    refine ⟨new.address, passphrase, new.keys, version, stream, hnames, ?_⟩
    rw [recoverable_importIdentity_iff C.toHashes hW himport, hversion, hstream, hfits,
      throughInt_eq_iff (addressDecode_stream_lt _ hdecode)]
    simp only [true_and]
  · intro config fuel db params fresh db' address h
    obtain ⟨new, passphrase, version, stream, rfl, hmakes, hrange, hlt, hversion, hstream, hlen, hcreate⟩ :=
      createDeterministicAddress_eq_ok h
    have hfits := throughInt_version (show version ≤ 4 by omega)
    refine ⟨passphrase, new.keys, version, stream, hmakes, ?_⟩
    rw [recoverable_createIdentity_iff C.toHashes hW hcreate, hversion, hstream, hfits, throughInt_eq_iff hlt]
    simp only [hlen, true_and]

end

/-! ### An address with ones in front -/

/-- The library without secrets, with a checksum that keeps the first bytes. -/
def plainAddressCrypto : AddressCrypto where
  toSenderCrypto := plainSender
  doubleSha256 data := (data ++ List.replicate 32 0).take 32
  length_doubleSha256 data := by simp

/-- The private keys of an old client. -/
def oldKeys : PrivateKeys := ⟨List.replicate 32 3, List.replicate 32 4⟩

/-- Their ripe. -/
def oldRipe : Bytes :=
  addressCalcRipe prefixHashes (uncompressed (oldKeys.signing ++ oldKeys.signing))
    (uncompressed (oldKeys.encryption ++ oldKeys.encryption))

/-- Their address. -/
def oldAddress : Bytes := (addressEncode prefixHashes 4 1 oldRipe).getD []

/-- The same address with forty digits of no value in front. -/
def paddedAddress : Bytes := addressMarker ++ (List.replicate 40 0x31 ++ oldAddress.drop 3)

/-- An import of the keys under an address, behind the passphrase `pw`. -/
def oldImport (address : Bytes) : ImportAddressParams where
  address := some address
  signingWif := addressEncodeWif plainAddressCrypto oldKeys.signing
  encryptionWif := addressEncodeWif plainAddressCrypto oldKeys.encryption
  label := none
  storePassphrase := some [0x70, 0x77]
  nonceTrials := none
  payloadExtra := none
  isChan := false

/-- An address for the stream 2³¹. -/
def farCreation : CreateAddressParams where
  passphrase := some [0x61]
  version := some 4
  stream := some 0x80000000
  nullBytes := some 0
  label := none
  storePassphrase := some [0x70, 0x77]

/-- The lowest difficulty. -/
def lowDefaults : ApiDefaults := ⟨1000, 1000⟩

theorem oldImport_acknowledged (address : Bytes) (h : address = oldAddress ∨ address = paddedAddress) :
    ∃ db', importAddress plainAddressCrypto framedWrapping lowDefaults emptyStore (oldImport address) zeroFresh =
      (db', .ok true) := by
  have hok : (importAddress plainAddressCrypto framedWrapping lowDefaults emptyStore (oldImport address) zeroFresh).2 =
      .ok true := by
    rcases h with rfl | rfl
    · decide +kernel
    · decide +kernel
  exact ⟨_, Prod.ext rfl hok⟩

theorem oldImport_recoverable :
    ∃ db', importAddress plainAddressCrypto framedWrapping lowDefaults emptyStore (oldImport oldAddress) zeroFresh =
        (db', .ok true) ∧
      Recoverable plainAddressCrypto.toHashes framedWrapping db' oldAddress [0x70, 0x77] oldKeys 4 1 := by
  obtain ⟨db', h⟩ := oldImport_acknowledged oldAddress (.inl rfl)
  refine ⟨db', h, ?_⟩
  obtain ⟨address, passphrase, ⟨signing, encryption⟩, version, stream, hnames, hiff⟩ :=
    (stored_recoverable_iff framedWrapping_lawful).1 _ _ _ _ _ _ h
  obtain rfl : oldAddress = address := Option.some.inj hnames.address_eq
  obtain rfl : [0x70, 0x77] = passphrase := Option.some.inj hnames.passphrase_eq
  have hsigning : (oldImport oldAddress).signingWif.bind (addressDecodeWif plainAddressCrypto) =
      some oldKeys.signing := by decide +kernel
  have hencryption : (oldImport oldAddress).encryptionWif.bind (addressDecodeWif plainAddressCrypto) =
      some oldKeys.encryption := by decide +kernel
  have hdecode : addressDecode prefixHashes oldAddress = some (4, 1, oldRipe) := by decide +kernel
  obtain rfl : oldKeys.signing = signing := Option.some.inj (hsigning.symm.trans hnames.signing)
  obtain rfl : oldKeys.encryption = encryption := Option.some.inj (hencryption.symm.trans hnames.encryption)
  obtain ⟨ripe, hdecoded⟩ := hnames.decoded
  cases hdecode.symm.trans hdecoded
  exact hiff.mpr ⟨by decide +kernel, by decide⟩

/-- Both are acknowledged: the padded address is not found again, and the row of the far stream has another
stream. -/
theorem acknowledged_not_recoverable :
    (∃ db', importAddress plainAddressCrypto framedWrapping lowDefaults emptyStore (oldImport paddedAddress) zeroFresh =
        (db', .ok true) ∧
      addressDecode prefixHashes paddedAddress = some (4, 1, oldRipe) ∧
      ¬ Recoverable plainAddressCrypto.toHashes framedWrapping db' paddedAddress [0x70, 0x77] oldKeys 4 1) ∧
    ∃ db' address, createDeterministicAddress plainAddressCrypto framedWrapping lowDefaults 1 emptyStore farCreation
        zeroFresh = some (db', .ok address) ∧
      ∀ keys, ¬ Recoverable plainAddressCrypto.toHashes framedWrapping db' address [0x70, 0x77] keys 4 (2 ^ 31) := by
  constructor
  · obtain ⟨db', h⟩ := oldImport_acknowledged paddedAddress (.inr rfl)
    refine ⟨db', h, by decide +kernel, ?_⟩
    intro hrecoverable
    obtain ⟨row, hrow, -⟩ := hrecoverable.row
    have hlen := length_of_load hrow
    revert hlen
    decide +kernel
  · have hok : (createDeterministicAddress plainAddressCrypto framedWrapping lowDefaults 1 emptyStore farCreation
        zeroFresh).any (fun result => result.2.isOk) = true := by decide +kernel
    rcases h : createDeterministicAddress plainAddressCrypto framedWrapping lowDefaults 1 emptyStore farCreation
        zeroFresh with _ | ⟨db', e | address⟩
    · rw [h] at hok
      cases hok
    · rw [h] at hok
      cases hok
    · refine ⟨db', address, rfl, fun keys hrecoverable => ?_⟩
      obtain ⟨new, passphrase, version, stream, rfl, hmakes, -, -, -, hstream, -, hcreate⟩ :=
        createDeterministicAddress_eq_ok h
      have hfar : farCreation.stream.map UInt64.toNat = some (2 ^ 31) := by decide
      obtain rfl : 2 ^ 31 = stream := Option.some.inj (hfar.symm.trans hmakes.stream_eq)
      obtain ⟨row, hrow, -, hrowStream⟩ := hrecoverable.row
      obtain ⟨kek, signing, encryption, -, -, hi⟩ := keyringCreateIdentity_eq_some hcreate
      obtain ⟨-, hself, -, -⟩ := identityStoreInsert_eq_some hi
      have haddress : (newIdentityRow new .scrypt zeroFresh.salt (some scryptDefaults) signing encryption
          zeroFresh.now).address = new.address := toAddressBuffer_of_length (length_of_load hrow)
      rw [haddress, hrow] at hself
      cases hself
      have hcut : throughInt (2 ^ 31) = 2 ^ 31 := hstream.symm.trans hrowStream
      revert hcut
      decide

end Bitmessage
