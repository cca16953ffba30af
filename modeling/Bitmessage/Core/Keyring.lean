import Bitmessage.Core.TrialDecrypt
import Bitmessage.Core.Address
import Bitmessage.Lib.KeyedTable
import Mathlib.Data.List.Sort

/-! The keyring: the private keys of the identities, wrapped in the database and
unwrapped in memory. A row is wrapped either with a key of its own, derived from the
passphrase, or with a key expanded from the master key of the vault. The unlocked
entries are a list that new entries are put in front of; a lookup takes the first entry
that fits. Reading the clock and drawing random bytes are inputs of the operations. -/

namespace Bitmessage

/-! ### The identity store -/

/-- `kdf_algo`: whatever is not `vault-hkdf` is treated as `scrypt`. -/
inductive KdfAlgo
  | scrypt
  | vaultHkdf
  deriving DecidableEq

/-- The numbers in `kdf_params`. -/
structure ScryptParams where
  n : ℕ
  r : ℕ
  p : ℕ
  deriving DecidableEq

/-- `BM_KEYRING_SCRYPT_N`, `BM_KEYRING_SCRYPT_R` and `BM_KEYRING_SCRYPT_P`. -/
def scryptDefaults : ScryptParams := ⟨32768, 8, 1⟩

/-- `struct bm_identity_row`. The text of `kdf_params` is kept parsed; `none` is the empty text
of the vault rows. -/
structure IdentityRow where
  address : Bytes
  label : Bytes
  isChan : Bool
  addressVersion : ℕ
  stream : ℕ
  signingPubkey : Bytes
  encryptionPubkey : Bytes
  kdfAlgo : KdfAlgo
  kdfSalt : Bytes
  kdfParams : Option ScryptParams
  wrappedPrivSigningKey : Bytes
  wrappedPrivEncryptionKey : Bytes
  nonceTrialsPerByte : ℕ
  payloadLengthExtraBytes : ℕ
  createdTime : ℤ
  address_length : address.length < addressStrMax

/-- The row of `kdf_vault`. -/
structure KdfVault where
  vaultSalt : Bytes
  kdfParams : Option ScryptParams
  canary : Bytes

/-- The tables of `identity.db` that the keyring works on. -/
structure IdentityStore where
  identities : KeyedTable IdentityRow.address
  vault : Option KdfVault

/-- `bm_identity_store_load`. -/
def identityStoreLoad (db : IdentityStore) (address : Bytes) : Option IdentityRow := db.identities.find? address

/-- `bm_identity_store_insert`. -/
def identityStoreInsert (db : IdentityStore) (row : IdentityRow) : Option IdentityStore :=
  (db.identities.insert? row).map fun identities => { db with identities := identities }

/-- `bm_identity_store_delete`. -/
def identityStoreDelete (db : IdentityStore) (address : Bytes) : IdentityStore :=
  { db with identities := db.identities.delete address }

/-- `bm_identity_store_list`: the addresses, `ORDER BY created_time`. -/
def identityStoreList (db : IdentityStore) : List Bytes :=
  (db.identities.rows.insertionSort fun a b => a.createdTime ≤ b.createdTime).map IdentityRow.address

/-- `bm_identity_store_update_label`. -/
def identityStoreUpdateLabel (db : IdentityStore) (address label : Bytes) : IdentityStore :=
  { db with identities := db.identities.update (fun row => if row.address = address then { row with label := label }
      else row) fun row => by split <;> rfl }

/-- `bm_identity_store_set_is_chan`. -/
def identityStoreSetIsChan (db : IdentityStore) (address : Bytes) : IdentityStore :=
  { db with identities := db.identities.update (fun row => if row.address = address then { row with isChan := true }
      else row) fun row => by split <;> rfl }

/-- `bm_identity_store_update_wrapped_keys`, to the vault. -/
def identityStoreUpdateWrappedKeys (db : IdentityStore) (address kdfSalt signing encryption : Bytes) :
    IdentityStore :=
  { db with identities := db.identities.update (fun row => if row.address = address then
        { row with
          kdfAlgo := .vaultHkdf
          kdfSalt := kdfSalt
          kdfParams := none
          wrappedPrivSigningKey := signing
          wrappedPrivEncryptionKey := encryption }
      else row) fun row => by split <;> rfl }

/-- `bm_identity_store_create_vault`: there is one row at most. -/
def identityStoreCreateVault (db : IdentityStore) (vault : KdfVault) : Option IdentityStore :=
  if db.vault.isSome then none else some { db with vault := some vault }

/-! ### Wrapping -/

/-- The key derivations and the authenticated cipher, which come from the crypto library. -/
structure KeyWrapping where
  /-- `derive_kek`: scrypt. -/
  deriveKek (passphrase salt : Bytes) (params : ScryptParams) : Option Bytes
  /-- `hkdf_expand_wrap_key`. -/
  hkdfExpandWrapKey (masterKek salt address : Bytes) : Option Bytes
  /-- `aes256gcm_wrap`, with its nonce. -/
  wrap (kek aad plaintext nonce : Bytes) : Option Bytes
  /-- `aes256gcm_unwrap`. -/
  unwrap (kek aad wrapped : Bytes) : Option Bytes

/-- The private keys of an identity. -/
structure PrivateKeys where
  signing : Bytes
  encryption : Bytes

/-- What an operation takes from the clock and from the random generator. -/
structure Fresh where
  now : ℤ
  salt : Bytes
  vaultSalt : Bytes
  signingNonce : Bytes
  encryptionNonce : Bytes
  canaryNonce : Bytes

/-- `VAULT_CANARY_PLAINTEXT`, `bm-vault-canary-v1-ok` and zero bytes. -/
def vaultCanaryPlaintext : Bytes :=
  [0x62, 0x6d, 0x2d, 0x76, 0x61, 0x75, 0x6c, 0x74, 0x2d, 0x63, 0x61, 0x6e, 0x61, 0x72, 0x79, 0x2d,
    0x76, 0x31, 0x2d, 0x6f, 0x6b] ++ List.replicate 11 0

/-- `VAULT_CANARY_AAD`, `bm-vault-canary-v1-ctx`. -/
def vaultCanaryAad : Bytes :=
  [0x62, 0x6d, 0x2d, 0x76, 0x61, 0x75, 0x6c, 0x74, 0x2d, 0x63, 0x61, 0x6e, 0x61, 0x72, 0x79, 0x2d,
    0x76, 0x31, 0x2d, 0x63, 0x74, 0x78]

section

variable (W : KeyWrapping)

/-- `verify_vault_canary`. -/
def verifyVaultCanary (masterKek canary : Bytes) : Bool :=
  W.unwrap masterKek vaultCanaryAad canary = some vaultCanaryPlaintext

/-- `derive_master_kek` on the stored vault, with the canary checked. -/
def vaultMasterKek (db : IdentityStore) (passphrase : Bytes) : Option Bytes :=
  db.vault.bind fun vault =>
    (vault.kdfParams.bind fun params => W.deriveKek passphrase vault.vaultSalt params).filter fun masterKek =>
      verifyVaultCanary W masterKek vault.canary

/-- `resolve_kek_for_row`. -/
def resolveKekForRow (db : IdentityStore) (row : IdentityRow) (passphrase : Bytes) : Option Bytes :=
  match row.kdfAlgo with
  | .vaultHkdf =>
    (vaultMasterKek W db passphrase).bind fun masterKek => W.hkdfExpandWrapKey masterKek row.kdfSalt row.address
  | .scrypt => row.kdfParams.bind fun params => W.deriveKek passphrase row.kdfSalt params

/-- Both private keys of a row; the address is the additional data. -/
def unwrapKeys (kek address : Bytes) (row : IdentityRow) : Option PrivateKeys :=
  (W.unwrap kek address row.wrappedPrivSigningKey).bind fun signing =>
    (W.unwrap kek address row.wrappedPrivEncryptionKey).map fun encryption => ⟨signing, encryption⟩

/-- `bm_keyring_export`. -/
def keyringExport (db : IdentityStore) (address passphrase : Bytes) : Option PrivateKeys :=
  (identityStoreLoad db address).bind fun row =>
    (resolveKekForRow W db row passphrase).bind fun kek => unwrapKeys W kek address row

/-- What a new row takes over from its maker. -/
structure NewIdentity where
  address : Bytes
  label : Bytes
  addressVersion : ℕ
  stream : ℕ
  pubSigning : Bytes
  pubEncryption : Bytes
  keys : PrivateKeys
  nonceTrialsPerByte : ℕ
  payloadLengthExtraBytes : ℕ

/-- `BM_IDENTITY_LABEL_MAX`. -/
def identityLabelMax : ℕ := 128

/-- `store_new_identity_with_kek`. -/
def storeNewIdentityWithKek (db : IdentityStore) (new : NewIdentity) (kdfAlgo : KdfAlgo) (kdfSalt : Bytes)
    (kdfParams : Option ScryptParams) (kek : Bytes) (fresh : Fresh) : Option IdentityStore :=
  (W.wrap kek new.address new.keys.signing fresh.signingNonce).bind fun signing =>
    (W.wrap kek new.address new.keys.encryption fresh.encryptionNonce).bind fun encryption =>
      identityStoreInsert db
        { address := toAddressBuffer new.address
          label := new.label.take (identityLabelMax - 1)
          isChan := false
          addressVersion := new.addressVersion
          stream := new.stream
          signingPubkey := new.pubSigning
          encryptionPubkey := new.pubEncryption
          kdfAlgo := kdfAlgo
          kdfSalt := kdfSalt
          kdfParams := kdfParams
          wrappedPrivSigningKey := signing
          wrappedPrivEncryptionKey := encryption
          nonceTrialsPerByte := new.nonceTrialsPerByte
          payloadLengthExtraBytes := new.payloadLengthExtraBytes
          createdTime := fresh.now
          address_length := lt_of_le_of_lt (List.length_take_le _ _) (by decide) }

/-- `bm_keyring_create_identity`. -/
def keyringCreateIdentity (db : IdentityStore) (new : NewIdentity) (passphrase : Bytes) (fresh : Fresh) :
    Option IdentityStore :=
  (W.deriveKek passphrase fresh.salt scryptDefaults).bind fun kek =>
    storeNewIdentityWithKek W db new .scrypt fresh.salt (some scryptDefaults) kek fresh

/-- `bm_keyring_import_identity_with_master_kek`. -/
def keyringImportIdentityWithMasterKek (db : IdentityStore) (new : NewIdentity) (masterKek : Bytes) (fresh : Fresh) :
    Option IdentityStore :=
  (W.hkdfExpandWrapKey masterKek fresh.salt new.address).bind fun kek =>
    storeNewIdentityWithKek W db new .vaultHkdf fresh.salt none kek fresh

/-- `bm_keyring_resolve_or_create_vault_master_kek`. -/
def keyringResolveOrCreateVaultMasterKek (db : IdentityStore) (passphrase : Bytes) (fresh : Fresh) :
    Option (Bytes × IdentityStore) :=
  if db.vault.isSome then (vaultMasterKek W db passphrase).map fun masterKek => (masterKek, db)
  else
    (W.deriveKek passphrase fresh.vaultSalt scryptDefaults).bind fun masterKek =>
      (W.wrap masterKek vaultCanaryAad vaultCanaryPlaintext fresh.canaryNonce).bind fun canary =>
        (identityStoreCreateVault db ⟨fresh.vaultSalt, some scryptDefaults, canary⟩).map fun db => (masterKek, db)

/-- `bm_keyring_import_identity`: a vault that it made stays when the row cannot be stored. -/
def keyringImportIdentity (db : IdentityStore) (new : NewIdentity) (passphrase : Bytes) (fresh : Fresh) :
    IdentityStore × Bool :=
  match keyringResolveOrCreateVaultMasterKek W db passphrase fresh with
  | none => (db, false)
  | some (masterKek, db) =>
    match keyringImportIdentityWithMasterKek W db new masterKek fresh with
    | none => (db, false)
    | some db => (db, true)

end

/-! ### Entries -/

/-- `bm_keyring_t`, with the database that the operations are given. -/
structure Keyring where
  entries : List UnlockedIdentity
  db : IdentityStore

/-- `bm_keyring_init`. -/
def keyringInit (db : IdentityStore) : Keyring := ⟨[], db⟩

/-- `bm_keyring_find_by_address`. An entry holds at most 63 characters, so that `strncmp` over 64
compares the whole strings. -/
def keyringFindByAddress (kr : Keyring) (address : Bytes) : Option UnlockedIdentity :=
  kr.entries.find? fun entry => entry.address = address

/-- `bm_keyring_find_by_ripe`. -/
def keyringFindByRipe (kr : Keyring) (ripe : Bytes) : Option UnlockedIdentity :=
  kr.entries.find? fun entry => entry.ripe = ripe

/-- `bm_keyring_find_by_ripe_version`. -/
def keyringFindByRipeVersion (kr : Keyring) (ripe : Bytes) (addressVersion stream : ℕ) : Option UnlockedIdentity :=
  kr.entries.find? fun entry => entry.addressVersion = addressVersion ∧ entry.stream = stream ∧ entry.ripe = ripe

/-- `bm_keyring_find_by_tag`. -/
def keyringFindByTag (H : Hashes) (kr : Keyring) (tag : Bytes) : Option UnlockedIdentity :=
  kr.entries.find? fun entry => 4 ≤ entry.addressVersion ∧
    (addressDeriveSecretAndTag H entry.addressVersion entry.stream entry.ripe).2 = tag

/-- `mark_unlocked_entry_as_chan`: the first entry of the address. -/
def markUnlockedEntryAsChan (address : Bytes) : List UnlockedIdentity → List UnlockedIdentity
  | [] => []
  | entry :: entries =>
    if entry.address = address then { entry with isChan := true } :: entries
    else entry :: markUnlockedEntryAsChan address entries

/-- `bm_keyring_lock`: the first entry of the address is removed; the flag says that there was one. -/
def keyringLock (kr : Keyring) (address : Bytes) : Keyring × Bool :=
  ({ kr with entries := kr.entries.eraseP fun entry => entry.address = address },
    (keyringFindByAddress kr address).isSome)

/-- `bm_keyring_lock_all`. -/
def keyringLockAll (kr : Keyring) : Keyring := { kr with entries := [] }

/-- `bm_keyring_delete_identity`. -/
def keyringDeleteIdentity (kr : Keyring) (address : Bytes) : Keyring :=
  let kr' := (keyringLock kr address).1
  { kr' with db := identityStoreDelete kr'.db address }

/-! ### Unlocking -/

section

variable (H : Hashes) (W : KeyWrapping)

/-- The entry that `add_unlocked_entry` makes of a row. -/
def unlockedEntry (row : IdentityRow) (keys : PrivateKeys) (now : ℤ) : UnlockedIdentity where
  address := toAddressBuffer row.address
  ripe := addressCalcRipe H row.signingPubkey row.encryptionPubkey
  privSigning := keys.signing
  privEncryption := keys.encryption
  pubSigning := row.signingPubkey
  pubEncryption := row.encryptionPubkey
  addressVersion := row.addressVersion
  stream := row.stream
  nonceTrialsPerByte := row.nonceTrialsPerByte
  payloadLengthExtraBytes := row.payloadLengthExtraBytes
  isChan := row.isChan
  unlockedAt := now
  ripe_length := length_addressCalcRipe H _ _

/-- `add_unlocked_entry`. -/
def addUnlockedEntry (kr : Keyring) (row : IdentityRow) (keys : PrivateKeys) (now : ℤ) : Keyring :=
  { kr with entries := unlockedEntry H row keys now :: kr.entries }

/-- `unlock_with_kek`. -/
def unlockWithKek (kr : Keyring) (row : IdentityRow) (kek : Bytes) (now : ℤ) : Option Keyring :=
  (unwrapKeys W kek row.address row).map fun keys => addUnlockedEntry H kr row keys now

/-- `unlock_with_vault`. -/
def unlockWithVault (kr : Keyring) (row : IdentityRow) (masterKek : Bytes) (now : ℤ) : Option Keyring :=
  (W.hkdfExpandWrapKey masterKek row.kdfSalt row.address).bind fun kek => unlockWithKek H W kr row kek now

/-- `bm_keyring_unlock`: nothing asks whether the address is unlocked already. -/
def keyringUnlock (kr : Keyring) (address passphrase : Bytes) (now : ℤ) : Option Keyring :=
  (identityStoreLoad kr.db address).bind fun row =>
    (resolveKekForRow W kr.db row passphrase).bind fun kek => unlockWithKek H W kr row kek now

/-- `rewrap_to_vault`: the row keeps its old wrapping when a step fails. -/
def rewrapToVault (kr : Keyring) (address masterKek : Bytes) (fresh : Fresh) : IdentityStore :=
  let wrapped : Option (Bytes × Bytes) :=
    (keyringFindByAddress kr address).bind fun unlocked =>
      (W.hkdfExpandWrapKey masterKek fresh.salt address).bind fun kek =>
        (W.wrap kek address unlocked.privSigning fresh.signingNonce).bind fun signing =>
          (W.wrap kek address unlocked.privEncryption fresh.encryptionNonce).map fun encryption =>
            (signing, encryption)
  match wrapped with
  | none => kr.db
  | some (signing, encryption) => identityStoreUpdateWrappedKeys kr.db address fresh.salt signing encryption

/-! ### Bulk unlocking -/

/-- `struct unlock_bulk_state`; the master key is there when `have_master_kek` is set. -/
structure UnlockBulkState where
  passphrase : Bytes
  vaultExists : Bool
  masterKek : Option Bytes

/-- `struct bm_unlock_all_entry`. -/
structure UnlockAllEntry where
  address : Bytes
  unlocked : Bool
  notFound : Bool

/-- `unlock_bulk_begin`. -/
def unlockBulkBegin (db : IdentityStore) (passphrase : Bytes) : UnlockBulkState :=
  ⟨passphrase, db.vault.isSome, vaultMasterKek W db passphrase⟩

/-- The vault that the first successful unlock makes when there is none. -/
def unlockBulkVault (db : IdentityStore) (st : UnlockBulkState) (fresh : Fresh) : IdentityStore × UnlockBulkState :=
  if st.masterKek.isSome ∨ st.vaultExists then (db, st)
  else
    let made : Option (Bytes × IdentityStore) :=
      (W.deriveKek st.passphrase fresh.vaultSalt scryptDefaults).bind fun masterKek =>
        (W.wrap masterKek vaultCanaryAad vaultCanaryPlaintext fresh.canaryNonce).bind fun canary =>
          (identityStoreCreateVault db ⟨fresh.vaultSalt, some scryptDefaults, canary⟩).map fun db => (masterKek, db)
    match made with
    | none => (db, st)
    | some (masterKek, db) => (db, { st with vaultExists := true, masterKek := some masterKek })

/-- `unlock_bulk_one`. -/
def unlockBulkOne (kr : Keyring) (st : UnlockBulkState) (address : Bytes) (fresh : Fresh) :
    Keyring × UnlockBulkState × UnlockAllEntry :=
  let result (unlocked notFound : Bool) : UnlockAllEntry := ⟨toAddressBuffer address, unlocked, notFound⟩
  if (keyringFindByAddress kr address).isSome then (kr, st, result true false)
  else
    match identityStoreLoad kr.db address with
    | none => (kr, st, result false true)
    | some row =>
      match row.kdfAlgo with
      | .vaultHkdf =>
        match st.masterKek.bind fun masterKek => unlockWithVault H W kr row masterKek fresh.now with
        | none => (kr, st, result false false)
        | some kr => (kr, st, result true false)
      | .scrypt =>
        match keyringUnlock H W kr address st.passphrase fresh.now with
        | none => (kr, st, result false false)
        | some kr =>
          let (db, st) := unlockBulkVault W kr.db st fresh
          let kr := { kr with db := db }
          match st.masterKek with
          | none => (kr, st, result true false)
          | some masterKek => ({ kr with db := rewrapToVault W kr address masterKek fresh }, st, result true false)

/-- The loop of both bulk operations. -/
def unlockBulk (kr : Keyring) (st : UnlockBulkState) : List Bytes → (ℕ → Fresh) → Keyring × List UnlockAllEntry
  | [], _ => (kr, [])
  | address :: addresses, fresh =>
    let (kr, st, entry) := unlockBulkOne H W kr st address (fresh 0)
    let (kr, entries) := unlockBulk kr st addresses fun i => fresh (i + 1)
    (kr, entry :: entries)

/-- `bm_keyring_unlock_all_with_limit`: above the limit it refuses and reports nothing. -/
def keyringUnlockAllWithLimit (kr : Keyring) (passphrase : Bytes) (maxIdentities : ℕ) (fresh : ℕ → Fresh) :
    Keyring × Option (List UnlockAllEntry) :=
  let list := identityStoreList kr.db
  if list.length > maxIdentities then (kr, none)
  else
    let (kr, entries) := unlockBulk H W kr (unlockBulkBegin W kr.db passphrase) list fresh
    (kr, some entries)

/-- `bm_keyring_unlock_addresses`. -/
def keyringUnlockAddresses (kr : Keyring) (passphrase : Bytes) (addresses : List Bytes) (fresh : ℕ → Fresh) :
    Keyring × List UnlockAllEntry :=
  unlockBulk H W kr (unlockBulkBegin W kr.db passphrase) addresses fresh

/-! ### From version 3 to version 4 -/

/-- `struct bm_keyring_convert_session`: `masterKek` is `none` until the master key has been asked
for, and then the key or the failure. -/
structure ConvertSession where
  passphrase : Bytes
  masterKek : Option (Option Bytes)

/-- The negative results of `bm_keyring_ensure_v4_sibling`. -/
inductive ConvertError
  | notFound
  | notV3
  | passphrase
  | failed
  deriving DecidableEq

/-- `session_master_kek`. -/
def sessionMasterKek (db : IdentityStore) (session : ConvertSession) : ConvertSession × Option Bytes :=
  match session.masterKek with
  | some masterKek => (session, masterKek)
  | none =>
    let masterKek := vaultMasterKek W db session.passphrase
    ({ session with masterKek := some masterKek }, masterKek)

/-- The key that a version 3 row is unwrapped with. -/
def convertKek (db : IdentityStore) (v3 : IdentityRow) (session : ConvertSession) : ConvertSession × Option Bytes :=
  match v3.kdfAlgo with
  | .vaultHkdf =>
    let (session, masterKek) := sessionMasterKek W db session
    (session, masterKek.bind fun masterKek => W.hkdfExpandWrapKey masterKek v3.kdfSalt v3.address)
  | .scrypt => (session, resolveKekForRow W db v3 session.passphrase)

/-- The sibling is there: what it lacks is copied from the version 3 row. -/
def completeSibling (kr : Keyring) (v3 v4 : IdentityRow) (v4Address : Bytes) : Option (Keyring × IdentityRow) :=
  if v4.signingPubkey ≠ v3.signingPubkey ∨ v4.encryptionPubkey ≠ v3.encryptionPubkey then none
  else
    let db := if v4.label = [] ∧ v3.label ≠ [] then identityStoreUpdateLabel kr.db v4Address v3.label else kr.db
    if v3.isChan ∧ ¬ v4.isChan then
      some (⟨markUnlockedEntryAsChan v4Address kr.entries, identityStoreSetIsChan db v4Address⟩,
        { v4 with isChan := true })
    else some ({ kr with db := db }, v4)

/-- The sibling is missing: it is stored with the wrapping of the version 3 row. -/
def createSibling (kr : Keyring) (v3 : IdentityRow) (keys : PrivateKeys) (v4Address : Bytes)
    (session : ConvertSession) (fresh : Fresh) : Option (Keyring × IdentityRow) :=
  let new : NewIdentity := ⟨v4Address, v3.label, 4, v3.stream, v3.signingPubkey, v3.encryptionPubkey, keys,
    v3.nonceTrialsPerByte, v3.payloadLengthExtraBytes⟩
  let stored : Option IdentityStore :=
    match v3.kdfAlgo with
    | .vaultHkdf => (session.masterKek.getD none).bind fun masterKek =>
        keyringImportIdentityWithMasterKek W kr.db new masterKek fresh
    | .scrypt => keyringCreateIdentity W kr.db new session.passphrase fresh
  stored.bind fun db => (identityStoreLoad db v4Address).map fun v4 =>
    if v3.isChan then ({ kr with db := identityStoreSetIsChan db v4Address }, { v4 with isChan := true })
    else ({ kr with db := db }, v4)

/-- The row of the sibling, completed or created. -/
def siblingRow (kr : Keyring) (v3 : IdentityRow) (keys : PrivateKeys) (v4Address : Bytes) (session : ConvertSession)
    (fresh : Fresh) : Option (Keyring × IdentityRow) :=
  match identityStoreLoad kr.db v4Address with
  | some v4 => completeSibling kr v3 v4 v4Address
  | none => createSibling W kr v3 keys v4Address session fresh

/-- `bm_keyring_ensure_v4_sibling`: the address of the sibling and whether it was created. -/
def keyringEnsureV4Sibling (kr : Keyring) (v3Address : Bytes) (session : ConvertSession) (fresh : Fresh) :
    Keyring × ConvertSession × Except ConvertError (Bytes × Bool) :=
  match identityStoreLoad kr.db v3Address with
  | none => (kr, session, .error .notFound)
  | some v3 =>
    if v3.addressVersion ≠ 3 then (kr, session, .error .notV3)
    else
      let (session, kek) := convertKek W kr.db v3 session
      match kek.bind fun kek => unwrapKeys W kek v3.address v3 with
      | none => (kr, session, .error .passphrase)
      | some keys =>
        match addressEncode H 4 v3.stream (addressCalcRipe H v3.signingPubkey v3.encryptionPubkey) with
        | none => (kr, session, .error .failed)
        | some encoded =>
          let v4Address := toAddressBuffer encoded
          let created := (identityStoreLoad kr.db v4Address).isNone
          match siblingRow W kr v3 keys v4Address session fresh with
          | none => (kr, session, .error .failed)
          | some (kr, v4) =>
            -- an unlocked version 3 goes on receiving as version 4
            let unlock := (keyringFindByAddress kr v3.address).isSome ∧ (keyringFindByAddress kr v4Address).isNone
            (if unlock then addUnlockedEntry H kr v4 keys fresh.now else kr, session,
              .ok (v4Address, created))

end

end Bitmessage
