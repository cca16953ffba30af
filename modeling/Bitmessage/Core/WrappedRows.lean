import Bitmessage.Core.KeyringSafety

/-! What a wrapped row gives back. The cipher authenticates: a wrapped key opens under the
wrapping key and the address it was made with and under nothing else, and a passphrase has
a wrapping key of its own under every salt. A stored row then opens to the keys it was
made of, as long as its address still is the one that was authenticated. The master key
of the vault is asked for its canary before it opens a row. -/

namespace Bitmessage

/-! ### The statements, row by row -/

section

variable {db db' : IdentityStore} {address a : Bytes}

theorem identityStoreInsert_eq_some {row : IdentityRow} (h : identityStoreInsert db row = some db') :
    identityStoreLoad db row.address = none ∧ identityStoreLoad db' row.address = some row ∧
      (∀ a ≠ row.address, identityStoreLoad db' a = identityStoreLoad db a) ∧ db'.vault = db.vault := by
  obtain ⟨identities, hi, rfl⟩ := Option.map_eq_some_iff.mp h
  have hnew : (db.identities.insert? row).isSome := by
    rw [hi]
    rfl
  exact ⟨KeyedTable.insert?_isSome.mp hnew, KeyedTable.find?_insert?_self hi,
    fun _ ha => KeyedTable.find?_insert?_of_ne hi ha, rfl⟩

theorem identityStoreInsert_isSome {row : IdentityRow} :
    (identityStoreInsert db row).isSome ↔ identityStoreLoad db row.address = none := by
  rw [identityStoreInsert, Option.isSome_map]
  exact KeyedTable.insert?_isSome

theorem load_delete_self (db : IdentityStore) (address : Bytes) :
    identityStoreLoad (identityStoreDelete db address) address = none :=
  KeyedTable.find?_delete_self _ _

theorem load_delete_of_ne (db : IdentityStore) (h : a ≠ address) :
    identityStoreLoad (identityStoreDelete db address) a = identityStoreLoad db a :=
  KeyedTable.find?_delete_of_ne _ h

theorem load_updateLabel_self (db : IdentityStore) (address label : Bytes) :
    identityStoreLoad (identityStoreUpdateLabel db address label) address =
      (identityStoreLoad db address).map fun row => { row with label := label } := by
  unfold identityStoreUpdateLabel
  exact KeyedTable.find?_update_self _ _ _ fun row => by split <;> rfl

theorem load_updateLabel_of_ne (db : IdentityStore) (h : a ≠ address) (label : Bytes) :
    identityStoreLoad (identityStoreUpdateLabel db address label) a = identityStoreLoad db a := by
  unfold identityStoreUpdateLabel
  exact KeyedTable.find?_update_of_ne _ h _ fun row => by split <;> rfl

theorem load_setIsChan_self (db : IdentityStore) (address : Bytes) :
    identityStoreLoad (identityStoreSetIsChan db address) address =
      (identityStoreLoad db address).map fun row => { row with isChan := true } := by
  unfold identityStoreSetIsChan
  exact KeyedTable.find?_update_self _ _ _ fun row => by split <;> rfl

theorem load_setIsChan_of_ne (db : IdentityStore) (h : a ≠ address) :
    identityStoreLoad (identityStoreSetIsChan db address) a = identityStoreLoad db a := by
  unfold identityStoreSetIsChan
  exact KeyedTable.find?_update_of_ne _ h _ fun row => by split <;> rfl

theorem load_updateWrappedKeys_self (db : IdentityStore) (address salt signing encryption : Bytes) :
    identityStoreLoad (identityStoreUpdateWrappedKeys db address salt signing encryption) address =
      (identityStoreLoad db address).map fun row =>
        { row with
          kdfAlgo := .vaultHkdf
          kdfSalt := salt
          kdfParams := none
          wrappedPrivSigningKey := signing
          wrappedPrivEncryptionKey := encryption } := by
  unfold identityStoreUpdateWrappedKeys
  exact KeyedTable.find?_update_self _ _ _ fun row => by split <;> rfl

theorem load_updateWrappedKeys_of_ne (db : IdentityStore) (h : a ≠ address) (salt signing encryption : Bytes) :
    identityStoreLoad (identityStoreUpdateWrappedKeys db address salt signing encryption) a =
      identityStoreLoad db a := by
  unfold identityStoreUpdateWrappedKeys
  exact KeyedTable.find?_update_of_ne _ h _ fun row => by split <;> rfl

/-- No row is stored under an address that does not fit its column. -/
theorem length_of_load {row : IdentityRow} (h : identityStoreLoad db address = some row) :
    address.length < addressStrMax :=
  identityStoreLoad_address h ▸ row.address_length

theorem toAddressBuffer_of_length (h : address.length < addressStrMax) : toAddressBuffer address = address :=
  List.take_of_length_le (Nat.le_pred_of_lt h)

end

/-! ### The laws -/

/-- What AES-GCM and scrypt promise. -/
structure KeyWrapping.Lawful (W : KeyWrapping) : Prop where
  unwrap_wrap {kek aad plaintext nonce wrapped : Bytes} :
    W.wrap kek aad plaintext nonce = some wrapped → W.unwrap kek aad wrapped = some plaintext
  unwrap_only {kek aad plaintext nonce wrapped kek' aad' plaintext' : Bytes} :
    W.wrap kek aad plaintext nonce = some wrapped → W.unwrap kek' aad' wrapped = some plaintext' →
      kek' = kek ∧ aad' = aad
  deriveKek_inj {salt : Bytes} {params : ScryptParams} {passphrase passphrase' kek : Bytes} :
    W.deriveKek passphrase salt params = some kek → W.deriveKek passphrase' salt params = some kek →
      passphrase' = passphrase

/-- The derivations and the cipher do not run out of memory. -/
structure KeyWrapping.Total (W : KeyWrapping) : Prop where
  deriveKek (passphrase salt : Bytes) : (W.deriveKek passphrase salt scryptDefaults).isSome
  hkdfExpandWrapKey (masterKek salt address : Bytes) : (W.hkdfExpandWrapKey masterKek salt address).isSome
  wrap (kek aad plaintext nonce : Bytes) : (W.wrap kek aad plaintext nonce).isSome

/-- A string that shows where it ends: each byte behind a one, and a zero. -/
def frame : Bytes → Bytes
  | [] => [0]
  | b :: bs => 1 :: b :: frame bs

theorem frame_append_inj {x y s t : Bytes} (h : frame x ++ s = frame y ++ t) : x = y ∧ s = t := by
  induction x generalizing y with
  | nil =>
    cases y with
    | nil => exact ⟨rfl, (List.cons_inj_right _).mp h⟩
    | cons b bs => simp [frame] at h
  | cons a as ih =>
    cases y with
    | nil => simp [frame] at h
    | cons b bs =>
      simp only [frame, List.cons_append, List.cons.injEq, true_and] at h
      obtain ⟨rfl, hs⟩ := ih h.2
      exact ⟨by rw [h.1], hs⟩

/-- A wrapping that can be computed: the framed wrapping key and address stand in front. -/
def framedWrapping : KeyWrapping where
  deriveKek passphrase _ _ := some passphrase
  hkdfExpandWrapKey masterKek _ _ := some masterKek
  wrap kek aad plaintext _ := some (frame kek ++ (frame aad ++ plaintext))
  unwrap kek aad wrapped :=
    if frame kek ++ frame aad <+: wrapped then some (wrapped.drop (frame kek ++ frame aad).length) else none

theorem framedWrapping_lawful : framedWrapping.Lawful where
  unwrap_wrap := by
    rintro kek aad plaintext nonce _ ⟨⟩
    have hprefix : frame kek ++ frame aad <+: frame kek ++ (frame aad ++ plaintext) := by
      rw [← List.append_assoc]
      exact List.prefix_append _ _
    simp only [framedWrapping]
    rw [if_pos hprefix, ← List.append_assoc, List.drop_left]
  unwrap_only := by
    rintro kek aad plaintext nonce _ kek' aad' plaintext' ⟨⟩ h
    simp only [framedWrapping] at h
    split_ifs at h with hprefix
    obtain ⟨t, ht⟩ := hprefix
    rw [List.append_assoc] at ht
    obtain ⟨hkek, hrest⟩ := frame_append_inj ht
    exact ⟨hkek, (frame_append_inj hrest).1⟩
  deriveKek_inj := by
    rintro salt params passphrase passphrase' kek ⟨⟩ ⟨⟩
    rfl

theorem framedWrapping_total : framedWrapping.Total := ⟨fun _ _ => rfl, fun _ _ _ => rfl, fun _ _ _ _ => rfl⟩

/-! ### The keys of a row -/

variable {W : KeyWrapping}

/-- The private keys that a row gives to a passphrase. -/
def rowKeys (W : KeyWrapping) (db : IdentityStore) (row : IdentityRow) (passphrase : Bytes) : Option PrivateKeys :=
  (resolveKekForRow W db row passphrase).bind fun kek => unwrapKeys W kek row.address row

theorem keyringExport_eq (W : KeyWrapping) (db : IdentityStore) (address passphrase : Bytes) :
    keyringExport W db address passphrase =
      (identityStoreLoad db address).bind fun row => rowKeys W db row passphrase := by
  unfold keyringExport
  rcases h : identityStoreLoad db address with _ | row
  · rfl
  · rw [Option.bind_some, Option.bind_some, rowKeys, identityStoreLoad_address h]

/-- Two rows with the same wrapping. -/
structure SameWrapping (row row' : IdentityRow) : Prop where
  address : row'.address = row.address
  kdfAlgo : row'.kdfAlgo = row.kdfAlgo
  kdfSalt : row'.kdfSalt = row.kdfSalt
  kdfParams : row'.kdfParams = row.kdfParams
  signing : row'.wrappedPrivSigningKey = row.wrappedPrivSigningKey
  encryption : row'.wrappedPrivEncryptionKey = row.wrappedPrivEncryptionKey

theorem SameWrapping.refl (row : IdentityRow) : SameWrapping row row := ⟨rfl, rfl, rfl, rfl, rfl, rfl⟩

theorem vaultMasterKek_congr {db db' : IdentityStore} (h : db'.vault = db.vault) (passphrase : Bytes) :
    vaultMasterKek W db' passphrase = vaultMasterKek W db passphrase := by
  rw [vaultMasterKek, h, vaultMasterKek]

/-- The keys depend on the vault and on the wrapping only. -/
theorem rowKeys_congr {db db' : IdentityStore} (hvault : db'.vault = db.vault) {row row' : IdentityRow}
    (h : SameWrapping row row') (passphrase : Bytes) : rowKeys W db' row' passphrase = rowKeys W db row passphrase := by
  unfold rowKeys resolveKekForRow unwrapKeys
  rw [vaultMasterKek_congr hvault, h.address, h.kdfAlgo, h.kdfSalt, h.kdfParams, h.signing, h.encryption]

theorem NewIdentity.length_column (new : NewIdentity) : (toAddressBuffer new.address).length < addressStrMax :=
  lt_of_le_of_lt (List.length_take_le _ _) (by decide)

/-- The row that `store_new_identity_with_kek` makes. -/
def newIdentityRow (new : NewIdentity) (kdfAlgo : KdfAlgo) (kdfSalt : Bytes) (kdfParams : Option ScryptParams)
    (signing encryption : Bytes) (now : ℤ) : IdentityRow where
  address := toAddressBuffer new.address
  label := new.label.take (identityLabelMax - 1)
  isChan := false
  addressVersion := new.addressVersion
  stream := new.stream
  signingPubkey := new.pubSigning
  encryptionPubkey := new.pubEncryption
  kdfAlgo := kdfAlgo
  kdfSalt := kdfSalt
  kdfParams := kdfParams
  wrappedPrivSigningKey := signing
  wrappedPrivEncryptionKey := encryption
  nonceTrialsPerByte := new.nonceTrialsPerByte
  payloadLengthExtraBytes := new.payloadLengthExtraBytes
  createdTime := now
  address_length := new.length_column

/-- The wrapping of a new row: both keys are wrapped for the whole address, and the row is
inserted under as much of it as the column holds. -/
theorem storeNewIdentityWithKek_eq_some {db db' : IdentityStore} {new : NewIdentity} {kdfAlgo : KdfAlgo}
    {kdfSalt : Bytes} {kdfParams : Option ScryptParams} {kek : Bytes} {fresh : Fresh} :
    storeNewIdentityWithKek W db new kdfAlgo kdfSalt kdfParams kek fresh = some db' ↔
      ∃ signing encryption, W.wrap kek new.address new.keys.signing fresh.signingNonce = some signing ∧
        W.wrap kek new.address new.keys.encryption fresh.encryptionNonce = some encryption ∧
        identityStoreInsert db (newIdentityRow new kdfAlgo kdfSalt kdfParams signing encryption fresh.now) =
          some db' := by
  unfold storeNewIdentityWithKek
  rw [Option.bind_eq_some_iff]
  constructor
  · rintro ⟨signing, hs, h⟩
    obtain ⟨encryption, he, h⟩ := Option.bind_eq_some_iff.mp h
    exact ⟨signing, encryption, hs, he, h⟩
  · rintro ⟨signing, encryption, hs, he, h⟩
    exact ⟨signing, hs, Option.bind_eq_some_iff.mpr ⟨encryption, he, h⟩⟩

/-- A row was wrapped under a key, for an address. -/
structure WrappedUnder (W : KeyWrapping) (kek aad : Bytes) (keys : PrivateKeys) (row : IdentityRow) : Prop where
  signing : ∃ nonce, W.wrap kek aad keys.signing nonce = some row.wrappedPrivSigningKey
  encryption : ∃ nonce, W.wrap kek aad keys.encryption nonce = some row.wrappedPrivEncryptionKey

/-- Exactly the wrapping key and the address open it, to the keys that were wrapped. -/
theorem WrappedUnder.unwrapKeys_eq_some (hW : W.Lawful) {kek aad : Bytes} {keys : PrivateKeys} {row : IdentityRow}
    (h : WrappedUnder W kek aad keys row) {kek' aad' : Bytes} {keys' : PrivateKeys} :
    unwrapKeys W kek' aad' row = some keys' ↔ kek' = kek ∧ aad' = aad ∧ keys' = keys := by
  obtain ⟨_, hs⟩ := h.signing
  obtain ⟨_, he⟩ := h.encryption
  constructor
  · intro hu
    obtain ⟨signing, hsigning, hu⟩ := Option.bind_eq_some_iff.mp hu
    obtain ⟨encryption, hencryption, rfl⟩ := Option.map_eq_some_iff.mp hu
    obtain ⟨rfl, rfl⟩ := hW.unwrap_only hs hsigning
    rw [hW.unwrap_wrap hs] at hsigning
    rw [hW.unwrap_wrap he] at hencryption
    cases hsigning
    cases hencryption
    exact ⟨rfl, rfl, rfl⟩
  · rintro ⟨rfl, rfl, rfl⟩
    rw [unwrapKeys, hW.unwrap_wrap hs, Option.bind_some, hW.unwrap_wrap he, Option.map_some]

/-- What `bm_keyring_create_identity` leaves. -/
theorem keyringCreateIdentity_eq_some {db db' : IdentityStore} {new : NewIdentity} {passphrase : Bytes} {fresh : Fresh}
    (h : keyringCreateIdentity W db new passphrase fresh = some db') :
    ∃ kek signing encryption, W.deriveKek passphrase fresh.salt scryptDefaults = some kek ∧
      WrappedUnder W kek new.address new.keys
        (newIdentityRow new .scrypt fresh.salt (some scryptDefaults) signing encryption fresh.now) ∧
      identityStoreInsert db
        (newIdentityRow new .scrypt fresh.salt (some scryptDefaults) signing encryption fresh.now) = some db' := by
  obtain ⟨kek, hkek, h⟩ := Option.bind_eq_some_iff.mp h
  obtain ⟨signing, encryption, hs, he, h⟩ := storeNewIdentityWithKek_eq_some.mp h
  exact ⟨kek, signing, encryption, hkek, ⟨⟨_, hs⟩, ⟨_, he⟩⟩, h⟩

/-- What `bm_keyring_import_identity_with_master_kek` leaves. -/
theorem keyringImportIdentityWithMasterKek_eq_some {db db' : IdentityStore} {new : NewIdentity} {masterKek : Bytes}
    {fresh : Fresh} (h : keyringImportIdentityWithMasterKek W db new masterKek fresh = some db') :
    ∃ kek signing encryption, W.hkdfExpandWrapKey masterKek fresh.salt new.address = some kek ∧
      WrappedUnder W kek new.address new.keys
        (newIdentityRow new .vaultHkdf fresh.salt none signing encryption fresh.now) ∧
      identityStoreInsert db (newIdentityRow new .vaultHkdf fresh.salt none signing encryption fresh.now) =
        some db' := by
  obtain ⟨kek, hkek, h⟩ := Option.bind_eq_some_iff.mp h
  obtain ⟨signing, encryption, hs, he, h⟩ := storeNewIdentityWithKek_eq_some.mp h
  exact ⟨kek, signing, encryption, hkek, ⟨⟨_, hs⟩, ⟨_, he⟩⟩, h⟩

end Bitmessage
