import Bitmessage.Core.Keyring
import Bitmessage.Lib.Transition
import Mathlib.Data.List.Nodup

/-! What locking an address is worth. The addresses of the unlocked entries are a list
that unlocking conses to and locking erases from, and an erasure takes one occurrence
away. As long as the list has no duplicates that is the only one, and the private keys
are out of reach afterwards unless another address has them too, as the version 4
sibling of a version 3 address has. The bulk operations and the conversion ask before
they add; `bm_keyring_unlock` does not. -/

namespace Bitmessage

open Transition

variable (C : Crypto) (W : KeyWrapping)

/-- The addresses of the unlocked entries. -/
def Keyring.addresses (kr : Keyring) : List Bytes := kr.entries.map UnlockedIdentity.address

/-- The operations, with their inputs. `store` stands for every other write to the database. -/
inductive KeyringOp
  | unlock (address passphrase : Bytes) (now : ℤ)
  | unlockAll (passphrase : Bytes) (maxIdentities : ℕ) (fresh : ℕ → Fresh)
  | unlockAddresses (passphrase : Bytes) (addresses : List Bytes) (fresh : ℕ → Fresh)
  | ensureV4Sibling (v3Address : Bytes) (session : ConvertSession) (fresh : Fresh)
  | lock (address : Bytes)
  | lockAll
  | deleteIdentity (address : Bytes)
  | store (db : IdentityStore)

/-- The keyring after an operation. -/
def keyringApply (kr : Keyring) : KeyringOp → Keyring
  | .unlock address passphrase now => (keyringUnlock C.toHashes W kr address passphrase now).getD kr
  | .unlockAll passphrase maxIdentities fresh =>
    (keyringUnlockAllWithLimit C.toHashes W kr passphrase maxIdentities fresh).1
  | .unlockAddresses passphrase addresses fresh => (keyringUnlockAddresses C.toHashes W kr passphrase addresses fresh).1
  | .ensureV4Sibling v3Address session fresh => (keyringEnsureV4Sibling C.toHashes W kr v3Address session fresh).1
  | .lock address => (keyringLock kr address).1
  | .lockAll => keyringLockAll kr
  | .deleteIdentity address => keyringDeleteIdentity kr address
  | .store db => { kr with db := db }

def keyringStep (kr : Keyring) (op : KeyringOp) : Option Keyring := some (keyringApply C W kr op)

/-! ### The addresses after an operation -/

section

variable {C W} {kr kr' : Keyring}

theorem keyringFindByAddress_isSome {address : Bytes} :
    (keyringFindByAddress kr address).isSome ↔ address ∈ kr.addresses := by
  simp [keyringFindByAddress, Keyring.addresses]

theorem keyringFindByAddress_isNone {address : Bytes} :
    (keyringFindByAddress kr address).isNone ↔ address ∉ kr.addresses := by
  rw [← keyringFindByAddress_isSome, Option.isNone_iff_eq_none, Option.not_isSome_iff_eq_none]

theorem identityStoreLoad_address {db : IdentityStore} {address : Bytes} {row : IdentityRow}
    (h : identityStoreLoad db address = some row) : row.address = address :=
  (KeyedTable.find?_eq_some.mp h).2

theorem toAddressBuffer_address (row : IdentityRow) : toAddressBuffer row.address = row.address :=
  List.take_of_length_le (Nat.le_pred_of_lt row.address_length)

theorem addresses_addUnlockedEntry (H : Hashes) (row : IdentityRow) (keys : PrivateKeys) (now : ℤ) :
    (addUnlockedEntry H kr row keys now).addresses = row.address :: kr.addresses := by
  rw [← toAddressBuffer_address row]
  rfl

theorem addresses_unlockWithKek {H : Hashes} {row : IdentityRow} {kek : Bytes} {now : ℤ}
    (h : unlockWithKek H W kr row kek now = some kr') : kr'.addresses = row.address :: kr.addresses := by
  obtain ⟨keys, -, rfl⟩ := Option.map_eq_some_iff.mp h
  exact addresses_addUnlockedEntry H row keys now

theorem addresses_unlockWithVault {H : Hashes} {row : IdentityRow} {masterKek : Bytes} {now : ℤ}
    (h : unlockWithVault H W kr row masterKek now = some kr') : kr'.addresses = row.address :: kr.addresses := by
  obtain ⟨kek, -, h⟩ := Option.bind_eq_some_iff.mp h
  exact addresses_unlockWithKek h

theorem addresses_keyringUnlock {H : Hashes} {address passphrase : Bytes} {now : ℤ}
    (h : keyringUnlock H W kr address passphrase now = some kr') : kr'.addresses = address :: kr.addresses := by
  obtain ⟨row, hrow, h⟩ := Option.bind_eq_some_iff.mp h
  obtain ⟨kek, -, h⟩ := Option.bind_eq_some_iff.mp h
  rw [addresses_unlockWithKek h, identityStoreLoad_address hrow]

/-- An address unlocks exactly when its keys can be exported. -/
theorem keyringUnlock_isSome (H : Hashes) (address passphrase : Bytes) (now : ℤ) :
    (keyringUnlock H W kr address passphrase now).isSome = (keyringExport W kr.db address passphrase).isSome := by
  unfold keyringUnlock keyringExport
  rcases hrow : identityStoreLoad kr.db address with _ | row
  · rfl
  · rw [Option.bind_some, Option.bind_some]
    rcases resolveKekForRow W kr.db row passphrase with _ | kek
    · rfl
    · rw [Option.bind_some, Option.bind_some, unlockWithKek, Option.isSome_map, identityStoreLoad_address hrow]

theorem addresses_keyringLock (kr : Keyring) (address : Bytes) :
    (keyringLock kr address).1.addresses = kr.addresses.erase address := by
  have hp : (fun entry : UnlockedIdentity => decide (entry.address = address)) =
      (fun a => a == address) ∘ UnlockedIdentity.address := by
    funext entry
    rw [Function.comp_apply, beq_eq_decide]
  unfold Keyring.addresses keyringLock
  rw [List.erase_eq_eraseP', List.eraseP_map, hp]

theorem addresses_markUnlockedEntryAsChan (address : Bytes) (entries : List UnlockedIdentity) :
    (markUnlockedEntryAsChan address entries).map UnlockedIdentity.address =
      entries.map UnlockedIdentity.address := by
  induction entries with
  | nil => rfl
  | cons entry entries ih =>
    unfold markUnlockedEntryAsChan
    split_ifs
    · rfl
    · rw [List.map_cons, ih, List.map_cons]

theorem addresses_completeSibling {v3 v4 v4' : IdentityRow} {v4Address : Bytes}
    (h : completeSibling kr v3 v4 v4Address = some (kr', v4')) :
    kr'.addresses = kr.addresses ∧ v4'.address = v4.address := by
  unfold completeSibling at h
  split_ifs at h
  all_goals cases h
  · exact ⟨addresses_markUnlockedEntryAsChan _ _, rfl⟩
  · exact ⟨rfl, rfl⟩
  · exact ⟨addresses_markUnlockedEntryAsChan _ _, rfl⟩
  · exact ⟨rfl, rfl⟩

theorem addresses_createSibling {v3 v4 : IdentityRow} {keys : PrivateKeys} {v4Address : Bytes}
    {session : ConvertSession} {fresh : Fresh}
    (h : createSibling W kr v3 keys v4Address session fresh = some (kr', v4)) :
    kr'.addresses = kr.addresses ∧ v4.address = v4Address := by
  obtain ⟨db, -, h⟩ := Option.bind_eq_some_iff.mp h
  obtain ⟨row, hrow, h⟩ := Option.map_eq_some_iff.mp h
  have haddress := identityStoreLoad_address hrow
  split_ifs at h
  all_goals cases h
  all_goals exact ⟨rfl, haddress⟩

/-- The row of the sibling is the one under its address, whether it was there or is new. -/
theorem addresses_siblingRow {v3 v4 : IdentityRow} {keys : PrivateKeys} {v4Address : Bytes} {session : ConvertSession}
    {fresh : Fresh} (h : siblingRow W kr v3 keys v4Address session fresh = some (kr', v4)) :
    kr'.addresses = kr.addresses ∧ v4.address = v4Address := by
  unfold siblingRow at h
  rcases hrow : identityStoreLoad kr.db v4Address with _ | row
  · rw [hrow] at h
    exact addresses_createSibling h
  · rw [hrow] at h
    obtain ⟨ha, hv⟩ := addresses_completeSibling h
    exact ⟨ha, hv.trans (identityStoreLoad_address hrow)⟩

/-- One address of a bulk operation: an entry is added only when there is none. -/
theorem unlockBulkOne_addresses (H : Hashes) (kr : Keyring) (st : UnlockBulkState) (address : Bytes) (fresh : Fresh) :
    (unlockBulkOne H W kr st address fresh).1.addresses = kr.addresses ∨
      address ∉ kr.addresses ∧ (unlockBulkOne H W kr st address fresh).1.addresses = address :: kr.addresses := by
  unfold unlockBulkOne
  simp only
  split_ifs with hfound
  · exact .inl rfl
  have hnew : address ∉ kr.addresses := fun h => hfound (keyringFindByAddress_isSome.mpr h)
  rcases hrow : identityStoreLoad kr.db address with _ | row
  · exact .inl rfl
  have haddress := identityStoreLoad_address hrow
  simp only
  rcases row.kdfAlgo with _ | _
  · simp only
    rcases h : keyringUnlock H W kr address st.passphrase fresh.now with _ | kr₁
    · exact .inl rfl
    · have hadded := addresses_keyringUnlock h
      refine .inr ⟨hnew, ?_⟩
      simp only
      split
      all_goals exact hadded
  · simp only
    rcases h : st.masterKek.bind fun masterKek => unlockWithVault H W kr row masterKek fresh.now with _ | kr₁
    · exact .inl rfl
    · obtain ⟨masterKek, -, h⟩ := Option.bind_eq_some_iff.mp h
      exact .inr ⟨hnew, by rw [addresses_unlockWithVault h, haddress]⟩

theorem unlockBulkOne_nodup (H : Hashes) (st : UnlockBulkState) (address : Bytes) (fresh : Fresh)
    (h : kr.addresses.Nodup) : (unlockBulkOne H W kr st address fresh).1.addresses.Nodup := by
  rcases unlockBulkOne_addresses H kr st address fresh with he | ⟨hnew, he⟩
  · rw [he]
    exact h
  · rw [he]
    exact List.nodup_cons.mpr ⟨hnew, h⟩

theorem unlockBulk_nodup (H : Hashes) (st : UnlockBulkState) (addresses : List Bytes) (fresh : ℕ → Fresh)
    (h : kr.addresses.Nodup) : (unlockBulk H W kr st addresses fresh).1.addresses.Nodup := by
  induction addresses generalizing kr st fresh with
  | nil => exact h
  | cons address addresses ih => exact ih _ _ (unlockBulkOne_nodup H st address (fresh 0) h)

theorem keyringEnsureV4Sibling_nodup (H : Hashes) (v3Address : Bytes) (session : ConvertSession) (fresh : Fresh)
    (h : kr.addresses.Nodup) : (keyringEnsureV4Sibling H W kr v3Address session fresh).1.addresses.Nodup := by
  unfold keyringEnsureV4Sibling
  rcases identityStoreLoad kr.db v3Address with _ | v3
  · exact h
  simp only
  split_ifs
  · exact h
  rcases (convertKek W kr.db v3 session).2.bind fun kek => unwrapKeys W kek v3.address v3 with _ | keys
  · exact h
  simp only
  rcases addressEncode H 4 v3.stream (addressCalcRipe H v3.signingPubkey v3.encryptionPubkey) with _ | encoded
  · exact h
  simp only
  rcases hs : siblingRow W kr v3 keys (toAddressBuffer encoded) (convertKek W kr.db v3 session).1 fresh with
    _ | ⟨kr', v4⟩
  · exact h
  · obtain ⟨ha, hv⟩ := addresses_siblingRow hs
    simp only
    split_ifs with hunlock
    · rw [addresses_addUnlockedEntry, hv, ha]
      exact List.nodup_cons.mpr ⟨ha ▸ keyringFindByAddress_isNone.mp hunlock.2, h⟩
    · rw [ha]
      exact h

end

/-! ### Locking -/

/-- The entry is handed out by a lookup or by a trial decryption. -/
def Keyring.HandsOut (kr : Keyring) (entry : UnlockedIdentity) : Prop :=
  (∃ address, keyringFindByAddress kr address = some entry) ∨
  (∃ ripe, keyringFindByRipe kr ripe = some entry) ∨
  (∃ ripe addressVersion stream, keyringFindByRipeVersion kr ripe addressVersion stream = some entry) ∨
  (∃ tag, keyringFindByTag C.toHashes kr tag = some entry) ∨
  (∃ ciphertext body, trialOpen C kr.entries ciphertext = some (entry, body))

/-- A pair of private keys of the address: that of an unlocked entry, or what the row gives to a passphrase. -/
def Keyring.KeysOf (kr : Keyring) (address : Bytes) (keys : PrivateKeys) : Prop :=
  (∃ entry ∈ kr.entries, entry.address = address ∧ keys = ⟨entry.privSigning, entry.privEncryption⟩) ∨
  ∃ passphrase, keyringExport W kr.db address passphrase = some keys

/-- The entry has one of the two keys. -/
def UnlockedIdentity.Has (entry : UnlockedIdentity) (keys : PrivateKeys) : Prop :=
  entry.privSigning = keys.signing ∨ entry.privEncryption = keys.encryption

/-- Between the two states the address has lost its entries, and nothing hands out one of its private keys. -/
def LockedOut (kr kr' : Keyring) (address : Bytes) : Prop :=
  address ∉ kr'.addresses ∧ ∀ entry keys, kr'.HandsOut C entry → kr.KeysOf W address keys → ¬ entry.Has keys

/-- The operation locks the address: `bm_keyring_lock` that returns 0, or the deletion. -/
def KeyringOp.Locks (kr : Keyring) (address : Bytes) : KeyringOp → Prop
  | .lock a => a = address ∧ (keyringLock kr a).2 = true
  | .deleteIdentity a => a = address
  | _ => False

/-- After the operation there is one entry for an address at most, and what was locked is out of reach. -/
def LockSafe (kr : Keyring) (op : KeyringOp) : Prop :=
  (keyringApply C W kr op).addresses.Nodup ∧
    ∀ address, op.Locks kr address → LockedOut C W kr (keyringApply C W kr op) address

/-- `bm_keyring_unlock` for an address that is unlocked, with a passphrase that opens its row. -/
def KeyringOp.Reunlocks (kr : Keyring) : KeyringOp → Prop
  | .unlock address passphrase _ =>
    (keyringFindByAddress kr address).isSome ∧ (keyringExport W kr.db address passphrase).isSome
  | _ => False

/-- Another address is unlocked that has a private key of this one. -/
def Keyring.SharesKeys (kr : Keyring) (address : Bytes) : Prop :=
  ∃ entry ∈ kr.entries, entry.address ≠ address ∧ ∃ keys, kr.KeysOf W address keys ∧ entry.Has keys

/-- An unlocked address is locked, or an address is deleted, while another unlocked one shares its keys. -/
def KeyringOp.LeavesKeys (kr : Keyring) : KeyringOp → Prop
  | .lock address => address ∈ kr.addresses ∧ kr.SharesKeys W address
  | .deleteIdentity address => kr.SharesKeys W address
  | _ => False

section

variable {C W} {kr kr' : Keyring}

theorem Keyring.HandsOut.mem {entry : UnlockedIdentity} (h : kr.HandsOut C entry) : entry ∈ kr.entries := by
  rcases h with ⟨_, h⟩ | ⟨_, h⟩ | ⟨_, _, _, h⟩ | ⟨_, h⟩ | ⟨ciphertext, body, h⟩
  · exact List.mem_of_find?_eq_some h
  · exact List.mem_of_find?_eq_some h
  · exact List.mem_of_find?_eq_some h
  · exact List.mem_of_find?_eq_some h
  · exact (trialOpen_eq_some h).1

/-- Without duplicates every entry is handed out, for its own address. -/
theorem Keyring.handsOut_of_mem (h : kr.addresses.Nodup) {entry : UnlockedIdentity} (hmem : entry ∈ kr.entries) :
    kr.HandsOut C entry := by
  have hsome := keyringFindByAddress_isSome.mpr (List.mem_map_of_mem (f := UnlockedIdentity.address) hmem)
  obtain ⟨found, hfound⟩ := Option.isSome_iff_exists.mp hsome
  have haddress : found.address = entry.address := by simpa using List.find?_some hfound
  have hsame : found = entry := List.inj_on_of_nodup_map h (List.mem_of_find?_eq_some hfound) hmem haddress
  exact .inl ⟨entry.address, hsame ▸ hfound⟩

/-- Without duplicates, locking takes away the entries of the address and no others. -/
theorem mem_keyringLock (h : kr.addresses.Nodup) {address : Bytes} {entry : UnlockedIdentity} :
    entry ∈ (keyringLock kr address).1.entries ↔ entry ∈ kr.entries ∧ entry.address ≠ address := by
  constructor
  · intro hmem
    have haddress : entry.address ∈ (keyringLock kr address).1.addresses := List.mem_map_of_mem hmem
    rw [addresses_keyringLock, h.mem_erase_iff] at haddress
    exact ⟨List.mem_of_mem_eraseP hmem, haddress.1⟩
  · rintro ⟨hmem, hne⟩
    exact (List.mem_eraseP_of_neg (by simpa using hne)).mpr hmem

/-- Without duplicates, locking puts the keys out of reach exactly when no other unlocked address has them. -/
theorem lockedOut_iff (h : kr.addresses.Nodup) {address : Bytes}
    (hentries : kr'.entries = (keyringLock kr address).1.entries) :
    LockedOut C W kr kr' address ↔ ¬ kr.SharesKeys W address := by
  have haddresses : kr'.addresses = kr.addresses.erase address := by
    rw [Keyring.addresses, hentries]
    exact addresses_keyringLock kr address
  have hnodup : kr'.addresses.Nodup := haddresses ▸ h.erase address
  constructor
  · rintro ⟨-, hout⟩ ⟨entry, hmem, hne, keys, hkeys, hhas⟩
    have hafter : entry ∈ kr'.entries := hentries ▸ (mem_keyringLock h).mpr ⟨hmem, hne⟩
    exact hout entry keys (Keyring.handsOut_of_mem hnodup hafter) hkeys hhas
  · intro hshares
    refine ⟨haddresses ▸ h.not_mem_erase, fun entry keys hout hkeys hhas => hshares ?_⟩
    obtain ⟨hmem, hne⟩ := (mem_keyringLock h).mp (hentries ▸ hout.mem)
    exact ⟨entry, hmem, hne, keys, hkeys, hhas⟩

/-- One operation is safe exactly when it does not unlock an unlocked address, and does not lock an address
whose keys another unlocked one has too. -/
theorem lockSafe_iff (h : kr.addresses.Nodup) (op : KeyringOp) :
    LockSafe C W kr op ↔ ¬ op.Reunlocks W kr ∧ ¬ op.LeavesKeys W kr := by
  have herase : ∀ address, ((keyringLock kr address).1.addresses).Nodup := fun address => by
    rw [addresses_keyringLock]
    exact h.erase address
  cases op with
  | unlock address passphrase now =>
    simp only [LockSafe, KeyringOp.Reunlocks, KeyringOp.LeavesKeys, keyringApply, keyringFindByAddress_isSome,
      ← keyringUnlock_isSome C.toHashes address passphrase now]
    rcases hu : keyringUnlock C.toHashes W kr address passphrase now with _ | kr'
    · simpa [KeyringOp.Locks] using h
    · simp [addresses_keyringUnlock hu, h, KeyringOp.Locks]
  | unlockAll passphrase maxIdentities fresh =>
    refine iff_of_true ⟨?_, fun _ hl => hl.elim⟩ ⟨id, id⟩
    unfold keyringApply keyringUnlockAllWithLimit
    simp only
    split_ifs
    · exact h
    · exact unlockBulk_nodup _ _ _ _ h
  | unlockAddresses passphrase addresses fresh =>
    exact iff_of_true ⟨unlockBulk_nodup _ _ _ _ h, fun _ hl => hl.elim⟩ ⟨id, id⟩
  | ensureV4Sibling v3Address session fresh =>
    exact iff_of_true ⟨keyringEnsureV4Sibling_nodup _ _ _ _ h, fun _ hl => hl.elim⟩ ⟨id, id⟩
  | lock address =>
    have hlocked : LockedOut C W kr (keyringLock kr address).1 address ↔ _ := lockedOut_iff h rfl
    constructor
    · rintro ⟨-, hsafe⟩
      refine ⟨id, fun hleaves => hlocked.mp (hsafe address ⟨rfl, ?_⟩) hleaves.2⟩
      exact keyringFindByAddress_isSome.mpr hleaves.1
    · rintro ⟨-, hleaves⟩
      refine ⟨herase address, ?_⟩
      rintro _ ⟨rfl, hzero⟩
      exact hlocked.mpr fun hshares => hleaves ⟨keyringFindByAddress_isSome.mp hzero, hshares⟩
  | lockAll => exact iff_of_true ⟨List.nodup_nil, fun _ hl => hl.elim⟩ ⟨id, id⟩
  | deleteIdentity address =>
    have hlocked : LockedOut C W kr (keyringDeleteIdentity kr address) address ↔ _ := lockedOut_iff h rfl
    constructor
    · rintro ⟨-, hsafe⟩
      exact ⟨id, hlocked.mp (hsafe address rfl)⟩
    · rintro ⟨-, hleaves⟩
      refine ⟨herase address, ?_⟩
      rintro _ rfl
      exact hlocked.mpr hleaves
  | store db => exact iff_of_true ⟨h, fun _ hl => hl.elim⟩ ⟨id, id⟩

end

/-- From an empty keyring, every state has one entry for an address at most and the private keys of every
locked address are out of reach, exactly when no step of the run unlocks an unlocked address, or locks one
whose keys another unlocked address has too. -/
theorem keyring_lockSafe_iff (db : IdentityStore) (ops : List KeyringOp) :
    Along (keyringStep C W) (LockSafe C W) (keyringInit db) ops ↔
      Along (keyringStep C W) (fun kr op => ¬ op.Reunlocks W kr ∧ ¬ op.LeavesKeys W kr) (keyringInit db) ops := by
  refine along_congr (I := fun kr => kr.addresses.Nodup) ?_ (fun kr op h => lockSafe_iff h op) List.nodup_nil ops
  rintro kr op kr' - hsafe ⟨⟩
  exact hsafe.1

/-! ### An address unlocked twice -/

/-- A wrapping that can be computed: the wrapping key and the address stand in front of the key. -/
def plainWrapping : KeyWrapping where
  deriveKek passphrase _ _ := some passphrase
  hkdfExpandWrapKey masterKek _ _ := some masterKek
  wrap kek aad plaintext _ := some (kek ++ aad ++ plaintext)
  unwrap kek aad wrapped :=
    if (kek ++ aad).isPrefixOf wrapped then some (wrapped.drop (kek ++ aad).length) else none

/-- An identity `BM-a` behind the passphrase `pw`. -/
def storedIdentity : IdentityRow where
  address := [0x42, 0x4d, 0x2d, 0x61]
  label := []
  isChan := false
  addressVersion := 4
  stream := 1
  signingPubkey := uncompressed (List.replicate 64 1)
  encryptionPubkey := uncompressed (List.replicate 64 2)
  kdfAlgo := .scrypt
  kdfSalt := List.replicate 16 0
  kdfParams := some scryptDefaults
  wrappedPrivSigningKey := [0x70, 0x77, 0x42, 0x4d, 0x2d, 0x61] ++ List.replicate 32 3
  wrappedPrivEncryptionKey := [0x70, 0x77, 0x42, 0x4d, 0x2d, 0x61] ++ List.replicate 32 4
  nonceTrialsPerByte := 1000
  payloadLengthExtraBytes := 1000
  createdTime := 0
  address_length := by decide

/-- The database with this identity. -/
def storedIdentities : IdentityStore := ⟨⟨[storedIdentity], List.nodup_singleton _⟩, none⟩

/-- The identity is unlocked twice and then locked. -/
def unlockTwice : List KeyringOp :=
  [.unlock storedIdentity.address [0x70, 0x77] 0, .unlock storedIdentity.address [0x70, 0x77] 1,
    .lock storedIdentity.address]

/-- The run is not safe: the lock succeeds and a lookup still finds the private keys. -/
theorem unlockTwice_not_lockSafe :
    ¬ Along (keyringStep plainCrypto plainWrapping) (LockSafe plainCrypto plainWrapping)
        (keyringInit storedIdentities) unlockTwice ∧
      ∃ kr kr', run (keyringStep plainCrypto plainWrapping) (keyringInit storedIdentities) (unlockTwice.take 2) =
          some kr ∧
        keyringLock kr storedIdentity.address = (kr', true) ∧
        (keyringFindByAddress kr' storedIdentity.address).map UnlockedIdentity.privEncryption =
          some (List.replicate 32 4) := by
  constructor
  · intro h
    have hnodup := (h.2 _ rfl).1.1
    revert hnodup
    decide
  · exact ⟨_, _, rfl, rfl, by decide⟩

/-! ### A version 3 address beside its sibling -/

/-- The same identity as version 3, which a conversion gives a sibling before it is locked. -/
def siblingStays : List KeyringOp :=
  [.unlock storedIdentity.address [0x70, 0x77] 0,
    .ensureV4Sibling storedIdentity.address ⟨[0x70, 0x77], none⟩ ⟨0, List.replicate 16 0, List.replicate 16 0,
      List.replicate 12 0, List.replicate 12 0, List.replicate 12 0⟩,
    .lock storedIdentity.address]

/-- Nothing is unlocked twice and the lock succeeds, but the version 4 entry that the conversion has added still
hands out the private keys. -/
example :
    (run (keyringStep plainCrypto plainWrapping)
        (keyringInit ⟨⟨[{ storedIdentity with addressVersion := 3 }], List.nodup_singleton _⟩, none⟩)
        (siblingStays.take 2)).map (fun kr =>
      ((keyringFindByAddress kr storedIdentity.address).map UnlockedIdentity.privEncryption,
        (keyringLock kr storedIdentity.address).2,
        (keyringFindByRipe (keyringLock kr storedIdentity.address).1
          (addressCalcRipe plainCrypto.toHashes storedIdentity.signingPubkey storedIdentity.encryptionPubkey)).map
            UnlockedIdentity.privEncryption)) =
      some (some (List.replicate 32 4), true, some (List.replicate 32 4)) := by
  decide +kernel

end Bitmessage
