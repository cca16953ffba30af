import Bitmessage.Core.WrappedRows
import Bitmessage.Core.MessagesStore
import Bitmessage.Pq.Keyring

/-! The conversion of a version 3 identity, one database step at a time. The sibling is
made or completed, the own addresses in the message database are renamed, and then the
version 3 row is deleted. The two databases have no transaction in common: every write
is durable at once, and any step may fail without effect. A read that fails looks like a
row that is not there. -/

namespace Bitmessage

/-- The steps that go to a database. -/
inductive ConvertStep
  | loadV3
  | loadVault
  | loadV4
  | updateLabel
  | insertV4
  | reloadV4
  | setIsChan
  | renameInbox
  | renameSent
  | deletePq
  | deleteV3
  deriving DecidableEq

/-- `identity.db` and `messages.db`. -/
structure ConvertStore where
  identities : IdentityStore
  pqIdentities : PqIdentityTable
  inbox : List InboxRow
  sent : SentTable

/-- The unlocked entries and the databases; `stops` are their contents after each write. -/
structure ConvertState where
  entries : List UnlockedIdentity
  store : ConvertStore
  stops : List ConvertStore

/-- A process that starts on the databases. -/
def ConvertStore.start (store : ConvertStore) (entries : List UnlockedIdentity) : ConvertState :=
  ⟨entries, store, [store]⟩

/-- What a conversion reports: the sibling and whether it was created, and the error. It returns 0
when there is no error. -/
structure ConvertReply where
  sibling : Option (Bytes × Bool)
  error : Option String

/-- The error of `bm_keyring_ensure_v4_sibling` as `convert_one_v3_to_v4` tells it. -/
def ConvertError.text : ConvertError → String
  | .notFound => "address not found"
  | .notV3 => "not a v3 address"
  | .passphrase => "wrong passphrase"
  | .failed => "failed to prepare the v4 sibling"

/-- The row that `bm_keyring_ensure_v4_sibling` stores. -/
def siblingOf (v3 : IdentityRow) (keys : PrivateKeys) (v4Address : Bytes) : NewIdentity :=
  ⟨v4Address, v3.label, 4, v3.stream, v3.signingPubkey, v3.encryptionPubkey, keys, v3.nonceTrialsPerByte,
    v3.payloadLengthExtraBytes⟩

/-- The public keys agree; the code compares nothing else. -/
def SameKeys (v3 v4 : IdentityRow) : Prop :=
  v4.signingPubkey = v3.signingPubkey ∧ v4.encryptionPubkey = v3.encryptionPubkey

/-- The sibling has no label and the version 3 row has one. -/
def LacksLabel (v3 v4 : IdentityRow) : Prop := v4.label = [] ∧ v3.label ≠ []

/-- The version 3 row is a chan and the sibling is not flagged. -/
def LacksChan (v3 v4 : IdentityRow) : Prop := v3.isChan = true ∧ v4.isChan = false

instance (v3 v4 : IdentityRow) : Decidable (SameKeys v3 v4) := by unfold SameKeys; infer_instance

instance (v3 v4 : IdentityRow) : Decidable (LacksLabel v3 v4) := by unfold LacksLabel; infer_instance

instance (v3 v4 : IdentityRow) : Decidable (LacksChan v3 v4) := by unfold LacksChan; infer_instance

namespace ConvertState

/-- The keyring of the state. -/
def keyring (s : ConvertState) : Keyring := ⟨s.entries, s.store.identities⟩

/-- A write, durable at once when it works. -/
def write (works : ConvertStep → Bool) (step : ConvertStep) (f : ConvertStore → Option ConvertStore)
    (s : ConvertState) : ConvertState × Bool :=
  match if works step then f s.store else none with
  | none => (s, false)
  | some store => ({ s with store := store, stops := s.stops ++ [store] }, true)

/-- A read of a row. -/
def load (works : ConvertStep → Bool) (step : ConvertStep) (address : Bytes) (s : ConvertState) : Option IdentityRow :=
  if works step then identityStoreLoad s.store.identities address else none

/-- What reading the vault shows. -/
def readVault (works : ConvertStep → Bool) (s : ConvertState) : IdentityStore :=
  if works .loadVault then s.store.identities else { s.store.identities with vault := none }

variable (H : Hashes) (W : KeyWrapping) (works : ConvertStep → Bool)

/-- The label is copied when the sibling has none. -/
def copyLabel (v3 v4 : IdentityRow) (v4Address : Bytes) (s : ConvertState) : ConvertState :=
  if LacksLabel v3 v4 then
    (s.write works .updateLabel fun store =>
      some { store with identities := identityStoreUpdateLabel store.identities v4Address v3.label }).1
  else s

/-- `bm_identity_store_set_is_chan` on the sibling. -/
def setIsChan (v4Address : Bytes) (s : ConvertState) : ConvertState :=
  (s.write works .setIsChan fun store =>
    some { store with identities := identityStoreSetIsChan store.identities v4Address }).1

/-- The first branch of `bm_keyring_ensure_v4_sibling`: nothing asks whether the updates worked. -/
def completeSibling (v3 v4 : IdentityRow) (v4Address : Bytes) (s : ConvertState) :
    ConvertState × Option IdentityRow :=
  if SameKeys v3 v4 then
    let s := copyLabel works v3 v4 v4Address s
    if LacksChan v3 v4 then
      let s := setIsChan works v4Address s
      ({ s with entries := markUnlockedEntryAsChan v4Address s.entries }, some { v4 with isChan := true })
    else (s, some v4)
  else (s, none)

/-- The row of the sibling in the scheme of the version 3 row. -/
def storeSibling (v3 : IdentityRow) (keys : PrivateKeys) (v4Address : Bytes) (session : ConvertSession) (fresh : Fresh)
    (db : IdentityStore) : Option IdentityStore :=
  match v3.kdfAlgo with
  | .vaultHkdf => (session.masterKek.getD none).bind fun masterKek =>
      keyringImportIdentityWithMasterKek W db (siblingOf v3 keys v4Address) masterKek fresh
  | .scrypt => keyringCreateIdentity W db (siblingOf v3 keys v4Address) session.passphrase fresh

/-- The second branch: nothing asks whether the flag was set. -/
def createSibling (v3 : IdentityRow) (keys : PrivateKeys) (v4Address : Bytes) (session : ConvertSession)
    (fresh : Fresh) (s : ConvertState) : ConvertState × Option IdentityRow :=
  let (s, stored) := s.write works .insertV4 fun store =>
    (storeSibling W v3 keys v4Address session fresh store.identities).map fun identities =>
      { store with identities := identities }
  match if stored then s.load works .reloadV4 v4Address else none with
  | none => (s, none)
  | some v4 =>
    if v3.isChan then (setIsChan works v4Address s, some { v4 with isChan := true }) else (s, some v4)

/-- The row of the sibling, completed or created. -/
def siblingRow (v3 : IdentityRow) (keys : PrivateKeys) (v4Address : Bytes) (session : ConvertSession) (fresh : Fresh)
    (s : ConvertState) : ConvertState × Option IdentityRow :=
  match s.load works .loadV4 v4Address with
  | some v4 => completeSibling works v3 v4 v4Address s
  | none => createSibling W works v3 keys v4Address session fresh s

/-- The end of `bm_keyring_ensure_v4_sibling`: an unlocked version 3 goes on receiving as version 4. -/
def unlockSibling (v3 v4 : IdentityRow) (keys : PrivateKeys) (v4Address : Bytes) (now : ℤ) (s : ConvertState) :
    ConvertState :=
  if (keyringFindByAddress s.keyring v3.address).isSome ∧ (keyringFindByAddress s.keyring v4Address).isNone then
    { s with entries := (addUnlockedEntry H s.keyring v4 keys now).entries }
  else s

/-- `bm_keyring_ensure_v4_sibling`. -/
def ensureV4Sibling (v3Address : Bytes) (session : ConvertSession) (fresh : Fresh) (s : ConvertState) :
    ConvertState × ConvertSession × Except ConvertError (Bytes × Bool) :=
  match s.load works .loadV3 v3Address with
  | none => (s, session, .error .notFound)
  | some v3 =>
    if v3.addressVersion ≠ 3 then (s, session, .error .notV3)
    else
      let (session, kek) := convertKek W (s.readVault works) v3 session
      match kek.bind fun kek => unwrapKeys W kek v3.address v3 with
      | none => (s, session, .error .passphrase)
      | some keys =>
        match addressEncode H 4 v3.stream (addressCalcRipe H v3.signingPubkey v3.encryptionPubkey) with
        | none => (s, session, .error .failed)
        | some encoded =>
          let v4Address := toAddressBuffer encoded
          let created := (s.load works .loadV4 v4Address).isNone
          match siblingRow W works v3 keys v4Address session fresh s with
          | (s, none) => (s, session, .error .failed)
          | (s, some v4) => (s.unlockSibling H v3 v4 keys v4Address fresh.now, session, .ok (v4Address, created))

/-- `bm_messages_store_rename_own_address`: two statements, each durable on its own. -/
def renameOwnAddress (oldAddress newAddress : Bytes) (s : ConvertState) : ConvertState × Bool :=
  match s.write works .renameInbox fun store =>
    some { store with inbox := messagesStoreRenameInbox store.inbox oldAddress newAddress } with
  | (s, false) => (s, false)
  | (s, true) => s.write works .renameSent fun store =>
      some { store with sent := messagesStoreRenameOwnAddress store.sent oldAddress newAddress }

/-- `bm_keyring_delete_identity`: locked, and deleted from both tables. -/
def deleteIdentity (address : Bytes) (s : ConvertState) : ConvertState × Bool :=
  let s := { s with entries := (keyringLock s.keyring address).1.entries }
  match s.write works .deletePq fun store =>
    some { store with pqIdentities := store.pqIdentities.delete address } with
  | (s, false) => (s, false)
  | (s, true) => s.write works .deleteV3 fun store =>
      some { store with identities := identityStoreDelete store.identities address }

/-- `convert_one_v3_to_v4`, with a message database. -/
def convertOneV3ToV4 (v3Address : Bytes) (session : ConvertSession) (fresh : Fresh) (s : ConvertState) :
    ConvertState × ConvertSession × ConvertReply :=
  match ensureV4Sibling H W works v3Address session fresh s with
  | (s, session, .error e) => (s, session, ⟨none, some e.text⟩)
  | (s, session, .ok (v4Address, created)) =>
    match renameOwnAddress works v3Address v4Address s with
    | (s, false) => (s, session, ⟨some (v4Address, created),
        some "failed to rewrite inbox/sent addresses (v4 is ready; retry to finish)"⟩)
    | (s, true) =>
      match deleteIdentity works v3Address s with
      | (s, false) => (s, session, ⟨some (v4Address, created),
          some "failed to delete the v3 identity (v4 is ready; retry to finish)"⟩)
      | (s, true) => (s, session, ⟨some (v4Address, created), none⟩)

end ConvertState

end Bitmessage
