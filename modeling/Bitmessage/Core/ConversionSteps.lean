import Bitmessage.Core.Conversion

/-! What the steps of a conversion do. Whatever fails, the row of the sibling is found or
made and then completed as far as the updates work, and nothing else in the table
changes. The statements behind it run one after the other; the version 3 row goes with
the last of them, and a conversion that stops before keeps it. -/

namespace Bitmessage

/-! ### The writes -/

/-- Every step works. -/
def allWork : ConvertStep → Bool := fun _ => true

/-- The databases with another table of identities. -/
def ConvertStore.withIdentities (store : ConvertStore) (db : IdentityStore) : ConvertStore :=
  { store with identities := db }

namespace ConvertState

variable {works : ConvertStep → Bool} {step : ConvertStep} {f : ConvertStore → Option ConvertStore} {s s' : ConvertState}

/-- The state after a write. -/
def put (s : ConvertState) (store : ConvertStore) : ConvertState :=
  { s with store := store, stops := s.stops ++ [store] }

theorem write_eq (works : ConvertStep → Bool) (step : ConvertStep) (f : ConvertStore → Option ConvertStore)
    (s : ConvertState) :
    s.write works step f =
      if works step then (f s.store).elim (s, false) fun store => (s.put store, true) else (s, false) := by
  unfold write
  split_ifs
  · rcases f s.store with _ | store
    · rfl
    · rfl
  · rfl

/-- A statement that always goes through when it works. -/
theorem write_some (works : ConvertStep → Bool) (step : ConvertStep) (g : ConvertStore → ConvertStore)
    (s : ConvertState) :
    (s.write works step fun store => some (g store)) = if works step then (s.put (g s.store), true) else (s, false) :=
  write_eq works step _ s

@[simp] theorem write_allWork (step : ConvertStep) (g : ConvertStore → ConvertStore) (s : ConvertState) :
    (s.write allWork step fun store => some (g store)) = (s.put (g s.store), true) := rfl

theorem write_eq_true (h : s.write works step f = (s', true)) :
    works step = true ∧ ∃ store, f s.store = some store ∧ s' = s.put store := by
  rw [write_eq] at h
  split_ifs at h with hw
  · rcases hf : f s.store with _ | store
    · rw [hf] at h
      cases h
    · rw [hf] at h
      cases h
      exact ⟨hw, store, rfl, rfl⟩
  · cases h

theorem write_eq_false (h : s.write works step f = (s', false)) : s' = s := by
  rw [write_eq] at h
  split_ifs at h
  · rcases hf : f s.store with _ | store
    · rw [hf] at h
      cases h
      rfl
    · rw [hf] at h
      cases h
  · cases h
    rfl

end ConvertState

/-! ### The row of the sibling -/

section

variable (works : ConvertStep → Bool) (v3 v4 : IdentityRow) (v4Address : Bytes) (db : IdentityStore)

/-- The table after the label was copied. -/
def labelledTable : IdentityStore :=
  if LacksLabel v3 v4 ∧ works .updateLabel then identityStoreUpdateLabel db v4Address v3.label else db

/-- The table after the label and the flag were copied. -/
def completedTable : IdentityStore :=
  if LacksChan v3 v4 ∧ works .setIsChan then identityStoreSetIsChan (labelledTable works v3 v4 v4Address db) v4Address
  else labelledTable works v3 v4 v4Address db

def labelledRow : IdentityRow :=
  { v4 with label := if LacksLabel v3 v4 ∧ works .updateLabel then v3.label else v4.label }

/-- The row of the sibling after that. -/
def completedRow : IdentityRow :=
  { labelledRow works v3 v4 with isChan := v4.isChan || (v3.isChan && works .setIsChan) }

variable {v3 v4 v4Address db}

theorem load_labelledTable_self (h : identityStoreLoad db v4Address = some v4) :
    identityStoreLoad (labelledTable works v3 v4 v4Address db) v4Address = some (labelledRow works v3 v4) := by
  unfold labelledTable labelledRow
  split_ifs
  · rw [load_updateLabel_self, h, Option.map_some]
  · exact h

theorem load_labelledTable_of_ne {a : Bytes} (h : a ≠ v4Address) :
    identityStoreLoad (labelledTable works v3 v4 v4Address db) a = identityStoreLoad db a := by
  unfold labelledTable
  split_ifs
  · exact load_updateLabel_of_ne db h _
  · rfl

theorem load_completedTable_self (h : identityStoreLoad db v4Address = some v4) :
    identityStoreLoad (completedTable works v3 v4 v4Address db) v4Address = some (completedRow works v3 v4) := by
  have hl : identityStoreLoad (labelledTable works v3 v4 v4Address db) v4Address = some (labelledRow works v3 v4) :=
    load_labelledTable_self works h
  unfold completedTable
  split_ifs with hc
  · rw [load_setIsChan_self, hl, Option.map_some, completedRow, hc.1.1, hc.2, Bool.and_self, Bool.or_true]
  · have hflag : (v4.isChan || (v3.isChan && works .setIsChan)) = v4.isChan := by
      unfold LacksChan at hc
      grind
    rw [hl, completedRow, hflag]
    rfl

theorem load_completedTable_of_ne {a : Bytes} (h : a ≠ v4Address) :
    identityStoreLoad (completedTable works v3 v4 v4Address db) a = identityStoreLoad db a := by
  unfold completedTable
  split_ifs
  · rw [load_setIsChan_of_ne _ h, load_labelledTable_of_ne works h]
  · exact load_labelledTable_of_ne works h

variable (v3 v4 v4Address db)

theorem vault_labelledTable : (labelledTable works v3 v4 v4Address db).vault = db.vault := by
  unfold labelledTable
  split_ifs
  · rfl
  · rfl

theorem vault_completedTable : (completedTable works v3 v4 v4Address db).vault = db.vault := by
  have hl := vault_labelledTable works v3 v4 v4Address db
  unfold completedTable
  split_ifs
  · exact hl
  · exact hl

theorem sameWrapping_completedRow : SameWrapping v4 (completedRow works v3 v4) := ⟨rfl, rfl, rfl, rfl, rfl, rfl⟩

end

/-- The row that a sibling begins with and the table that holds it: it was there, or it was made. -/
inductive SiblingBase (W : KeyWrapping) (works : ConvertStep → Bool) (v3 : IdentityRow) (keys : PrivateKeys)
    (v4Address : Bytes) (session : ConvertSession) (fresh : Fresh) (db : IdentityStore) :
    IdentityRow → IdentityStore → Prop
  | found {v4 : IdentityRow} (hw : works .loadV4 = true) (hrow : identityStoreLoad db v4Address = some v4)
      (hkeys : SameKeys v3 v4) : SiblingBase W works v3 keys v4Address session fresh db v4 db
  | made {v4 : IdentityRow} {db' : IdentityStore} (hi : works .insertV4 = true) (hr : works .reloadV4 = true)
      (hnone : identityStoreLoad db v4Address = none)
      (hs : ConvertState.storeSibling W v3 keys v4Address session fresh db = some db')
      (hrow : identityStoreLoad db' v4Address = some v4) :
      SiblingBase W works v3 keys v4Address session fresh db v4 db'

namespace ConvertState

variable {works : ConvertStep → Bool} {s s' : ConvertState} {v3 v4 : IdentityRow} {v4Address : Bytes}
  {P : ConvertStore → Prop}

/-- Every state of the databases so far. -/
def Visits (s : ConvertState) (P : ConvertStore → Prop) : Prop := ∀ t ∈ s.stops, P t

theorem Visits.put {store : ConvertStore} (h : s.Visits P) (hP : P store) : (s.put store).Visits P := by
  intro t ht
  rcases List.mem_append.mp ht with ht | ht
  · exact h t ht
  · rwa [List.mem_singleton.mp ht]

section

variable (works : ConvertStep → Bool) (step : ConvertStep) (g : ConvertStore → ConvertStore) (s)

theorem store_write : (s.write works step fun store => some (g store)).1.store =
    if works step then g s.store else s.store := by
  rw [write_some]
  split_ifs
  · rfl
  · rfl

theorem visits_write (hs : s.Visits P) (hP : P (s.write works step fun store => some (g store)).1.store) :
    (s.write works step fun store => some (g store)).1.Visits P := by
  rw [write_some] at hP ⊢
  split_ifs at hP ⊢
  · exact hs.put hP
  · exact hs

end

theorem store_copyLabel (works : ConvertStep → Bool) (v3 v4 : IdentityRow) (v4Address : Bytes) (s : ConvertState) :
    (copyLabel works v3 v4 v4Address s).store =
      s.store.withIdentities (labelledTable works v3 v4 v4Address s.store.identities) := by
  unfold copyLabel labelledTable
  by_cases hl : LacksLabel v3 v4
  · rw [if_pos hl, store_write]
    by_cases hw : works .updateLabel
    · rw [if_pos hw, if_pos ⟨hl, hw⟩]
      rfl
    · rw [if_neg hw, if_neg fun h => hw h.2]
      rfl
  · rw [if_neg hl, if_neg fun h => hl h.1]
    rfl

theorem visits_copyLabel (hs : s.Visits P) (hP : P (copyLabel works v3 v4 v4Address s).store) :
    (copyLabel works v3 v4 v4Address s).Visits P := by
  unfold copyLabel at hP ⊢
  split_ifs at hP ⊢
  · exact visits_write _ _ _ _ hs hP
  · exact hs

theorem store_setIsChan (works : ConvertStep → Bool) (v4Address : Bytes) (s : ConvertState) :
    (setIsChan works v4Address s).store = s.store.withIdentities
      (if works .setIsChan then identityStoreSetIsChan s.store.identities v4Address else s.store.identities) := by
  unfold setIsChan
  rw [store_write]
  split_ifs
  · rfl
  · rfl

theorem visits_setIsChan (hs : s.Visits P) (hP : P (setIsChan works v4Address s).store) :
    (setIsChan works v4Address s).Visits P :=
  visits_write _ _ _ _ hs hP

/-- A sibling that is there becomes the completed one. -/
theorem completeSibling_eq (works : ConvertStep → Bool) (v4Address : Bytes) (s : ConvertState) (h : SameKeys v3 v4) :
    ∃ s' v4', completeSibling works v3 v4 v4Address s = (s', some v4') ∧
      s'.store = s.store.withIdentities (completedTable works v3 v4 v4Address s.store.identities) ∧
      ∀ P, s.Visits P → P (s.store.withIdentities (labelledTable works v3 v4 v4Address s.store.identities)) →
        P (s.store.withIdentities (completedTable works v3 v4 v4Address s.store.identities)) → s'.Visits P := by
  have hlabel := store_copyLabel works v3 v4 v4Address s
  unfold completeSibling completedTable
  rw [if_pos h]
  simp only
  by_cases hchan : LacksChan v3 v4
  · have hstore : (setIsChan works v4Address (copyLabel works v3 v4 v4Address s)).store = s.store.withIdentities
        (if LacksChan v3 v4 ∧ works .setIsChan then
          identityStoreSetIsChan (labelledTable works v3 v4 v4Address s.store.identities) v4Address
        else labelledTable works v3 v4 v4Address s.store.identities) := by
      rw [store_setIsChan, hlabel]
      simp only [hchan, true_and]
      rfl
    rw [if_pos hchan]
    refine ⟨_, _, rfl, hstore, ?_⟩
    intro P hs hl hc
    exact visits_setIsChan (visits_copyLabel hs (hlabel ▸ hl)) (hstore ▸ hc)
  · rw [if_neg hchan, if_neg fun hc => hchan hc.1]
    refine ⟨_, _, rfl, hlabel, ?_⟩
    intro P hs hl _
    exact visits_copyLabel hs (hlabel ▸ hl)

/-- The row that a new sibling begins with. -/
theorem storeSibling_eq_some {W : KeyWrapping} {keys : PrivateKeys} {session : ConvertSession} {fresh : Fresh}
    {db db' : IdentityStore} (h : storeSibling W v3 keys v4Address session fresh db = some db')
    (ha : v4Address.length < addressStrMax) :
    ∃ kek params signing encryption,
      (newIdentityRow (siblingOf v3 keys v4Address) v3.kdfAlgo fresh.salt params signing encryption fresh.now).address =
        v4Address ∧
      WrappedUnder W kek v4Address keys
        (newIdentityRow (siblingOf v3 keys v4Address) v3.kdfAlgo fresh.salt params signing encryption fresh.now) ∧
      identityStoreInsert db
        (newIdentityRow (siblingOf v3 keys v4Address) v3.kdfAlgo fresh.salt params signing encryption fresh.now) =
          some db' ∧
      match v3.kdfAlgo with
      | .scrypt => params = some scryptDefaults ∧ W.deriveKek session.passphrase fresh.salt scryptDefaults = some kek
      | .vaultHkdf => ∃ masterKek, session.masterKek = some (some masterKek) ∧
          W.hkdfExpandWrapKey masterKek fresh.salt v4Address = some kek := by
  unfold storeSibling at h
  rcases halgo : v3.kdfAlgo with _ | _
  · rw [halgo] at h
    obtain ⟨kek, signing, encryption, hkek, hwrapped, hi⟩ := keyringCreateIdentity_eq_some h
    exact ⟨kek, _, signing, encryption, toAddressBuffer_of_length ha, hwrapped, hi, rfl, hkek⟩
  · rw [halgo] at h
    obtain ⟨masterKek, hm, h⟩ := Option.bind_eq_some_iff.mp h
    obtain ⟨kek, signing, encryption, hkek, hwrapped, hi⟩ := keyringImportIdentityWithMasterKek_eq_some h
    refine ⟨kek, _, signing, encryption, toAddressBuffer_of_length ha, hwrapped, hi, masterKek, ?_, hkek⟩
    rcases hs : session.masterKek with _ | k
    · rw [hs] at hm
      cases hm
    · rw [hs] at hm
      exact congrArg some hm

/-- A new sibling has the label of the version 3 row and lacks the flag at most. -/
theorem storeSibling_row {W : KeyWrapping} {keys : PrivateKeys} {session : ConvertSession} {fresh : Fresh}
    {db db' : IdentityStore} (h : storeSibling W v3 keys v4Address session fresh db = some db')
    (ha : v4Address.length < addressStrMax) (hrow : identityStoreLoad db' v4Address = some v4) :
    identityStoreLoad db v4Address = none ∧ (∀ a ≠ v4Address, identityStoreLoad db' a = identityStoreLoad db a) ∧
      db'.vault = db.vault ∧ SameKeys v3 v4 ∧ ¬ LacksLabel v3 v4 ∧ v4.isChan = false ∧
      v4.label = v3.label.take (identityLabelMax - 1) ∧ v4.addressVersion = 4 ∧ v4.stream = v3.stream ∧
      v4.nonceTrialsPerByte = v3.nonceTrialsPerByte ∧ v4.payloadLengthExtraBytes = v3.payloadLengthExtraBytes := by
  obtain ⟨kek, params, signing, encryption, haddress, -, hi, -⟩ := storeSibling_eq_some h ha
  obtain ⟨hnone, hself, hother, hvault⟩ := identityStoreInsert_eq_some hi
  rw [haddress] at hnone hself hother
  rw [hself] at hrow
  cases hrow
  refine ⟨hnone, hother, hvault, ⟨rfl, rfl⟩, ?_, rfl, rfl, rfl, rfl, rfl, rfl⟩
  rintro ⟨hempty, hlabel⟩
  obtain hl | hl := List.take_eq_nil_iff.mp hempty
  · exact absurd hl (by decide)
  · exact hlabel hl

/-- A sibling that is made is completed at once. -/
theorem createSibling_eq {W : KeyWrapping} (s : ConvertState) {keys : PrivateKeys} {session : ConvertSession}
    {fresh : Fresh} {db : IdentityStore} (hi : works .insertV4 = true) (hr : works .reloadV4 = true)
    (hs : storeSibling W v3 keys v4Address session fresh s.store.identities = some db)
    (ha : v4Address.length < addressStrMax) (hrow : identityStoreLoad db v4Address = some v4) :
    ∃ s' v4', createSibling W works v3 keys v4Address session fresh s = (s', some v4') ∧
      s'.store = s.store.withIdentities (completedTable works v3 v4 v4Address db) ∧
      ∀ P, s.Visits P → P (s.store.withIdentities db) →
        P (s.store.withIdentities (completedTable works v3 v4 v4Address db)) → s'.Visits P := by
  obtain ⟨-, -, -, -, hlabel, hflag, -⟩ := storeSibling_row hs ha hrow
  have hstored : s.write works .insertV4 (fun store =>
      (storeSibling W v3 keys v4Address session fresh store.identities).map fun identities =>
        { store with identities := identities }) = (s.put (s.store.withIdentities db), true) := by
    rw [write_eq, if_pos hi, hs]
    rfl
  have hload : (s.put (s.store.withIdentities db)).load works .reloadV4 v4Address = some v4 := by
    rw [load, if_pos hr]
    exact hrow
  have hlabelled : labelledTable works v3 v4 v4Address db = db := if_neg fun hl => hlabel hl.1
  unfold createSibling completedTable
  rw [hstored]
  simp only [if_true, hload, hlabelled]
  by_cases hchan : v3.isChan = true
  · have hlacks : LacksChan v3 v4 := ⟨hchan, hflag⟩
    have hstore : (setIsChan works v4Address (s.put (s.store.withIdentities db))).store = s.store.withIdentities
        (if LacksChan v3 v4 ∧ works .setIsChan then identityStoreSetIsChan db v4Address else db) := by
      rw [store_setIsChan]
      simp only [hlacks, true_and]
      rfl
    rw [if_pos hchan]
    refine ⟨_, _, rfl, hstore, ?_⟩
    intro P hs hb hc
    exact visits_setIsChan (hs.put hb) (hstore ▸ hc)
  · rw [if_neg hchan, if_neg fun hc => hchan hc.1.1]
    refine ⟨_, _, rfl, rfl, ?_⟩
    intro P hs hb _
    exact hs.put hb

section

variable {W : KeyWrapping} {keys : PrivateKeys} {session : ConvertSession} {fresh : Fresh} {db : IdentityStore}

theorem siblingRow_eq (s : ConvertState) (ha : v4Address.length < addressStrMax)
    (h : SiblingBase W works v3 keys v4Address session fresh s.store.identities v4 db) :
    ∃ s' v4', siblingRow W works v3 keys v4Address session fresh s = (s', some v4') ∧
      s'.store = s.store.withIdentities (completedTable works v3 v4 v4Address db) ∧
      ∀ P, s.Visits P → P (s.store.withIdentities db) → P (s.store.withIdentities (labelledTable works v3 v4 v4Address db)) →
        P (s.store.withIdentities (completedTable works v3 v4 v4Address db)) → s'.Visits P := by
  unfold siblingRow
  cases h with
  | found hw hrow hkeys =>
    have hload : s.load works .loadV4 v4Address = some v4 := by
      rw [load, if_pos hw]
      exact hrow
    rw [hload]
    obtain ⟨s', v4', hs', hstore, hvisits⟩ := completeSibling_eq works v4Address s hkeys
    exact ⟨s', v4', hs', hstore, fun P hs _ => hvisits P hs⟩
  | made hi hr hnone hs hrow =>
    have hload : s.load works .loadV4 v4Address = none := by
      rw [load, hnone, ite_self]
    rw [hload]
    obtain ⟨s', v4', hs', hstore, hvisits⟩ := createSibling_eq s hi hr hs ha hrow
    exact ⟨s', v4', hs', hstore, fun P hs hb _ => hvisits P hs hb⟩

/-- A row that was inserted stays when it is not read back. -/
theorem createSibling_fails (s : ConvertState) (ha : v4Address.length < addressStrMax)
    (h : ¬ ∃ v4 db, SiblingBase W works v3 keys v4Address session fresh s.store.identities v4 db) :
    ∃ s', createSibling W works v3 keys v4Address session fresh s = (s', none) ∧
      ∀ a ≠ v4Address, identityStoreLoad s'.store.identities a = identityStoreLoad s.store.identities a := by
  unfold createSibling
  rcases hwrite : s.write works .insertV4 fun store =>
      (storeSibling W v3 keys v4Address session fresh store.identities).map fun identities =>
        { store with identities := identities } with ⟨s₁, _ | _⟩
  · rw [write_eq_false hwrite]
    exact ⟨s, rfl, fun _ _ => rfl⟩
  · obtain ⟨hi, store, hstore, rfl⟩ := write_eq_true hwrite
    obtain ⟨db, hs, rfl⟩ := Option.map_eq_some_iff.mp hstore
    obtain ⟨_, _, _, _, haddress, -, hinsert, -⟩ := storeSibling_eq_some hs ha
    have hother := (identityStoreInsert_eq_some hinsert).2.2.1
    rw [haddress] at hother
    rcases hrow : (s.put { s.store with identities := db }).load works .reloadV4 v4Address with _ | v4
    · simp only [if_true, hrow]
      exact ⟨_, rfl, hother⟩
    · unfold load at hrow
      split_ifs at hrow with hr
      exact absurd ⟨v4, db, .made hi hr (storeSibling_row hs ha hrow).1 hs hrow⟩ h

/-- Without a row to begin with there is no sibling. -/
theorem siblingRow_fails (s : ConvertState) (ha : v4Address.length < addressStrMax)
    (h : ¬ ∃ v4 db, SiblingBase W works v3 keys v4Address session fresh s.store.identities v4 db) :
    ∃ s', siblingRow W works v3 keys v4Address session fresh s = (s', none) ∧
      ∀ a ≠ v4Address, identityStoreLoad s'.store.identities a = identityStoreLoad s.store.identities a := by
  unfold siblingRow
  rcases hload : s.load works .loadV4 v4Address with _ | v4
  · exact createSibling_fails s ha h
  · unfold load at hload
    split_ifs at hload with hw
    refine ⟨s, ?_, fun _ _ => rfl⟩
    exact if_neg fun hkeys => h ⟨v4, _, .found hw hload hkeys⟩

end

end ConvertState

/-! ### The whole conversion -/

/-- The address that the sibling of a version 3 row has. -/
def v4SiblingAddress (H : Hashes) (v3 : IdentityRow) : Option Bytes :=
  (addressEncode H 4 v3.stream (addressCalcRipe H v3.signingPubkey v3.encryptionPubkey)).map toAddressBuffer

theorem length_v4SiblingAddress {H : Hashes} {v3 : IdentityRow} {v4Address : Bytes}
    (h : v4SiblingAddress H v3 = some v4Address) : v4Address.length < addressStrMax := by
  obtain ⟨encoded, -, rfl⟩ := Option.map_eq_some_iff.mp h
  exact lt_of_le_of_lt (List.length_take_le _ _) (by decide)

/-- The messages to and from one address become those of another. -/
def ConvertStore.renamed (oldAddress newAddress : Bytes) (store : ConvertStore) : ConvertStore :=
  { store with
    inbox := messagesStoreRenameInbox store.inbox oldAddress newAddress
    sent := messagesStoreRenameOwnAddress store.sent oldAddress newAddress }

/-- The identity is in neither table. -/
def ConvertStore.deleted (address : Bytes) (store : ConvertStore) : ConvertStore :=
  { store with
    identities := identityStoreDelete store.identities address
    pqIdentities := store.pqIdentities.delete address }

/-- The version 3 row is read and gives its keys. -/
structure OpensV3 (H : Hashes) (W : KeyWrapping) (works : ConvertStep → Bool) (s : ConvertState) (v3Address : Bytes)
    (session : ConvertSession) (v3 : IdentityRow) (keys : PrivateKeys) (v4Address : Bytes) : Prop where
  row : s.load works .loadV3 v3Address = some v3
  version : v3.addressVersion = 3
  keys : ((convertKek W (s.readVault works) v3 session).2.bind fun kek => unwrapKeys W kek v3.address v3) = some keys
  address : v4SiblingAddress H v3 = some v4Address

/-- The statements behind the preparation of the sibling work. -/
structure FinishSteps (works : ConvertStep → Bool) : Prop where
  renameInbox : works .renameInbox = true
  renameSent : works .renameSent = true
  deletePq : works .deletePq = true
  deleteV3 : works .deleteV3 = true

/-- The databases between two writes of a conversion whose sibling begins as `v4` in `db`. -/
inductive Between (works : ConvertStep → Bool) (v3 v4 : IdentityRow) (v3Address v4Address : Bytes) (db : IdentityStore)
    (store : ConvertStore) : ConvertStore → Prop
  | stored : Between works v3 v4 v3Address v4Address db store (store.withIdentities db)
  | labelled : Between works v3 v4 v3Address v4Address db store
      (store.withIdentities (labelledTable works v3 v4 v4Address db))
  | completed : Between works v3 v4 v3Address v4Address db store
      (store.withIdentities (completedTable works v3 v4 v4Address db))
  | inbox : Between works v3 v4 v3Address v4Address db store
      { store with
        identities := completedTable works v3 v4 v4Address db
        inbox := messagesStoreRenameInbox store.inbox v3Address v4Address }
  | renamed : Between works v3 v4 v3Address v4Address db store
      ((store.withIdentities (completedTable works v3 v4 v4Address db)).renamed v3Address v4Address)
  | pqDeleted : Between works v3 v4 v3Address v4Address db store
      { (store.withIdentities (completedTable works v3 v4 v4Address db)).renamed v3Address v4Address with
        pqIdentities := store.pqIdentities.delete v3Address }

/-- What a conversion leaves that goes through. -/
def convertedStore (works : ConvertStep → Bool) (v3 v4 : IdentityRow) (v3Address v4Address : Bytes)
    (db : IdentityStore) (store : ConvertStore) : ConvertStore :=
  ((store.withIdentities (completedTable works v3 v4 v4Address db)).renamed v3Address v4Address).deleted v3Address

theorem SiblingBase.load_of_ne {W : KeyWrapping} {works : ConvertStep → Bool} {v3 v4 : IdentityRow} {keys : PrivateKeys}
    {v4Address a : Bytes} {session : ConvertSession} {fresh : Fresh} {db db' : IdentityStore}
    (h : SiblingBase W works v3 keys v4Address session fresh db v4 db') (hlen : v4Address.length < addressStrMax)
    (ha : a ≠ v4Address) : identityStoreLoad db' a = identityStoreLoad db a ∧ db'.vault = db.vault := by
  cases h with
  | found => exact ⟨rfl, rfl⟩
  | made hi hr hnone hs hrow =>
    obtain ⟨-, hother, hvault, -⟩ := ConvertState.storeSibling_row hs hlen hrow
    exact ⟨hother a ha, hvault⟩

/-- The row that a sibling begins with. -/
theorem SiblingBase.row {W : KeyWrapping} {works : ConvertStep → Bool} {v3 v4 : IdentityRow} {keys : PrivateKeys}
    {v4Address : Bytes} {session : ConvertSession} {fresh : Fresh} {db db' : IdentityStore}
    (h : SiblingBase W works v3 keys v4Address session fresh db v4 db') (hlen : v4Address.length < addressStrMax) :
    identityStoreLoad db' v4Address = some v4 ∧ SameKeys v3 v4 := by
  cases h with
  | found hw hrow hkeys => exact ⟨hrow, hkeys⟩
  | made hi hr hnone hs hrow =>
    obtain ⟨-, -, -, hkeys, -⟩ := ConvertState.storeSibling_row hs hlen hrow
    exact ⟨hrow, hkeys⟩

namespace ConvertState

variable {H : Hashes} {W : KeyWrapping} {works : ConvertStep → Bool} {s s' : ConvertState}
  {v3Address v4Address : Bytes} {session : ConvertSession} {fresh : Fresh} {v3 v4 : IdentityRow} {keys : PrivateKeys}
  {db : IdentityStore}

theorem store_unlockSibling (H : Hashes) (v3 v4 : IdentityRow) (keys : PrivateKeys) (v4Address : Bytes) (now : ℤ)
    (s : ConvertState) : (s.unlockSibling H v3 v4 keys v4Address now).store = s.store ∧
      (s.unlockSibling H v3 v4 keys v4Address now).stops = s.stops := by
  unfold unlockSibling
  split_ifs
  · exact ⟨rfl, rfl⟩
  · exact ⟨rfl, rfl⟩

/-- The preparation of a sibling that has a row to begin with. -/
theorem ensureV4Sibling_eq (fresh : Fresh) (hopens : OpensV3 H W works s v3Address session v3 keys v4Address)
    (hbase : SiblingBase W works v3 keys v4Address (convertKek W (s.readVault works) v3 session).1 fresh
      s.store.identities v4 db) :
    ∃ s', ensureV4Sibling H W works v3Address session fresh s = (s', (convertKek W (s.readVault works) v3 session).1,
        .ok (v4Address, (s.load works .loadV4 v4Address).isNone)) ∧
      s'.store = s.store.withIdentities (completedTable works v3 v4 v4Address db) ∧
      ∀ P, s.Visits P → P (s.store.withIdentities db) → P (s.store.withIdentities (labelledTable works v3 v4 v4Address db)) →
        P (s.store.withIdentities (completedTable works v3 v4 v4Address db)) → s'.Visits P := by
  obtain ⟨hrow, hversion, hkeys, haddress⟩ := hopens
  obtain ⟨s₁, v4', hs₁, hstore, hvisits⟩ := siblingRow_eq s (length_v4SiblingAddress haddress) hbase
  obtain ⟨encoded, hencoded, rfl⟩ := Option.map_eq_some_iff.mp haddress
  obtain ⟨hu, hstops⟩ := store_unlockSibling H v3 v4' keys (toAddressBuffer encoded) fresh.now s₁
  refine ⟨s₁.unlockSibling H v3 v4' keys (toAddressBuffer encoded) fresh.now, ?_, hu.trans hstore, ?_⟩
  · unfold ensureV4Sibling
    rw [hrow]
    simp only [hversion, ne_eq, not_true_eq_false, if_false, hkeys, hencoded, hs₁]
  · intro P hs hb hl hc t ht
    exact hvisits P hs hb hl hc t (hstops ▸ ht)

/-- Otherwise it fails, and the version 3 row is what it was. -/
theorem ensureV4Sibling_fails (fresh : Fresh)
    (hne : ∀ v3 v4Address, identityStoreLoad s.store.identities v3Address = some v3 →
      v4SiblingAddress H v3 = some v4Address → v3Address ≠ v4Address)
    (h : ¬ ∃ v3 keys v4Address v4 db, OpensV3 H W works s v3Address session v3 keys v4Address ∧
      SiblingBase W works v3 keys v4Address (convertKek W (s.readVault works) v3 session).1 fresh
        s.store.identities v4 db) :
    ∃ s' session' e, ensureV4Sibling H W works v3Address session fresh s = (s', session', .error e) ∧
      identityStoreLoad s'.store.identities v3Address = identityStoreLoad s.store.identities v3Address := by
  unfold ensureV4Sibling
  rcases hrow : s.load works .loadV3 v3Address with _ | v3
  · exact ⟨s, _, _, rfl, rfl⟩
  simp only
  split_ifs with hversion
  · exact ⟨s, _, _, rfl, rfl⟩
  rcases hkeys : (convertKek W (s.readVault works) v3 session).2.bind fun kek => unwrapKeys W kek v3.address v3 with
    _ | keys
  · exact ⟨s, _, _, rfl, rfl⟩
  rcases hencoded : addressEncode H 4 v3.stream (addressCalcRipe H v3.signingPubkey v3.encryptionPubkey) with _ | encoded
  · exact ⟨s, _, _, rfl, rfl⟩
  have haddress : v4SiblingAddress H v3 = some (toAddressBuffer encoded) := by
    rw [v4SiblingAddress, hencoded, Option.map_some]
  have hload : identityStoreLoad s.store.identities v3Address = some v3 := by
    unfold load at hrow
    split_ifs at hrow
    exact hrow
  have hbase : ¬ ∃ v4 db, SiblingBase W works v3 keys (toAddressBuffer encoded)
      (convertKek W (s.readVault works) v3 session).1 fresh s.store.identities v4 db :=
    fun ⟨v4, db, hbase⟩ => h ⟨v3, keys, _, v4, db, ⟨hrow, not_not.mp hversion, hkeys, haddress⟩, hbase⟩
  obtain ⟨s', hs', hother⟩ := siblingRow_fails s (length_v4SiblingAddress haddress) hbase
  simp only [hs']
  exact ⟨s', _, _, rfl, hother _ (hne v3 _ hload haddress)⟩

/-- A sibling that was prepared had a row to begin with. -/
theorem ensureV4Sibling_ok {session' : ConvertSession} {created : Bool}
    (hne : ∀ v3 v4Address, identityStoreLoad s.store.identities v3Address = some v3 →
      v4SiblingAddress H v3 = some v4Address → v3Address ≠ v4Address)
    (h : ensureV4Sibling H W works v3Address session fresh s = (s', session', .ok (v4Address, created))) :
    ∃ v3 keys v4 db, OpensV3 H W works s v3Address session v3 keys v4Address ∧
      SiblingBase W works v3 keys v4Address (convertKek W (s.readVault works) v3 session).1 fresh
        s.store.identities v4 db ∧
      s'.store = s.store.withIdentities (completedTable works v3 v4 v4Address db) := by
  by_cases hprepares : ∃ v3 keys v4Address v4 db, OpensV3 H W works s v3Address session v3 keys v4Address ∧
      SiblingBase W works v3 keys v4Address (convertKek W (s.readVault works) v3 session).1 fresh
        s.store.identities v4 db
  · obtain ⟨v3, keys, address, v4, db, hopens, hbase⟩ := hprepares
    obtain ⟨s₁, hs₁, hstore, -⟩ := ensureV4Sibling_eq fresh hopens hbase
    rw [h] at hs₁
    cases hs₁
    exact ⟨v3, keys, v4, db, hopens, hbase, hstore⟩
  · obtain ⟨s₁, session₁, e, hs₁, -⟩ := ensureV4Sibling_fails fresh hne hprepares
    rw [h] at hs₁
    cases hs₁

theorem renameOwnAddress_eq (h : FinishSteps works) (oldAddress newAddress : Bytes) (s : ConvertState) :
    ∃ s', renameOwnAddress works oldAddress newAddress s = (s', true) ∧
      s'.store = s.store.renamed oldAddress newAddress ∧
      ∀ P, s.Visits P →
        P { s.store with inbox := messagesStoreRenameInbox s.store.inbox oldAddress newAddress } →
        P (s.store.renamed oldAddress newAddress) → s'.Visits P := by
  unfold renameOwnAddress
  rw [write_some, if_pos h.renameInbox]
  simp only
  rw [write_some, if_pos h.renameSent]
  exact ⟨_, rfl, rfl, fun P hs hi hr => (hs.put hi).put hr⟩

theorem renameOwnAddress_identities (works : ConvertStep → Bool) (oldAddress newAddress : Bytes) (s : ConvertState) :
    (renameOwnAddress works oldAddress newAddress s).1.store.identities = s.store.identities := by
  unfold renameOwnAddress
  rw [write_some]
  by_cases hi : works .renameInbox
  · rw [if_pos hi]
    simp only
    rw [store_write]
    split_ifs
    · rfl
    · rfl
  · rw [if_neg hi]

theorem renameOwnAddress_true {oldAddress newAddress : Bytes}
    (h : renameOwnAddress works oldAddress newAddress s = (s', true)) :
    works .renameInbox = true ∧ works .renameSent = true := by
  unfold renameOwnAddress at h
  rw [write_some] at h
  by_cases hi : works .renameInbox
  · rw [if_pos hi] at h
    exact ⟨hi, (write_eq_true h).1⟩
  · rw [if_neg hi] at h
    cases h

/-- The last write deletes the row. -/
theorem deleteIdentity_eq (h : FinishSteps works) (address : Bytes) (s : ConvertState) :
    ∃ s' : ConvertState, deleteIdentity works address s = (s'.put (s.store.deleted address), true) ∧
      ∀ P, s.Visits P → P { s.store with pqIdentities := s.store.pqIdentities.delete address } → s'.Visits P := by
  unfold deleteIdentity
  simp only
  rw [write_some, if_pos h.deletePq]
  simp only
  rw [write_some, if_pos h.deleteV3]
  refine ⟨_, rfl, fun P hs hp => Visits.put ?_ hp⟩
  exact hs

theorem deleteIdentity_fails (address : Bytes) (s : ConvertState)
    (h : ¬ (works .deletePq = true ∧ works .deleteV3 = true)) :
    ∃ s', deleteIdentity works address s = (s', false) ∧ s'.store.identities = s.store.identities := by
  unfold deleteIdentity
  simp only
  rw [write_some]
  by_cases hp : works .deletePq
  · have hd : ¬ works .deleteV3 = true := fun hd => h ⟨hp, hd⟩
    rw [if_pos hp]
    simp only
    rw [write_some, if_neg hd]
    exact ⟨_, rfl, rfl⟩
  · rw [if_neg hp]
    exact ⟨_, rfl, rfl⟩

/-- A conversion with a sibling to begin with and no failing statement behind it. -/
theorem convertOneV3ToV4_eq (fresh : Fresh) (hopens : OpensV3 H W works s v3Address session v3 keys v4Address)
    (hbase : SiblingBase W works v3 keys v4Address (convertKek W (s.readVault works) v3 session).1 fresh
      s.store.identities v4 db) (hf : FinishSteps works) :
    ∃ s₁ : ConvertState, convertOneV3ToV4 H W works v3Address session fresh s =
        (s₁.put (convertedStore works v3 v4 v3Address v4Address db s.store),
          (convertKek W (s.readVault works) v3 session).1,
          ⟨some (v4Address, (s.load works .loadV4 v4Address).isNone), none⟩) ∧
      ∀ t ∈ s₁.stops, t ∈ s.stops ∨ Between works v3 v4 v3Address v4Address db s.store t := by
  obtain ⟨s₁, hs₁, hstore₁, hvisits₁⟩ := ensureV4Sibling_eq fresh hopens hbase
  obtain ⟨s₂, hs₂, hstore₂, hvisits₂⟩ := renameOwnAddress_eq hf v3Address v4Address s₁
  obtain ⟨s₃, hs₃, hvisits₃⟩ := deleteIdentity_eq hf v3Address s₂
  rw [hstore₁] at hstore₂ hvisits₂
  rw [hstore₂] at hs₃ hvisits₃
  refine ⟨s₃, ?_, ?_⟩
  · unfold convertOneV3ToV4
    rw [hs₁]
    simp only [hs₂, hs₃]
    rfl
  · refine hvisits₃ _ (hvisits₂ _ (hvisits₁ _ ?_ ?_ ?_ ?_) ?_ ?_) ?_
    · exact fun t ht => .inl ht
    · exact .inr .stored
    · exact .inr .labelled
    · exact .inr .completed
    · exact .inr .inbox
    · exact .inr .renamed
    · exact .inr .pqDeleted

/-- Every other conversion reports an error and leaves the version 3 row. -/
theorem convertOneV3ToV4_fails (fresh : Fresh)
    (hne : ∀ v3 v4Address, identityStoreLoad s.store.identities v3Address = some v3 →
      v4SiblingAddress H v3 = some v4Address → v3Address ≠ v4Address)
    (h : ¬ ∃ v3 keys v4Address v4 db, OpensV3 H W works s v3Address session v3 keys v4Address ∧
      SiblingBase W works v3 keys v4Address (convertKek W (s.readVault works) v3 session).1 fresh
        s.store.identities v4 db ∧ FinishSteps works) :
    (convertOneV3ToV4 H W works v3Address session fresh s).2.2.error ≠ none ∧
      identityStoreLoad (convertOneV3ToV4 H W works v3Address session fresh s).1.store.identities v3Address =
        identityStoreLoad s.store.identities v3Address := by
  unfold convertOneV3ToV4
  by_cases hprepares : ∃ v3 keys v4Address v4 db, OpensV3 H W works s v3Address session v3 keys v4Address ∧
      SiblingBase W works v3 keys v4Address (convertKek W (s.readVault works) v3 session).1 fresh
        s.store.identities v4 db
  · obtain ⟨v3, keys, v4Address, v4, db, hopens, hbase⟩ := hprepares
    obtain ⟨s₁, hs₁, hstore₁, -⟩ := ensureV4Sibling_eq fresh hopens hbase
    have hload : identityStoreLoad s.store.identities v3Address = some v3 := by
      have hrow := hopens.row
      unfold load at hrow
      split_ifs at hrow
      exact hrow
    have hrow₁ : identityStoreLoad s₁.store.identities v3Address = identityStoreLoad s.store.identities v3Address := by
      have hv := hne v3 v4Address hload hopens.address
      have hlen := length_v4SiblingAddress hopens.address
      rw [hstore₁]
      exact (load_completedTable_of_ne works hv).trans (hbase.load_of_ne hlen hv).1
    have hrename := renameOwnAddress_identities works v3Address v4Address s₁
    rw [hs₁]
    rcases hs₂ : renameOwnAddress works v3Address v4Address s₁ with ⟨s₂, _ | _⟩
    · rw [hs₂] at hrename
      simp only [hs₂]
      exact ⟨by simp, hrename ▸ hrow₁⟩
    · rw [hs₂] at hrename
      obtain ⟨hi, hr⟩ := renameOwnAddress_true hs₂
      have hd : ¬ (works .deletePq = true ∧ works .deleteV3 = true) :=
        fun ⟨hp, hd⟩ => h ⟨v3, keys, v4Address, v4, db, hopens, hbase, hi, hr, hp, hd⟩
      obtain ⟨s₃, hs₃, hdelete⟩ := deleteIdentity_fails v3Address s₂ hd
      simp only [hs₂, hs₃]
      exact ⟨by simp, by rw [hdelete, hrename, hrow₁]⟩
  · obtain ⟨s', session', e, hs', hrow⟩ := ensureV4Sibling_fails fresh hne hprepares
    rw [hs']
    exact ⟨by simp, hrow⟩

end ConvertState

/-! ### Without failures -/

namespace ConvertState

variable {H : Hashes} {W : KeyWrapping} {s : ConvertState} {v3 v4 : IdentityRow} {v4Address : Bytes}

/-- The state holds what the keyring and its database hold, and nothing else changed. -/
structure Agrees (s s' : ConvertState) (kr : Keyring) : Prop where
  entries : s'.entries = kr.entries
  store : s'.store = s.store.withIdentities kr.db

theorem completeSibling_allWork (v3 v4 : IdentityRow) (v4Address : Bytes) (s : ConvertState) :
    match Bitmessage.completeSibling s.keyring v3 v4 v4Address with
    | none => completeSibling allWork v3 v4 v4Address s = (s, none)
    | some (kr, row) => ∃ s', completeSibling allWork v3 v4 v4Address s = (s', some row) ∧ s.Agrees s' kr := by
  have hlabel := store_copyLabel allWork v3 v4 v4Address s
  have hentries : (copyLabel allWork v3 v4 v4Address s).entries = s.entries := by
    unfold copyLabel
    rw [write_allWork]
    split_ifs
    · rfl
    · rfl
  have hlabelled : labelledTable allWork v3 v4 v4Address s.store.identities =
      if v4.label = [] ∧ v3.label ≠ [] then identityStoreUpdateLabel s.store.identities v4Address v3.label
      else s.store.identities := by
    unfold labelledTable LacksLabel allWork
    simp only [and_true]
  rw [hlabelled] at hlabel
  unfold Bitmessage.completeSibling completeSibling
  by_cases hkeys : SameKeys v3 v4
  · have hsame : ¬ (v4.signingPubkey ≠ v3.signingPubkey ∨ v4.encryptionPubkey ≠ v3.encryptionPubkey) := by
      rintro (hs | he)
      · exact hs hkeys.1
      · exact he hkeys.2
    rw [if_pos hkeys, if_neg hsame]
    by_cases hchan : LacksChan v3 v4
    · have hflag : v3.isChan = true ∧ ¬ v4.isChan = true := ⟨hchan.1, by simp [hchan.2]⟩
      simp only [if_pos hchan, if_pos hflag]
      refine ⟨_, rfl, ?_, ?_⟩
      · exact congrArg (markUnlockedEntryAsChan v4Address) hentries
      · simp only [setIsChan, write_allWork, put]
        rw [hlabel]
        rfl
    · have hflag : ¬ (v3.isChan = true ∧ ¬ v4.isChan = true) := fun h => hchan ⟨h.1, by simpa using h.2⟩
      simp only [if_neg hchan, if_neg hflag]
      exact ⟨_, rfl, hentries, hlabel⟩
  · have hdiffer : v4.signingPubkey ≠ v3.signingPubkey ∨ v4.encryptionPubkey ≠ v3.encryptionPubkey := by
      by_contra h
      rw [not_or, not_not, not_not] at h
      exact hkeys h
    rw [if_neg hkeys, if_pos hdiffer]

theorem createSibling_allWork (keys : PrivateKeys) (session : ConvertSession) (fresh : Fresh) (v3 : IdentityRow)
    (s : ConvertState) (ha : v4Address.length < addressStrMax) :
    match Bitmessage.createSibling W s.keyring v3 keys v4Address session fresh with
    | none => createSibling W allWork v3 keys v4Address session fresh s = (s, none)
    | some (kr, row) => ∃ s', createSibling W allWork v3 keys v4Address session fresh s = (s', some row) ∧
        s.Agrees s' kr := by
  have hcreate : Bitmessage.createSibling W s.keyring v3 keys v4Address session fresh =
      (storeSibling W v3 keys v4Address session fresh s.store.identities).bind fun db =>
        (identityStoreLoad db v4Address).map fun v4 =>
          if v3.isChan then (⟨s.entries, identityStoreSetIsChan db v4Address⟩, { v4 with isChan := true })
          else (⟨s.entries, db⟩, v4) := rfl
  rw [hcreate]
  unfold createSibling
  rw [write_eq, if_pos (show allWork .insertV4 = true from rfl)]
  rcases hs : storeSibling W v3 keys v4Address session fresh s.store.identities with _ | db
  · rfl
  · obtain ⟨_, _, _, _, haddress, -, hinsert, -⟩ := storeSibling_eq_some hs ha
    have hrow := (identityStoreInsert_eq_some hinsert).2.1
    rw [haddress] at hrow
    simp only [Option.bind_some, hrow, Option.map_some, Option.elim_some, load, allWork, if_true, put]
    by_cases hchan : v3.isChan = true
    · simp only [if_pos hchan]
      exact ⟨_, rfl, rfl, rfl⟩
    · simp only [if_neg hchan]
      exact ⟨_, rfl, rfl, rfl⟩

theorem siblingRow_allWork (keys : PrivateKeys) (session : ConvertSession) (fresh : Fresh) (v3 : IdentityRow)
    (s : ConvertState) (ha : v4Address.length < addressStrMax) :
    match Bitmessage.siblingRow W s.keyring v3 keys v4Address session fresh with
    | none => siblingRow W allWork v3 keys v4Address session fresh s = (s, none)
    | some (kr, row) => ∃ s', siblingRow W allWork v3 keys v4Address session fresh s = (s', some row) ∧
        s.Agrees s' kr := by
  have hload : s.load allWork .loadV4 v4Address = identityStoreLoad s.keyring.db v4Address := rfl
  unfold Bitmessage.siblingRow siblingRow
  rw [hload]
  rcases identityStoreLoad s.keyring.db v4Address with _ | v4
  · exact createSibling_allWork keys session fresh v3 s ha
  · exact completeSibling_allWork v3 v4 v4Address s

/-- The sibling is prepared as the keyring prepares it. -/
theorem ensureV4Sibling_allWork (v3Address : Bytes) (session : ConvertSession) (fresh : Fresh) (s : ConvertState) :
    ∃ s', ensureV4Sibling H W allWork v3Address session fresh s =
        (s', (keyringEnsureV4Sibling H W s.keyring v3Address session fresh).2) ∧
      s.Agrees s' (keyringEnsureV4Sibling H W s.keyring v3Address session fresh).1 := by
  have hload (step : ConvertStep) (address : Bytes) :
      s.load allWork step address = identityStoreLoad s.keyring.db address := rfl
  have hvault : s.readVault allWork = s.keyring.db := rfl
  unfold ensureV4Sibling keyringEnsureV4Sibling
  simp only [hload, hvault]
  rcases identityStoreLoad s.keyring.db v3Address with _ | v3
  · exact ⟨s, rfl, rfl, rfl⟩
  simp only
  split_ifs
  · exact ⟨s, rfl, rfl, rfl⟩
  rcases (convertKek W s.keyring.db v3 session).2.bind fun kek => unwrapKeys W kek v3.address v3 with _ | keys
  · exact ⟨s, rfl, rfl, rfl⟩
  simp only
  rcases addressEncode H 4 v3.stream (addressCalcRipe H v3.signingPubkey v3.encryptionPubkey) with _ | encoded
  · exact ⟨s, rfl, rfl, rfl⟩
  have ha : (toAddressBuffer encoded).length < addressStrMax :=
    lt_of_le_of_lt (List.length_take_le _ _) (by decide)
  have hrow := siblingRow_allWork (W := W) keys (convertKek W s.keyring.db v3 session).1 fresh v3 s ha
  simp only
  rcases hs : Bitmessage.siblingRow W s.keyring v3 keys (toAddressBuffer encoded)
      (convertKek W s.keyring.db v3 session).1 fresh with _ | ⟨kr, v4⟩
  · rw [hs] at hrow
    simp only at hrow
    rw [hrow]
    exact ⟨s, rfl, rfl, rfl⟩
  · rw [hs] at hrow
    obtain ⟨s', hs', he, hd⟩ := hrow
    obtain rfl : s'.keyring = kr := by
      rw [keyring, he, hd]
      rfl
    rw [hs']
    simp only [unlockSibling]
    split_ifs
    · exact ⟨_, rfl, rfl, hd⟩
    · exact ⟨_, rfl, rfl, hd⟩

end ConvertState

/-! ### What a conversion starts from -/

/-- An identity of version 3: its row says so and so does its address. -/
structure IsV3 (H : Hashes) (v3 : IdentityRow) : Prop where
  version : v3.addressVersion = 3
  stream : v3.stream < wordSize
  address : ∃ stream ripe, addressDecode H v3.address = some (3, stream, ripe)

/-- It has a sibling address, which is another one. -/
theorem IsV3.sibling {H : Hashes} {v3 : IdentityRow} (h : IsV3 H v3) :
    ∃ v4Address, v4SiblingAddress H v3 = some v4Address ∧ v4Address ≠ v3.address := by
  have hripe := length_addressCalcRipe H v3.signingPubkey v3.encryptionPubkey
  obtain ⟨encoded, hencoded, hlen, hdecode⟩ :=
    @addressDecode_addressEncode H 4 v3.stream _ (by norm_num) (by decide) h.stream hripe
  have hbuffer : toAddressBuffer encoded = encoded := toAddressBuffer_of_length (by unfold addressStrMax; omega)
  refine ⟨encoded, ?_, ?_⟩
  · rw [v4SiblingAddress, hencoded, Option.map_some, hbuffer]
  · rintro rfl
    obtain ⟨stream, ripe, haddress⟩ := h.address
    rw [haddress] at hdecode
    split_ifs at hdecode
    cases hdecode

/-- A session holds no master key but the one of the vault. -/
def ConvertSession.Sound (W : KeyWrapping) (db : IdentityStore) (session : ConvertSession) : Prop :=
  ∀ masterKek, session.masterKek = some (some masterKek) → vaultMasterKek W db session.passphrase = some masterKek

section

variable {W : KeyWrapping} {works : ConvertStep → Bool} {s : ConvertState} {v3 v4 : IdentityRow} {keys : PrivateKeys}
  {v4Address : Bytes} {session : ConvertSession} {fresh : Fresh} {db db' : IdentityStore}

theorem vaultMasterKek_readVault {passphrase masterKek : Bytes}
    (h : vaultMasterKek W (s.readVault works) passphrase = some masterKek) :
    vaultMasterKek W s.store.identities passphrase = some masterKek := by
  unfold ConvertState.readVault at h
  split_ifs at h
  · exact h
  · cases h

/-- The key of a version 3 row is the one that `resolve_kek_for_row` finds. -/
theorem convertKek_sound (works : ConvertStep → Bool) (v3 : IdentityRow) (h : session.Sound W s.store.identities) :
    (convertKek W (s.readVault works) v3 session).1.passphrase = session.passphrase ∧
      (convertKek W (s.readVault works) v3 session).1.Sound W s.store.identities ∧
      ∀ kek, (convertKek W (s.readVault works) v3 session).2 = some kek →
        resolveKekForRow W s.store.identities v3 session.passphrase = some kek := by
  unfold convertKek resolveKekForRow
  rcases v3.kdfAlgo with _ | _
  · exact ⟨rfl, h, fun _ hkek => hkek⟩
  · unfold sessionMasterKek
    rcases hm : session.masterKek with _ | masterKek
    · refine ⟨rfl, ?_, ?_⟩
      · intro masterKek hsome
        exact vaultMasterKek_readVault (Option.some.inj hsome)
      · intro kek hkek
        obtain ⟨masterKek, hvault, hkek⟩ := Option.bind_eq_some_iff.mp hkek
        simp only
        rw [vaultMasterKek_readVault hvault, Option.bind_some]
        exact hkek
    · refine ⟨rfl, h, ?_⟩
      intro kek hkek
      obtain ⟨masterKek, rfl, hkek⟩ := Option.bind_eq_some_iff.mp hkek
      simp only
      rw [h masterKek hm, Option.bind_some]
      exact hkek

/-- A new sibling opens to the passphrase of the session. -/
theorem rowKeys_storeSibling (hW : W.Lawful) (hsession : session.Sound W db)
    (hs : ConvertState.storeSibling W v3 keys v4Address session fresh db = some db')
    (ha : v4Address.length < addressStrMax) (hrow : identityStoreLoad db' v4Address = some v4) :
    rowKeys W db' v4 session.passphrase = some keys := by
  obtain ⟨kek, params, signing, encryption, haddress, hwrapped, hinsert, hkek⟩ :=
    ConvertState.storeSibling_eq_some hs ha
  obtain ⟨-, hself, -, hvault⟩ := identityStoreInsert_eq_some hinsert
  rw [haddress, hrow] at hself
  obtain rfl := Option.some.inj hself
  have hresolve : resolveKekForRow W db'
      (newIdentityRow (siblingOf v3 keys v4Address) v3.kdfAlgo fresh.salt params signing encryption fresh.now)
      session.passphrase = some kek := by
    unfold resolveKekForRow
    rw [haddress]
    simp only [newIdentityRow]
    rcases halgo : v3.kdfAlgo with _ | _
    · rw [halgo] at hkek
      simp only
      rw [hkek.1, Option.bind_some]
      exact hkek.2
    · rw [halgo] at hkek
      obtain ⟨masterKek, hm, hkek⟩ := hkek
      simp only
      rw [vaultMasterKek_congr hvault, hsession masterKek hm, Option.bind_some]
      exact hkek
  rw [rowKeys, hresolve, Option.bind_some]
  exact (hwrapped.unwrapKeys_eq_some hW).mpr ⟨rfl, haddress, rfl⟩

/-- The row of the sibling after a conversion. -/
theorem load_convertedStore {v3Address : Bytes} {store : ConvertStore} (hne : v4Address ≠ v3Address)
    (hrow : identityStoreLoad db v4Address = some v4) :
    identityStoreLoad (convertedStore works v3 v4 v3Address v4Address db store).identities v4Address =
      some (completedRow works v3 v4) := by
  unfold convertedStore
  exact (load_delete_of_ne _ hne).trans (load_completedTable_self works hrow)

/-- It opens as the row did that the sibling began with. -/
theorem keyringExport_convertedStore {v3Address : Bytes} {store : ConvertStore} (hne : v4Address ≠ v3Address)
    (hrow : identityStoreLoad db v4Address = some v4) (passphrase : Bytes) :
    keyringExport W (convertedStore works v3 v4 v3Address v4Address db store).identities v4Address passphrase =
      rowKeys W db v4 passphrase := by
  rw [keyringExport_eq, load_convertedStore hne hrow, Option.bind_some]
  exact rowKeys_congr (vault_completedTable works v3 v4 v4Address db) (sameWrapping_completedRow works v3 v4) passphrase

end

/-! ### A chan of version 3 -/

/-- The version 3 address of the keys of `storedIdentity`. -/
def chanAddress : Bytes :=
  (addressEncode plainCrypto.toHashes 3 1
    (addressCalcRipe plainCrypto.toHashes storedIdentity.signingPubkey storedIdentity.encryptionPubkey)).getD []

/-- A chan under this address, behind the passphrase `pw`. -/
def chanIdentity : IdentityRow :=
  { storedIdentity with
    address := chanAddress
    label := [0x63]
    isChan := true
    addressVersion := 3
    wrappedPrivSigningKey := frame [0x70, 0x77] ++ (frame chanAddress ++ List.replicate 32 3)
    wrappedPrivEncryptionKey := frame [0x70, 0x77] ++ (frame chanAddress ++ List.replicate 32 4)
    address_length := by decide +kernel }

/-- The address of its sibling. -/
def chanSibling : Bytes := (v4SiblingAddress plainCrypto.toHashes chanIdentity).getD []

/-- The databases with the chan and nothing else. -/
def chanStore : ConvertStore := ⟨⟨⟨[chanIdentity], List.nodup_singleton _⟩, none⟩, .empty, [], .empty⟩

/-- A session with its passphrase. -/
def chanSession : ConvertSession := ⟨[0x70, 0x77], none⟩

/-- Salts and nonces of zeros. -/
def zeroFresh : Fresh := ⟨0, List.replicate 16 0, List.replicate 16 0, List.replicate 12 0, List.replicate 12 0,
  List.replicate 12 0⟩

theorem chanIdentity_isV3 : IsV3 plainCrypto.toHashes chanIdentity where
  version := rfl
  stream := by decide
  address := ⟨1, addressCalcRipe plainCrypto.toHashes storedIdentity.signingPubkey storedIdentity.encryptionPubkey,
    by decide +kernel⟩

theorem chanSibling_eq : v4SiblingAddress plainCrypto.toHashes chanIdentity = some chanSibling := by decide +kernel

end Bitmessage
