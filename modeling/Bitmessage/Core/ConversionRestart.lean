import Bitmessage.Core.ConversionSteps
import Bitmessage.Lib.Restart

/-! A conversion that is stopped between two writes and run again. The second run finds
the sibling that the first one stored, and takes the other branch: it copies what is still
missing. Copying what is there changes nothing, and neither does renaming what is
renamed. So the sibling and the messages become what they would have become, and the
version 3 row goes last. -/

namespace Bitmessage

open ConvertState Restart Relation

/-- One attempt: the unlocked entries it begins with, its session and its random bytes. -/
structure Attempt where
  entries : List UnlockedIdentity
  session : ConvertSession
  fresh : Fresh

/-- The session was begun with the passphrase and has asked for the master key or not. -/
def ConvertSession.Fits (W : KeyWrapping) (db : IdentityStore) (passphrase : Bytes) (session : ConvertSession) : Prop :=
  session.passphrase = passphrase ∧
    (session.masterKek = none ∨ session.masterKek = some (vaultMasterKek W db passphrase))

/-- A conversion of the address with the passphrase, every step of which works. It is stopped
anywhere in front of its last write, or nowhere. -/
def conversion (H : Hashes) (W : KeyWrapping) (v3Address passphrase : Bytes) : Procedure ConvertStore Attempt where
  admits a store := a.session.Fits W store.identities passphrase
  stops a store :=
    (convertOneV3ToV4 H W allWork v3Address a.session a.fresh (store.start a.entries)).1.stops.dropLast
  final a store := (convertOneV3ToV4 H W allWork v3Address a.session a.fresh (store.start a.entries)).1.store

/-- The databases hold the version 3 row behind the passphrase, and no foreign sibling. -/
structure Convertible (W : KeyWrapping) (v3 : IdentityRow) (keys : PrivateKeys) (v4Address passphrase : Bytes)
    (store : ConvertStore) : Prop where
  row : identityStoreLoad store.identities v3.address = some v3
  keys : rowKeys W store.identities v3 passphrase = some keys
  sibling : ∀ v4, identityStoreLoad store.identities v4Address = some v4 → SameKeys v3 v4

/-! ### Doing it again -/

section

variable {v3 v4 : IdentityRow} {v4Address : Bytes} {db : IdentityStore}

theorem labelledTable_again :
    labelledTable allWork v3 (labelledRow allWork v3 v4) v4Address (labelledTable allWork v3 v4 v4Address db) =
      labelledTable allWork v3 v4 v4Address db := by
  refine if_neg ?_
  rintro ⟨⟨hempty, hlabel⟩, -⟩
  unfold labelledRow at hempty
  by_cases hl : LacksLabel v3 v4
  · exact hlabel (by simpa [hl, allWork] using hempty)
  · exact hl ⟨by simpa [hl] using hempty, hlabel⟩

/-- The flag is still missing after the label alone. -/
theorem completedTable_labelled :
    completedTable allWork v3 (labelledRow allWork v3 v4) v4Address (labelledTable allWork v3 v4 v4Address db) =
      completedTable allWork v3 v4 v4Address db := by
  unfold completedTable
  rw [labelledTable_again]
  rfl

theorem completedTable_again :
    completedTable allWork v3 (completedRow allWork v3 v4) v4Address (completedTable allWork v3 v4 v4Address db) =
      completedTable allWork v3 v4 v4Address db := by
  have hlabel : labelledTable allWork v3 (completedRow allWork v3 v4) v4Address
      (completedTable allWork v3 v4 v4Address db) = completedTable allWork v3 v4 v4Address db := by
    refine if_neg ?_
    rintro ⟨⟨hempty, hlabel⟩, -⟩
    have hrow : (labelledRow allWork v3 v4).label = [] := hempty
    unfold labelledRow at hrow
    by_cases hl : LacksLabel v3 v4
    · exact hlabel (by simpa [hl, allWork] using hrow)
    · exact hl ⟨by simpa [hl] using hrow, hlabel⟩
  have hchan : ¬ (LacksChan v3 (completedRow allWork v3 v4) ∧ allWork .setIsChan = true) := by
    rintro ⟨⟨hchan, hflag⟩, -⟩
    have hrow : (v4.isChan || (v3.isChan && true)) = false := hflag
    simp [hchan] at hrow
  rw [completedTable, if_neg hchan, hlabel]

end

/-! ### An attempt -/

section

variable {H : Hashes} {W : KeyWrapping} {v3 v4 : IdentityRow} {keys : PrivateKeys} {v4Address passphrase : Bytes}
  {store t : ConvertStore} {session : ConvertSession} {db : IdentityStore}

/-- A session that fits finds the key that `resolve_kek_for_row` finds, and then has the master key. -/
theorem ConvertSession.Fits.convertKek (h : session.Fits W db passphrase) (v3 : IdentityRow) :
    (Bitmessage.convertKek W db v3 session).2 = resolveKekForRow W db v3 passphrase ∧
      (Bitmessage.convertKek W db v3 session).1.passphrase = passphrase ∧
      (v3.kdfAlgo = .vaultHkdf →
        (Bitmessage.convertKek W db v3 session).1.masterKek = some (vaultMasterKek W db passphrase)) := by
  obtain ⟨rfl, hmaster⟩ := h
  unfold Bitmessage.convertKek resolveKekForRow
  rcases hkdf : v3.kdfAlgo with _ | _
  · exact ⟨rfl, rfl, fun h => by cases h⟩
  · unfold sessionMasterKek
    rcases hmaster with hm | hm
    · rw [hm]
      exact ⟨rfl, rfl, fun _ => rfl⟩
    · rw [hm]
      exact ⟨rfl, rfl, fun _ => hm⟩

theorem ConvertSession.Fits.sound (h : session.Fits W store.identities passphrase) (v3 : IdentityRow) :
    (Bitmessage.convertKek W store.identities v3 session).1.Sound W store.identities := by
  have hsound : session.Sound W (store.start []).store.identities := by
    intro masterKek hm
    rcases h.2 with hnone | hvault
    · rw [hnone] at hm
      cases hm
    · rw [hvault] at hm
      rw [h.1]
      exact Option.some.inj hm
  exact (convertKek_sound allWork v3 hsound).2.1

theorem Convertible.opens (h : Convertible W v3 keys v4Address passphrase store) (hv3 : IsV3 H v3)
    (haddress : v4SiblingAddress H v3 = some v4Address) (hsession : session.Fits W store.identities passphrase)
    (entries : List UnlockedIdentity) :
    OpensV3 H W allWork (store.start entries) v3.address session v3 keys v4Address where
  row := h.row
  version := hv3.version
  keys := by
    have hkek := (hsession.convertKek v3).1
    have hvault : (store.start entries).readVault allWork = store.identities := rfl
    rw [hvault, hkek]
    exact h.keys
  address := haddress

/-- The sibling is there or can be stored. -/
theorem Convertible.base (h : Convertible W v3 keys v4Address passphrase store) (hT : W.Total)
    (hlen : v4Address.length < addressStrMax) (hsession : session.Fits W store.identities passphrase) (fresh : Fresh) :
    ∃ v4 db, SiblingBase W allWork v3 keys v4Address (convertKek W store.identities v3 session).1 fresh
      store.identities v4 db := by
  rcases hrow : identityStoreLoad store.identities v4Address with _ | v4
  · obtain ⟨-, hpass, hmaster⟩ := hsession.convertKek v3
    have hstored (kdfAlgo : KdfAlgo) (kdfParams : Option ScryptParams) (kek : Bytes) :
        (storeNewIdentityWithKek W store.identities (siblingOf v3 keys v4Address) kdfAlgo fresh.salt kdfParams kek
          fresh).isSome := by
      obtain ⟨signing, hs⟩ := Option.isSome_iff_exists.mp (hT.wrap kek v4Address keys.signing fresh.signingNonce)
      obtain ⟨encryption, he⟩ :=
        Option.isSome_iff_exists.mp (hT.wrap kek v4Address keys.encryption fresh.encryptionNonce)
      have hinsert : (identityStoreInsert store.identities (newIdentityRow (siblingOf v3 keys v4Address) kdfAlgo
          fresh.salt kdfParams signing encryption fresh.now)).isSome := by
        rw [identityStoreInsert_isSome]
        exact (congrArg _ (toAddressBuffer_of_length hlen)).trans hrow
      obtain ⟨db, hdb⟩ := Option.isSome_iff_exists.mp hinsert
      exact Option.isSome_iff_exists.mpr
        ⟨db, storeNewIdentityWithKek_eq_some.mpr ⟨signing, encryption, hs, he, hdb⟩⟩
    have hsome : (storeSibling W v3 keys v4Address (convertKek W store.identities v3 session).1 fresh
        store.identities).isSome := by
      unfold storeSibling
      rcases hkdf : v3.kdfAlgo with _ | _
      · obtain ⟨kek, hkek⟩ := Option.isSome_iff_exists.mp
          (hT.deriveKek (convertKek W store.identities v3 session).1.passphrase fresh.salt)
        simp only [keyringCreateIdentity, hkek, Option.bind_some]
        exact hstored _ _ _
      · -- the row was opened with the master key, so there is one
        obtain ⟨masterKek, hm⟩ : ∃ masterKek, vaultMasterKek W store.identities passphrase = some masterKek := by
          have hkeys := h.keys
          unfold rowKeys resolveKekForRow at hkeys
          rw [hkdf] at hkeys
          obtain ⟨kek, hkek, -⟩ := Option.bind_eq_some_iff.mp hkeys
          obtain ⟨masterKek, hm, -⟩ := Option.bind_eq_some_iff.mp hkek
          exact ⟨masterKek, hm⟩
        obtain ⟨kek, hkek⟩ := Option.isSome_iff_exists.mp (hT.hkdfExpandWrapKey masterKek fresh.salt v4Address)
        simp only [hmaster hkdf, hm, Option.getD_some, Option.bind_some, keyringImportIdentityWithMasterKek]
        rw [show (siblingOf v3 keys v4Address).address = v4Address from rfl, hkek, Option.bind_some]
        exact hstored _ _ _
    obtain ⟨db, hdb⟩ := Option.isSome_iff_exists.mp hsome
    obtain ⟨_, _, _, _, haddress, -, hinsert, -⟩ := storeSibling_eq_some hdb hlen
    have hself := (identityStoreInsert_eq_some hinsert).2.1
    rw [haddress] at hself
    exact ⟨_, db, .made rfl rfl hrow hdb hself⟩
  · exact ⟨v4, store.identities, .found rfl hrow (h.sibling v4 hrow)⟩

/-- Between two writes the row that the sibling now has leads to the same end. -/
theorem Between.settled (h : Between allWork v3 v4 v3.address v4Address db store t)
    (hne : v4Address ≠ v3.address) (hrow : identityStoreLoad db v4Address = some v4) (hkeys : SameKeys v3 v4) :
    ∃ row, identityStoreLoad t.identities v4Address = some row ∧ SameKeys v3 row ∧
      identityStoreLoad t.identities v3.address = identityStoreLoad db v3.address ∧
      t.identities.vault = db.vault ∧
      convertedStore allWork v3 row v3.address v4Address t.identities t =
        convertedStore allWork v3 v4 v3.address v4Address db store := by
  have hcomplete : identityStoreLoad (completedTable allWork v3 v4 v4Address db) v4Address =
      some (completedRow allWork v3 v4) := load_completedTable_self allWork hrow
  have hold : identityStoreLoad (completedTable allWork v3 v4 v4Address db) v3.address =
      identityStoreLoad db v3.address := load_completedTable_of_ne allWork hne.symm
  have hvault := vault_completedTable allWork v3 v4 v4Address db
  -- what a conversion of a later state ends in, when its sibling is complete
  have hend (pq : PqIdentityTable) (inbox : List InboxRow) (sent : SentTable) :
      convertedStore allWork v3 (completedRow allWork v3 v4) v3.address v4Address
          (completedTable allWork v3 v4 v4Address db) ⟨completedTable allWork v3 v4 v4Address db, pq, inbox, sent⟩ =
        ⟨identityStoreDelete (completedTable allWork v3 v4 v4Address db) v3.address, pq.delete v3.address,
          messagesStoreRenameInbox inbox v3.address v4Address,
          messagesStoreRenameOwnAddress sent v3.address v4Address⟩ := by
    unfold convertedStore
    rw [completedTable_again]
    rfl
  cases h with
  | stored => exact ⟨v4, hrow, hkeys, rfl, rfl, rfl⟩
  | labelled =>
    refine ⟨labelledRow allWork v3 v4, load_labelledTable_self allWork hrow, hkeys,
      load_labelledTable_of_ne allWork hne.symm, vault_labelledTable allWork v3 v4 v4Address db, ?_⟩
    change convertedStore allWork v3 (labelledRow allWork v3 v4) v3.address v4Address
      (labelledTable allWork v3 v4 v4Address db) store = _
    unfold convertedStore
    rw [completedTable_labelled]
  | completed => exact ⟨_, hcomplete, hkeys, hold, hvault, hend _ _ _⟩
  | inbox =>
    refine ⟨_, hcomplete, hkeys, hold, hvault, (hend _ _ _).trans ?_⟩
    rw [renameInbox_again hne]
    rfl
  | renamed =>
    refine ⟨_, hcomplete, hkeys, hold, hvault, (hend _ _ _).trans ?_⟩
    rw [renameInbox_again hne, renameOwnAddress_again hne]
    rfl
  | pqDeleted =>
    refine ⟨_, hcomplete, hkeys, hold, hvault, (hend _ _ _).trans ?_⟩
    change ConvertStore.mk _ ((store.pqIdentities.delete v3.address).delete v3.address)
      (messagesStoreRenameInbox (messagesStoreRenameInbox _ _ _) _ _)
      (messagesStoreRenameOwnAddress (messagesStoreRenameOwnAddress _ _ _) _ _) = _
    rw [renameInbox_again hne, renameOwnAddress_again hne, KeyedTable.delete_idem]
    rfl

end

section

variable {H : Hashes} {W : KeyWrapping} {v3 : IdentityRow} {keys : PrivateKeys} {v4Address passphrase : Bytes}
  {store : ConvertStore}

/-- An attempt goes through, past states between two writes only. -/
theorem Convertible.attempt (h : Convertible W v3 keys v4Address passphrase store) (hT : W.Total) (hv3 : IsV3 H v3)
    (haddress : v4SiblingAddress H v3 = some v4Address) (a : Attempt)
    (ha : a.session.Fits W store.identities passphrase) :
    ∃ v4 db, SiblingBase W allWork v3 keys v4Address (convertKek W store.identities v3 a.session).1 a.fresh
        store.identities v4 db ∧
      (convertOneV3ToV4 H W allWork v3.address a.session a.fresh (store.start a.entries)).2.2.error = none ∧
      (conversion H W v3.address passphrase).final a store =
        convertedStore allWork v3 v4 v3.address v4Address db store ∧
      ∀ t ∈ (conversion H W v3.address passphrase).stops a store,
        t = store ∨ Between allWork v3 v4 v3.address v4Address db store t := by
  obtain ⟨v4, db, hbase⟩ := h.base hT (length_v4SiblingAddress haddress) ha a.fresh
  obtain ⟨s₁, hs₁, hstops⟩ := convertOneV3ToV4_eq a.fresh (h.opens hv3 haddress ha a.entries) hbase
    ⟨rfl, rfl, rfl, rfl⟩
  refine ⟨v4, db, hbase, ?_, ?_, ?_⟩
  · rw [hs₁]
  · simp only [conversion, hs₁]
    rfl
  · intro t ht
    simp only [conversion, hs₁, put, List.dropLast_concat] at ht
    rcases hstops t ht with ht | ht
    · exact .inl (List.mem_singleton.mp ht)
    · exact .inr ht

/-- What an attempt leaves on its way can be converted, and the end is settled. -/
theorem conversion_restartable (hT : W.Total) (hv3 : IsV3 H v3) (haddress : v4SiblingAddress H v3 = some v4Address) :
    (conversion H W v3.address passphrase).Restartable (Convertible W v3 keys v4Address passphrase) := by
  obtain ⟨address, hother, hne⟩ := hv3.sibling
  rw [haddress] at hother
  obtain rfl := Option.some.inj hother
  have hlen := length_v4SiblingAddress haddress
  intro a store hstore ha t ht
  obtain ⟨v4, db, hbase, -, hfinal, hstops⟩ := hstore.attempt hT hv3 haddress a ha
  rcases hstops t ht with rfl | hbetween
  · exact ⟨hstore, .inl rfl⟩
  obtain ⟨hrow, hkeys⟩ := hbase.row hlen
  obtain ⟨hold, hvault⟩ := hbase.load_of_ne hlen hne.symm
  obtain ⟨row, hrow', hkeys', hold', hvault', hend⟩ := hbetween.settled hne hrow hkeys
  have hready : Convertible W v3 keys v4Address passphrase t := by
    refine ⟨(hold'.trans hold).trans hstore.row, ?_, ?_⟩
    · rw [rowKeys_congr (hvault'.trans hvault) (.refl v3)]
      exact hstore.keys
    · intro v4' hv4'
      rw [hrow'] at hv4'
      obtain rfl := Option.some.inj hv4'
      exact hkeys'
  refine ⟨hready, .inr ?_⟩
  intro b hb
  obtain ⟨v4', db', hbase', -, hfinal', -⟩ := hready.attempt hT hv3 haddress b hb
  -- the sibling is found now, whatever the first attempt did
  cases hbase' with
  | found hw hv4' hk =>
    rw [hrow'] at hv4'
    obtain rfl := Option.some.inj hv4'
    rw [hfinal', hfinal]
    exact hend
  | made hi hr hnone hs hv4' =>
    rw [hrow'] at hnone
    cases hnone

/-- The databases after a conversion: the version 3 row is gone, a sibling that was there has got
what it lacked, a new one has the keys, the label, the difficulty and the flag, and no message
names the old address as the own one. -/
structure Converted (W : KeyWrapping) (v3 : IdentityRow) (keys : PrivateKeys) (v4Address passphrase : Bytes)
    (before after : ConvertStore) : Prop where
  gone : identityStoreLoad after.identities v3.address = none
  found : ∀ v4, identityStoreLoad before.identities v4Address = some v4 →
    (∃ row, identityStoreLoad after.identities v4Address = some row ∧ SameKeys v3 row ∧
      row.label = (if v4.label = [] then v3.label else v4.label) ∧ row.isChan = (v4.isChan || v3.isChan)) ∧
    ∀ P, keyringExport W after.identities v4Address P = keyringExport W before.identities v4Address P
  made : identityStoreLoad before.identities v4Address = none →
    (∃ row, identityStoreLoad after.identities v4Address = some row ∧ SameKeys v3 row ∧ row.addressVersion = 4 ∧
      row.stream = v3.stream ∧ row.label = v3.label.take (identityLabelMax - 1) ∧ row.isChan = v3.isChan ∧
      row.nonceTrialsPerByte = v3.nonceTrialsPerByte ∧
      row.payloadLengthExtraBytes = v3.payloadLengthExtraBytes) ∧
    keyringExport W after.identities v4Address passphrase = some keys
  inbox : ∀ row ∈ after.inbox, row.toAddress ≠ v3.address
  sent : ∀ row ∈ after.sent.rows, row.fromAddress ≠ v3.address

theorem label_completedRow (v3 v4 : IdentityRow) :
    (completedRow allWork v3 v4).label = if v4.label = [] then v3.label else v4.label := by
  have hlabel : (completedRow allWork v3 v4).label =
      if LacksLabel v3 v4 ∧ allWork .updateLabel = true then v3.label else v4.label := rfl
  rw [hlabel]
  by_cases hempty : v4.label = []
  · rw [if_pos hempty]
    split_ifs with hl
    · rfl
    · by_contra hne
      exact hl ⟨⟨hempty, fun h => hne (hempty.trans h.symm)⟩, rfl⟩
  · rw [if_neg hempty, if_neg fun h => hempty h.1.1]

theorem converted_of_base (hW : W.Lawful) {v4 : IdentityRow} {db : IdentityStore} {session : ConvertSession}
    {fresh : Fresh} (hsession : session.Fits W store.identities passphrase) (hlen : v4Address.length < addressStrMax)
    (hne : v4Address ≠ v3.address)
    (hbase : SiblingBase W allWork v3 keys v4Address (convertKek W store.identities v3 session).1 fresh
      store.identities v4 db) :
    Converted W v3 keys v4Address passphrase store (convertedStore allWork v3 v4 v3.address v4Address db store) := by
  obtain ⟨hrow, hkeys⟩ := hbase.row hlen
  have hload : identityStoreLoad (convertedStore allWork v3 v4 v3.address v4Address db store).identities v4Address =
      some (completedRow allWork v3 v4) := load_convertedStore hne hrow
  have hexport (P : Bytes) :
      keyringExport W (convertedStore allWork v3 v4 v3.address v4Address db store).identities v4Address P =
        rowKeys W db v4 P := keyringExport_convertedStore hne hrow P
  refine ⟨load_delete_self _ _, ?_, ?_, ?_, ?_⟩
  · intro v4' hv4'
    cases hbase with
    | found hw hrow' hk =>
      rw [hrow] at hv4'
      obtain rfl := Option.some.inj hv4'
      refine ⟨⟨_, hload, hkeys, label_completedRow v3 v4, congrArg (v4.isChan || ·) (Bool.and_true _)⟩, ?_⟩
      intro P
      rw [hexport, keyringExport_eq, hrow, Option.bind_some]
    | made hi hr hnone hs hrow' =>
      rw [hnone] at hv4'
      cases hv4'
  · intro hnone
    cases hbase with
    | found hw hrow' hk =>
      rw [hrow] at hnone
      cases hnone
    | made hi hr hnone' hs hrow' =>
      obtain ⟨-, -, -, -, hlabel, hflag, htext, hversion, hstream, htrials, hextra⟩ := storeSibling_row hs hlen hrow'
      obtain ⟨-, hpass, hmaster⟩ := hsession.convertKek v3
      have hsound : (convertKek W store.identities v3 session).1.Sound W store.identities := hsession.sound v3
      have hnew := rowKeys_storeSibling hW hsound hs hlen hrow'
      rw [hpass] at hnew
      refine ⟨⟨_, hload, hkeys, hversion, hstream, ?_, ?_, htrials, hextra⟩, (hexport _).trans hnew⟩
      · exact (if_neg fun h => hlabel h.1).trans htext
      · change (v4.isChan || (v3.isChan && true)) = v3.isChan
        rw [hflag, Bool.and_true, Bool.false_or]
  · exact fun row hmem => toAddress_renameInbox hne hmem
  · exact fun row hmem => fromAddress_renameOwnAddress hne hmem

end

/-- However often a conversion was stopped between two writes, running it again with the same
passphrase succeeds and ends in the databases of a run that nobody stopped. -/
theorem conversion_restarts (H : Hashes) (W : KeyWrapping) (hW : W.Lawful) (hT : W.Total) (v3 : IdentityRow)
    (hv3 : IsV3 H v3) (keys : PrivateKeys) (v4Address passphrase : Bytes)
    (haddress : v4SiblingAddress H v3 = some v4Address) (store : ConvertStore)
    (hstore : Convertible W v3 keys v4Address passphrase store) (stop : ConvertStore)
    (hstop : ReflTransGen (conversion H W v3.address passphrase).Stopped store stop) (again : Attempt)
    (hagain : again.session.Fits W stop.identities passphrase) :
    (convertOneV3ToV4 H W allWork v3.address again.session again.fresh (stop.start again.entries)).2.2.error = none ∧
      (∃ whole, (conversion H W v3.address passphrase).admits whole store ∧
        (conversion H W v3.address passphrase).final again stop =
          (conversion H W v3.address passphrase).final whole store) ∧
      Converted W v3 keys v4Address passphrase store ((conversion H W v3.address passphrase).final again stop) := by
  obtain ⟨address, hother, hne⟩ := hv3.sibling
  rw [haddress] at hother
  obtain rfl := Option.some.inj hother
  have hrestart : (conversion H W v3.address passphrase).Restartable (Convertible W v3 keys v4Address passphrase) :=
    conversion_restartable hT hv3 haddress
  obtain ⟨hready, -⟩ := hrestart.settled hstore hstop
  obtain ⟨-, -, -, hok, -⟩ := hready.attempt hT hv3 haddress again hagain
  obtain ⟨whole, hwhole, hfinal⟩ := hrestart.final_eq hstore hstop hagain
  obtain ⟨v4, db, hbase, -, hend, -⟩ := hstore.attempt hT hv3 haddress whole hwhole
  refine ⟨hok, ⟨whole, hwhole, hfinal⟩, ?_⟩
  rw [hfinal, hend]
  exact converted_of_base hW hwhole (length_v4SiblingAddress haddress) hne hbase

/-! ### A chan that is stopped -/

/-- The private keys of the chan. -/
def chanKeys : PrivateKeys := ⟨List.replicate 32 3, List.replicate 32 4⟩

theorem chanStore_convertible : Convertible framedWrapping chanIdentity chanKeys chanSibling [0x70, 0x77] chanStore where
  row := KeyedTable.find?_eq_some.mpr ⟨List.mem_singleton.mpr rfl, rfl⟩
  keys := by
    have hwrapped : WrappedUnder framedWrapping [0x70, 0x77] chanIdentity.address chanKeys chanIdentity :=
      ⟨⟨[], rfl⟩, ⟨[], rfl⟩⟩
    have hkek : resolveKekForRow framedWrapping chanStore.identities chanIdentity [0x70, 0x77] = some [0x70, 0x77] := rfl
    rw [rowKeys, hkek, Option.bind_some]
    exact (hwrapped.unwrapKeys_eq_some framedWrapping_lawful).mpr ⟨rfl, rfl, rfl⟩
  sibling := by
    have hnone : identityStoreLoad chanStore.identities chanSibling = none := by
      rw [← Option.isNone_iff_eq_none]
      decide +kernel
    intro v4 hv4
    rw [hnone] at hv4
    cases hv4

def chanAttempt : Attempt := ⟨[], chanSession, zeroFresh⟩

theorem chanAttempt_stops : 1 < ((conversion plainCrypto.toHashes framedWrapping chanIdentity.address
    [0x70, 0x77]).stops chanAttempt chanStore).length := by
  decide +kernel

/-- The databases when the chan has a sibling and nothing else has happened. -/
def chanStopped : ConvertStore :=
  ((conversion plainCrypto.toHashes framedWrapping chanIdentity.address [0x70, 0x77]).stops chanAttempt chanStore).get
    ⟨1, chanAttempt_stops⟩

theorem chanStopped_stopped : (conversion plainCrypto.toHashes framedWrapping chanIdentity.address
    [0x70, 0x77]).Stopped chanStore chanStopped :=
  ⟨chanAttempt, ⟨rfl, .inl rfl⟩, List.get_mem _ _⟩

/-- The chan is converted although the first attempt was stopped behind the insertion. -/
theorem chan_conversion_restarts :
    (convertOneV3ToV4 plainCrypto.toHashes framedWrapping allWork chanIdentity.address chanAttempt.session
        chanAttempt.fresh (chanStopped.start chanAttempt.entries)).2.2.error = none ∧
      (∃ whole, (conversion plainCrypto.toHashes framedWrapping chanIdentity.address [0x70, 0x77]).admits whole
          chanStore ∧
        (conversion plainCrypto.toHashes framedWrapping chanIdentity.address [0x70, 0x77]).final chanAttempt
          chanStopped =
        (conversion plainCrypto.toHashes framedWrapping chanIdentity.address [0x70, 0x77]).final whole chanStore) ∧
      Converted framedWrapping chanIdentity chanKeys chanSibling [0x70, 0x77] chanStore
        ((conversion plainCrypto.toHashes framedWrapping chanIdentity.address [0x70, 0x77]).final chanAttempt
          chanStopped) :=
  conversion_restarts plainCrypto.toHashes framedWrapping framedWrapping_lawful framedWrapping_total chanIdentity
    chanIdentity_isV3 chanKeys chanSibling [0x70, 0x77] chanSibling_eq chanStore chanStore_convertible chanStopped
    (.single chanStopped_stopped) chanAttempt ⟨rfl, .inl rfl⟩

/-- The databases when the chan has written to itself. -/
def selfStore : ConvertStore :=
  { chanStore with inbox := [⟨[], chanIdentity.address, chanIdentity.address, [], [], 0⟩] }

/-- A message from oneself still names the version 3 address, as that of its sender. -/
theorem sender_keeps_v3_address :
    (convertOneV3ToV4 plainCrypto.toHashes framedWrapping allWork chanIdentity.address chanSession zeroFresh
        (selfStore.start [])).2.2.error = none ∧
      ∃ row ∈ (convertOneV3ToV4 plainCrypto.toHashes framedWrapping allWork chanIdentity.address chanSession zeroFresh
        (selfStore.start [])).1.store.inbox, row.fromAddress = chanIdentity.address := by
  decide +kernel

end Bitmessage
