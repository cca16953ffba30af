import Bitmessage.Core.KeptRows
import Bitmessage.Core.ConversionSteps

/-! What the keyring promises about the vault. A call comes with one passphrase, and all that
it writes is of the kinds that keep the rows. So the vault that the first call makes is the
vault of every call after it, and a row goes on giving the same keys to the same
passphrase. The conversion alone takes a row away: the row of version 3, once its sibling
is stored. -/

namespace Bitmessage

open Transition

/-! ### Storing identities -/

section

variable {W : KeyWrapping} {passphrase masterKek : Bytes} {db db' : IdentityStore} {new : NewIdentity}
  {fresh : Fresh}

theorem keyringCreateIdentity_kept (hW : W.Lawful) (h : keyringCreateIdentity W db new passphrase fresh = some db') :
    Kept W passphrase false db db' := by
  obtain ⟨kek, signing, encryption, hkek, hwrapped, hi⟩ := keyringCreateIdentity_eq_some h
  refine .insert hi (fun _ => rfl) ?_
  intro passphrase' hopens
  obtain ⟨keys, hopens⟩ := Option.isSome_iff_exists.mp hopens
  obtain ⟨kek', hkek', hopens⟩ := Option.bind_eq_some_iff.mp hopens
  obtain ⟨rfl, -, -⟩ := (hwrapped.unwrapKeys_eq_some hW).mp hopens
  exact hW.deriveKek_inj hkek hkek'

theorem keyringImportIdentityWithMasterKek_kept (hW : W.Lawful) (hdb : WellWrapped W db)
    (hm : vaultMasterKek W db passphrase = some masterKek)
    (h : keyringImportIdentityWithMasterKek W db new masterKek fresh = some db') :
    Kept W passphrase false db db' := by
  obtain ⟨kek, signing, encryption, -, -, hi⟩ := keyringImportIdentityWithMasterKek_eq_some h
  obtain ⟨vault, hvault, -⟩ := Option.bind_eq_some_iff.mp hm
  refine .insert hi ?_ ?_
  · intro hnone
    rw [hvault] at hnone
    cases hnone
  · intro passphrase' hopens
    exact hdb.masterKek_unique hW hm (vaultMasterKek_of_rowKeys rfl hopens)

/-- The vault that a call makes opens to its passphrase. -/
theorem vaultMasterKek_createVault (hW : W.Lawful) {canary : Bytes}
    (hkek : W.deriveKek passphrase fresh.vaultSalt scryptDefaults = some masterKek)
    (hc : W.wrap masterKek vaultCanaryAad vaultCanaryPlaintext fresh.canaryNonce = some canary)
    (h : identityStoreCreateVault db ⟨fresh.vaultSalt, some scryptDefaults, canary⟩ = some db') :
    VaultOf W ⟨fresh.vaultSalt, some scryptDefaults, canary⟩ passphrase masterKek ∧
      vaultMasterKek W db' passphrase = some masterKek ∧ db'.identities = db.identities := by
  have hof : VaultOf W ⟨fresh.vaultSalt, some scryptDefaults, canary⟩ passphrase masterKek := ⟨hkek, _, hc⟩
  unfold identityStoreCreateVault at h
  split_ifs at h
  cases h
  exact ⟨hof, (hof.vaultMasterKek_eq_some hW rfl).mpr ⟨rfl, rfl⟩, rfl⟩

/-- A master key that was resolved is the one of the vault that is there now. -/
theorem keyringResolveOrCreateVaultMasterKek_masterKek (hW : W.Lawful)
    (h : keyringResolveOrCreateVaultMasterKek W db passphrase fresh = some (masterKek, db')) :
    vaultMasterKek W db' passphrase = some masterKek ∧ db'.identities = db.identities := by
  unfold keyringResolveOrCreateVaultMasterKek at h
  split_ifs at h
  · obtain ⟨_, hm, he⟩ := Option.map_eq_some_iff.mp h
    cases he
    exact ⟨hm, rfl⟩
  · obtain ⟨_, hkek, h⟩ := Option.bind_eq_some_iff.mp h
    obtain ⟨canary, hc, h⟩ := Option.bind_eq_some_iff.mp h
    obtain ⟨_, hdb', he⟩ := Option.map_eq_some_iff.mp h
    cases he
    exact (vaultMasterKek_createVault hW hkek hc hdb').2

theorem keyringResolveOrCreateVaultMasterKek_kept (hW : W.Lawful) (hdb : WellWrapped W db)
    (h : keyringResolveOrCreateVaultMasterKek W db passphrase fresh = some (masterKek, db')) :
    Kept W passphrase false db db' := by
  unfold keyringResolveOrCreateVaultMasterKek at h
  split_ifs at h
  · obtain ⟨_, -, he⟩ := Option.map_eq_some_iff.mp h
    cases he
    exact .refl _ _ _ _
  · obtain ⟨_, hkek, h⟩ := Option.bind_eq_some_iff.mp h
    obtain ⟨canary, hc, h⟩ := Option.bind_eq_some_iff.mp h
    obtain ⟨_, hdb', he⟩ := Option.map_eq_some_iff.mp h
    cases he
    exact .createVault hdb (vaultMasterKek_createVault hW hkek hc hdb').1 hdb'

theorem keyringImportIdentity_kept (hW : W.Lawful) (hdb : WellWrapped W db) :
    Kept W passphrase false db (keyringImportIdentity W db new passphrase fresh).1 := by
  unfold keyringImportIdentity
  rcases hr : keyringResolveOrCreateVaultMasterKek W db passphrase fresh with _ | ⟨masterKek, db₁⟩
  · exact .refl _ _ _ _
  have hkept := keyringResolveOrCreateVaultMasterKek_kept hW hdb hr
  have hm := (keyringResolveOrCreateVaultMasterKek_masterKek hW hr).1
  simp only
  rcases hi : keyringImportIdentityWithMasterKek W db₁ new masterKek fresh with _ | db₂
  · exact hkept
  · exact hkept.trans (keyringImportIdentityWithMasterKek_kept hW (hkept.wellWrapped hdb) hm hi)

end

/-! ### Unlocking -/

section

variable {H : Hashes} {W : KeyWrapping} {kr kr' : Keyring} {address passphrase masterKek : Bytes} {fresh : Fresh}

theorem keyringUnlock_eq_some {now : ℤ} (h : keyringUnlock H W kr address passphrase now = some kr') :
    ∃ row keys, identityStoreLoad kr.db address = some row ∧ rowKeys W kr.db row passphrase = some keys ∧
      kr' = addUnlockedEntry H kr row keys now := by
  obtain ⟨row, hrow, h⟩ := Option.bind_eq_some_iff.mp h
  obtain ⟨kek, hkek, h⟩ := Option.bind_eq_some_iff.mp h
  obtain ⟨keys, hkeys, rfl⟩ := Option.map_eq_some_iff.mp h
  refine ⟨row, keys, hrow, ?_, rfl⟩
  rw [rowKeys, hkek, Option.bind_some, hkeys]

theorem unlockWithVault_db {row : IdentityRow} {now : ℤ} (h : unlockWithVault H W kr row masterKek now = some kr') :
    kr'.db = kr.db := by
  obtain ⟨kek, -, h⟩ := Option.bind_eq_some_iff.mp h
  obtain ⟨keys, -, rfl⟩ := Option.map_eq_some_iff.mp h
  rfl

/-- The entry that was added last is the one that a lookup finds. -/
theorem keyringFindByAddress_addUnlockedEntry (H : Hashes) (kr : Keyring) (row : IdentityRow) (keys : PrivateKeys) (now : ℤ) :
    keyringFindByAddress (addUnlockedEntry H kr row keys now) row.address = some (unlockedEntry H row keys now) := by
  unfold keyringFindByAddress addUnlockedEntry
  rw [List.find?_cons_of_pos]
  exact decide_eq_true (toAddressBuffer_address row)

/-- The state of a bulk operation: a master key that it holds is the one of the vault. -/
def UnlockBulkState.Sound (W : KeyWrapping) (db : IdentityStore) (st : UnlockBulkState) : Prop :=
  ∀ masterKek, st.masterKek = some masterKek → vaultMasterKek W db st.passphrase = some masterKek

theorem Kept.vaultMasterKek_eq_some {relabels : Bool} {db db' : IdentityStore} (h : Kept W passphrase relabels db db') {p : Bytes}
    (hm : vaultMasterKek W db p = some masterKek) : vaultMasterKek W db' p = some masterKek := by
  obtain ⟨vault, hvault, -⟩ := Option.bind_eq_some_iff.mp hm
  rw [← hm]
  exact vaultMasterKek_congr ((h.vault vault hvault).trans hvault.symm) p

theorem unlockBulkBegin_sound (db : IdentityStore) : (unlockBulkBegin W db passphrase).Sound W db := fun _ h => h

theorem unlockBulkVault_kept (hW : W.Lawful) {db : IdentityStore} (hdb : WellWrapped W db) {st : UnlockBulkState}
    (hst : st.Sound W db) (fresh : Fresh) :
    Kept W st.passphrase false db (unlockBulkVault W db st fresh).1 ∧
      (unlockBulkVault W db st fresh).1.identities = db.identities ∧
      (unlockBulkVault W db st fresh).2.passphrase = st.passphrase ∧
      (unlockBulkVault W db st fresh).2.Sound W (unlockBulkVault W db st fresh).1 := by
  unfold unlockBulkVault
  split_ifs
  · exact ⟨.refl _ _ _ _, rfl, rfl, hst⟩
  simp only
  rcases hmade : (W.deriveKek st.passphrase fresh.vaultSalt scryptDefaults).bind fun masterKek =>
      (W.wrap masterKek vaultCanaryAad vaultCanaryPlaintext fresh.canaryNonce).bind fun canary =>
        (identityStoreCreateVault db ⟨fresh.vaultSalt, some scryptDefaults, canary⟩).map fun db => (masterKek, db)
    with _ | ⟨masterKek, db'⟩
  · exact ⟨.refl _ _ _ _, rfl, rfl, hst⟩
  · obtain ⟨_, hkek, h⟩ := Option.bind_eq_some_iff.mp hmade
    obtain ⟨canary, hc, h⟩ := Option.bind_eq_some_iff.mp h
    obtain ⟨_, hdb', he⟩ := Option.map_eq_some_iff.mp h
    cases he
    obtain ⟨hof, hm, hidentities⟩ := vaultMasterKek_createVault hW hkek hc hdb'
    refine ⟨.createVault hdb hof hdb', hidentities, rfl, ?_⟩
    rintro _ ⟨⟩
    exact hm

/-- A row that was just unlocked is wrapped anew, or stays as it is. -/
theorem rewrapToVault_kept (hW : W.Lawful) (kr : Keyring) (hdb : WellWrapped W kr.db) {row : IdentityRow} {keys : PrivateKeys}
    {now : ℤ} (hrow : identityStoreLoad kr.db address = some row) (hkeys : rowKeys W kr.db row passphrase = some keys)
    (hfind : keyringFindByAddress kr address = some (unlockedEntry H row keys now))
    (hm : vaultMasterKek W kr.db passphrase = some masterKek) (fresh : Fresh) :
    Kept W passphrase false kr.db (rewrapToVault W kr address masterKek fresh) := by
  unfold rewrapToVault
  rw [hfind, Option.bind_some]
  simp only
  rcases hwrapped : (W.hkdfExpandWrapKey masterKek fresh.salt address).bind fun kek =>
      (W.wrap kek address (unlockedEntry H row keys now).privSigning fresh.signingNonce).bind fun signing =>
        (W.wrap kek address (unlockedEntry H row keys now).privEncryption fresh.encryptionNonce).map fun encryption =>
          (signing, encryption) with _ | ⟨signing, encryption⟩
  · exact .refl _ _ _ _
  · obtain ⟨kek, hkek, h⟩ := Option.bind_eq_some_iff.mp hwrapped
    obtain ⟨_, hs, h⟩ := Option.bind_eq_some_iff.mp h
    obtain ⟨_, he, h⟩ := Option.map_eq_some_iff.mp h
    cases h
    exact .rewrap hW hdb hrow hkeys hm hkek ⟨_, hs⟩ ⟨_, he⟩

/-- One address of a bulk operation. -/
theorem unlockBulkOne_kept (H : Hashes) (hW : W.Lawful) (hdb : WellWrapped W kr.db) {st : UnlockBulkState}
    (hst : st.Sound W kr.db) (address : Bytes) (fresh : Fresh) :
    Kept W st.passphrase false kr.db (unlockBulkOne H W kr st address fresh).1.db ∧
      (unlockBulkOne H W kr st address fresh).2.1.passphrase = st.passphrase ∧
      (unlockBulkOne H W kr st address fresh).2.1.Sound W (unlockBulkOne H W kr st address fresh).1.db := by
  have hrefl : Kept W st.passphrase false kr.db kr.db := .refl _ _ _ _
  unfold unlockBulkOne
  simp only
  split_ifs
  · exact ⟨hrefl, rfl, hst⟩
  rcases hrow : identityStoreLoad kr.db address with _ | row
  · exact ⟨hrefl, rfl, hst⟩
  simp only
  rcases row.kdfAlgo with _ | _
  · simp only
    rcases hu : keyringUnlock H W kr address st.passphrase fresh.now with _ | kr₁
    · exact ⟨hrefl, rfl, hst⟩
    obtain ⟨_, keys, hload, hkeys, rfl⟩ := keyringUnlock_eq_some hu
    rw [hrow] at hload
    cases hload
    have haddress := identityStoreLoad_address hrow
    have hvault := unlockBulkVault_kept hW hdb hst fresh
    rcases hv : unlockBulkVault W kr.db st fresh with ⟨db₁, st₁⟩
    rw [hv] at hvault
    obtain ⟨hkept, hidentities, hpassphrase, hst₁⟩ := hvault
    have hv' : unlockBulkVault W (addUnlockedEntry H kr row keys fresh.now).db st fresh = (db₁, st₁) := hv
    simp only [hv']
    rcases hm : st₁.masterKek with _ | masterKek
    · exact ⟨hkept, hpassphrase, hst₁⟩
    · -- the row is still what was unlocked, next to a vault that may be new
      have hrow₁ : identityStoreLoad db₁ address = some row := by
        rw [identityStoreLoad, hidentities]
        exact hrow
      obtain ⟨_, hload, hk⟩ := hkept.row address row hrow
      rw [hrow₁] at hload
      cases hload
      have hfind := keyringFindByAddress_addUnlockedEntry H kr row keys fresh.now
      rw [haddress] at hfind
      have hrewrap : Kept W st.passphrase false db₁
          (rewrapToVault W { addUnlockedEntry H kr row keys fresh.now with db := db₁ } address masterKek fresh) := by
        refine rewrapToVault_kept hW { addUnlockedEntry H kr row keys fresh.now with db := db₁ }
          (hkept.wellWrapped hdb) hrow₁ ((hk.keys _).trans hkeys) hfind ?_ fresh
        rw [← hpassphrase]
        exact hst₁ masterKek hm
      refine ⟨hkept.trans hrewrap, hpassphrase, ?_⟩
      intro masterKek' hm'
      rw [hpassphrase]
      exact hrewrap.vaultMasterKek_eq_some (hpassphrase ▸ hst₁ masterKek' hm')
  · simp only
    rcases h : st.masterKek.bind fun masterKek => unlockWithVault H W kr row masterKek fresh.now with _ | kr₁
    · exact ⟨hrefl, rfl, hst⟩
    · obtain ⟨masterKek, -, h⟩ := Option.bind_eq_some_iff.mp h
      have hsame := unlockWithVault_db h
      simp only
      rw [hsame]
      exact ⟨hrefl, trivial, hst⟩

theorem unlockBulk_kept (H : Hashes) (hW : W.Lawful) (hdb : WellWrapped W kr.db) {st : UnlockBulkState}
    (hst : st.Sound W kr.db) (addresses : List Bytes) (fresh : ℕ → Fresh) :
    Kept W st.passphrase false kr.db (unlockBulk H W kr st addresses fresh).1.db := by
  induction addresses generalizing kr st fresh with
  | nil => exact .refl _ _ _ _
  | cons address addresses ih =>
    obtain ⟨hkept, hpassphrase, hst'⟩ := unlockBulkOne_kept H hW hdb hst address (fresh 0)
    have hrest := ih (hkept.wellWrapped hdb) hst' fun i => fresh (i + 1)
    rw [hpassphrase] at hrest
    exact hkept.trans hrest

end

/-! ### Converting -/

section

variable {H : Hashes} {W : KeyWrapping} {kr kr' : Keyring} {v3 v4 : IdentityRow} {keys : PrivateKeys}
  {v3Address v4Address passphrase : Bytes} {session : ConvertSession} {fresh : Fresh} {db db' : IdentityStore}

theorem updateLabel_kept (passphrase : Bytes) (db : IdentityStore) (address label : Bytes) :
    Kept W passphrase true db (identityStoreUpdateLabel db address label) := by
  refine .relabel ?_ ?_ rfl (load_updateLabel_self db address label) ?_
  · exact fun _ => ⟨rfl, rfl, rfl, rfl, rfl, rfl⟩
  · exact fun _ => ⟨rfl, rfl⟩
  · exact fun _ ha => load_updateLabel_of_ne db ha label

theorem setIsChan_kept (passphrase : Bytes) (db : IdentityStore) (address : Bytes) :
    Kept W passphrase true db (identityStoreSetIsChan db address) := by
  refine .relabel ?_ ?_ rfl (load_setIsChan_self db address) ?_
  · exact fun _ => ⟨rfl, rfl, rfl, rfl, rfl, rfl⟩
  · exact fun _ => ⟨rfl, rfl⟩
  · exact fun _ ha => load_setIsChan_of_ne db ha

theorem completeSibling_kept (passphrase : Bytes) {v4' : IdentityRow}
    (h : completeSibling kr v3 v4 v4Address = some (kr', v4')) :
    Kept W passphrase true kr.db kr'.db ∧ SameKeys v3 v4 := by
  unfold completeSibling at h
  split_ifs at h with hdiffer hlabel hchan hchan
  all_goals
    rw [not_or, not_not, not_not] at hdiffer
    cases h
  · exact ⟨(updateLabel_kept _ _ _ _).trans (setIsChan_kept _ _ _), hdiffer⟩
  · exact ⟨updateLabel_kept _ _ _ _, hdiffer⟩
  · exact ⟨setIsChan_kept _ _ _, hdiffer⟩
  · exact ⟨.refl _ _ _ _, hdiffer⟩

theorem storeSibling_kept (hW : W.Lawful) (hdb : WellWrapped W db) (hsession : session.Sound W db)
    (h : ConvertState.storeSibling W v3 keys v4Address session fresh db = some db') :
    Kept W session.passphrase true db db' := by
  unfold ConvertState.storeSibling at h
  rcases halgo : v3.kdfAlgo with _ | _
  all_goals rw [halgo] at h
  · exact (keyringCreateIdentity_kept hW h).weaken
  · obtain ⟨masterKek, hm, h⟩ := Option.bind_eq_some_iff.mp h
    have hsome : session.masterKek = some (some masterKek) := by
      rcases hs : session.masterKek with _ | k
      · rw [hs] at hm
        cases hm
      · rw [hs] at hm
        exact congrArg some hm
    exact (keyringImportIdentityWithMasterKek_kept hW hdb (hsession masterKek hsome) h).weaken

/-- The completion of a sibling as a table. -/
theorem completeSibling_db {v4' : IdentityRow} (h : completeSibling kr v3 v4 v4Address = some (kr', v4')) :
    kr'.db = completedTable allWork v3 v4 v4Address kr.db := by
  have hlabelled :
      (if v4.label = [] ∧ v3.label ≠ [] then identityStoreUpdateLabel kr.db v4Address v3.label else kr.db) =
        labelledTable allWork v3 v4 v4Address kr.db := if_congr (by simp [LacksLabel, allWork]) rfl rfl
  have hlacks : LacksChan v3 v4 ∧ allWork .setIsChan = true ↔ v3.isChan = true ∧ ¬ v4.isChan = true := by
    simp [LacksChan, allWork]
  unfold completeSibling at h
  rw [hlabelled] at h
  rw [completedTable, if_congr hlacks rfl rfl]
  split_ifs at h ⊢
  · cases h
    rfl
  · cases h
    rfl

/-- The sibling is the only row that is written. One that was there has the keys of the version 3 row, and
gets the label and the flag. -/
theorem siblingRow_load (ha : v4Address.length < addressStrMax)
    (h : siblingRow W kr v3 keys v4Address session fresh = some (kr', v4)) :
    (∀ a ≠ v4Address, identityStoreLoad kr'.db a = identityStoreLoad kr.db a) ∧
      ∀ row, identityStoreLoad kr.db v4Address = some row →
        SameKeys v3 row ∧ identityStoreLoad kr'.db v4Address = some (completedRow allWork v3 row) := by
  unfold siblingRow at h
  rcases hrow : identityStoreLoad kr.db v4Address with _ | row
  · rw [hrow] at h
    obtain ⟨db, hs, h⟩ := Option.bind_eq_some_iff.mp h
    replace hs : ConvertState.storeSibling W v3 keys v4Address session fresh kr.db = some db := hs
    obtain ⟨row, hload, h⟩ := Option.map_eq_some_iff.mp h
    obtain ⟨-, hother, -⟩ := ConvertState.storeSibling_row hs ha hload
    refine ⟨fun a hne => ?_, fun _ hsome => by cases hsome⟩
    split_ifs at h
    · cases h
      exact (load_setIsChan_of_ne db hne).trans (hother a hne)
    · cases h
      exact hother a hne
  · rw [hrow] at h
    rw [completeSibling_db h]
    refine ⟨fun a hne => load_completedTable_of_ne allWork hne, ?_⟩
    rintro _ ⟨⟩
    exact ⟨(completeSibling_kept (W := W) [] h).2, load_completedTable_self allWork hrow⟩

/-- The sibling is stored, whether it was there or is new. A new one gives the keys of the version 3 row. -/
structure HasSibling (W : KeyWrapping) (passphrase : Bytes) (v3 : IdentityRow) (keys : PrivateKeys)
    (v4Address : Bytes) (db db' : IdentityStore) : Prop where
  stored : ∃ v4, identityStoreLoad db' v4Address = some v4 ∧ SameKeys v3 v4
  made : identityStoreLoad db v4Address = none → keyringExport W db' v4Address passphrase = some keys

/-- A sibling that is kept is still there. -/
theorem HasSibling.kept {relabels : Bool} {db'' : IdentityStore} (h : HasSibling W passphrase v3 keys v4Address db db')
    (hkept : Kept W passphrase relabels db' db'') : HasSibling W passphrase v3 keys v4Address db db'' := by
  obtain ⟨v4, hv4, hsame⟩ := h.stored
  obtain ⟨v4', hv4', hk⟩ := hkept.row v4Address v4 hv4
  refine ⟨⟨v4', hv4', hk.sameKeys.1.trans hsame.1, hk.sameKeys.2.trans hsame.2⟩, ?_⟩
  intro hnone
  have hmade := h.made hnone
  rw [keyringExport_eq, hv4, Option.bind_some] at hmade
  rw [keyringExport_eq, hv4', Option.bind_some, hk.keys, hmade]

theorem siblingRow_kept (hW : W.Lawful) (hdb : WellWrapped W kr.db) (hsession : session.Sound W kr.db)
    (ha : v4Address.length < addressStrMax) (h : siblingRow W kr v3 keys v4Address session fresh = some (kr', v4)) :
    Kept W session.passphrase true kr.db kr'.db ∧
      HasSibling W session.passphrase v3 keys v4Address kr.db kr'.db := by
  unfold siblingRow at h
  rcases hrow : identityStoreLoad kr.db v4Address with _ | row
  · rw [hrow] at h
    obtain ⟨db, hs, h⟩ := Option.bind_eq_some_iff.mp h
    replace hs : ConvertState.storeSibling W v3 keys v4Address session fresh kr.db = some db := hs
    obtain ⟨row, hload, h⟩ := Option.map_eq_some_iff.mp h
    obtain ⟨-, -, -, hsame, -⟩ := ConvertState.storeSibling_row hs ha hload
    have hkept := storeSibling_kept hW hdb hsession hs
    have hsibling : HasSibling W session.passphrase v3 keys v4Address kr.db db := by
      refine ⟨⟨row, hload, hsame⟩, fun _ => ?_⟩
      rw [keyringExport_eq, hload, Option.bind_some]
      exact rowKeys_storeSibling hW hsession hs ha hload
    split_ifs at h
    · cases h
      have hchan := setIsChan_kept (W := W) session.passphrase db v4Address
      exact ⟨hkept.trans hchan, hsibling.kept hchan⟩
    · cases h
      exact ⟨hkept, hsibling⟩
  · rw [hrow] at h
    obtain ⟨hkept, hsame⟩ := completeSibling_kept (W := W) session.passphrase h
    obtain ⟨row', hrow', hk⟩ := hkept.row v4Address row hrow
    refine ⟨hkept, ⟨row', hrow', hk.sameKeys.1.trans hsame.1, hk.sameKeys.2.trans hsame.2⟩, ?_⟩
    intro hnone
    rw [hrow] at hnone
    cases hnone

theorem ConvertSession.Sound.kept {relabels : Bool} (h : session.Sound W db)
    (hkept : Kept W passphrase relabels db db') : session.Sound W db' :=
  fun masterKek hm => hkept.vaultMasterKek_eq_some (h masterKek hm)

/-- The address is that of the sibling of a version 3 row, and the passphrase opens this row. A sibling that was
there has its keys, and gets the label, when it has none, and the flag; no other column is written. -/
def CompletesSibling (H : Hashes) (W : KeyWrapping) (passphrase v3Address : Bytes) (db db' : IdentityStore)
    (address : Bytes) : Prop :=
  ∃ v3, identityStoreLoad db v3Address = some v3 ∧ (rowKeys W db v3 passphrase).isSome = true ∧
    v4SiblingAddress H v3 = some address ∧
    ∀ v4, identityStoreLoad db address = some v4 →
      SameKeys v3 v4 ∧ identityStoreLoad db' address = some (completedRow allWork v3 v4)

/-- The preparation of a sibling. -/
theorem keyringEnsureV4Sibling_kept (H : Hashes) (hW : W.Lawful) (hdb : WellWrapped W kr.db)
    (hsession : session.Sound W kr.db) (v3Address : Bytes) (fresh : Fresh) :
    ∃ kr' session' result, keyringEnsureV4Sibling H W kr v3Address session fresh = (kr', session', result) ∧
      Kept W session.passphrase true kr.db kr'.db ∧
      (∀ address, identityStoreLoad kr'.db address = identityStoreLoad kr.db address ∨
        CompletesSibling H W session.passphrase v3Address kr.db kr'.db address) ∧
      session'.passphrase = session.passphrase ∧ session'.Sound W kr'.db ∧
      ∀ v4Address created, result = .ok (v4Address, created) → ∃ v3 keys,
        identityStoreLoad kr.db v3Address = some v3 ∧ rowKeys W kr.db v3 session.passphrase = some keys ∧
        v4SiblingAddress H v3 = some v4Address ∧
        HasSibling W session.passphrase v3 keys v4Address kr.db kr'.db := by
  have hrefl : Kept W session.passphrase true kr.db kr.db := .refl _ _ _ _
  unfold keyringEnsureV4Sibling
  rcases hrow : identityStoreLoad kr.db v3Address with _ | v3
  · exact ⟨_, _, _, rfl, hrefl, fun _ => .inl rfl, rfl, hsession, fun _ _ h => by cases h⟩
  simp only
  split_ifs with hversion
  · exact ⟨_, _, _, rfl, hrefl, fun _ => .inl rfl, rfl, hsession, fun _ _ h => by cases h⟩
  obtain ⟨hpassphrase, hsound, hkek⟩ :=
    @convertKek_sound W (ConvertStore.start ⟨kr.db, .empty, [], .empty⟩ []) session allWork v3 hsession
  have hvault : (ConvertStore.start ⟨kr.db, .empty, [], .empty⟩ []).readVault allWork = kr.db := rfl
  rw [hvault] at hpassphrase hsound hkek
  rcases hkeys : (convertKek W kr.db v3 session).2.bind fun kek => unwrapKeys W kek v3.address v3 with _ | keys
  · exact ⟨_, _, _, rfl, hrefl, fun _ => .inl rfl, hpassphrase, hsound, fun _ _ h => by cases h⟩
  simp only
  rcases hencoded : addressEncode H 4 v3.stream (addressCalcRipe H v3.signingPubkey v3.encryptionPubkey) with _ | encoded
  · exact ⟨_, _, _, rfl, hrefl, fun _ => .inl rfl, hpassphrase, hsound, fun _ _ h => by cases h⟩
  have haddress : v4SiblingAddress H v3 = some (toAddressBuffer encoded) := by
    rw [v4SiblingAddress, hencoded, Option.map_some]
  simp only
  rcases hs : siblingRow W kr v3 keys (toAddressBuffer encoded) (convertKek W kr.db v3 session).1 fresh with _ | ⟨kr', v4⟩
  · exact ⟨_, _, _, rfl, hrefl, fun _ => .inl rfl, hpassphrase, hsound, fun _ _ h => by cases h⟩
  obtain ⟨hkept, hsibling⟩ := siblingRow_kept hW hdb hsound (length_v4SiblingAddress haddress) hs
  rw [hpassphrase] at hkept hsibling
  refine ⟨_, _, _, rfl, ?_⟩
  have hentry : (if (keyringFindByAddress kr' v3.address).isSome ∧
        (keyringFindByAddress kr' (toAddressBuffer encoded)).isNone then
      addUnlockedEntry H kr' v4 keys fresh.now else kr').db = kr'.db := by
    split_ifs
    · rfl
    · rfl
  rw [hentry]
  obtain ⟨kek, hk, hkeys⟩ := Option.bind_eq_some_iff.mp hkeys
  have hresolve : resolveKekForRow W kr.db v3 session.passphrase = some kek := hkek kek hk
  have hopens : rowKeys W kr.db v3 session.passphrase = some keys := by
    rw [rowKeys, hresolve, Option.bind_some, hkeys]
  obtain ⟨hother, hself⟩ := siblingRow_load (length_v4SiblingAddress haddress) hs
  refine ⟨hkept, fun address => ?_, hpassphrase, hsound.kept hkept, ?_⟩
  · by_cases ha : address = toAddressBuffer encoded
    · subst ha
      exact .inr ⟨v3, hrow, by rw [hopens]; rfl, haddress, hself⟩
    · exact .inl (hother address ha)
  · rintro _ _ ⟨⟩
    exact ⟨v3, keys, rfl, hopens, haddress, hsibling⟩

end

/-- `convert_one_v3_to_v4` on the keyring. The messages are renamed before the row is deleted, which
may fail; the flag says that it returned 0. -/
def keyringConvertOneV3ToV4 (H : Hashes) (W : KeyWrapping) (kr : Keyring) (v3Address : Bytes) (session : ConvertSession)
    (fresh : Fresh) (renames : Bool) : Keyring × ConvertSession × Bool :=
  match keyringEnsureV4Sibling H W kr v3Address session fresh with
  | (kr, session, .error _) => (kr, session, false)
  | (kr, session, .ok _) => if renames then (keyringDeleteIdentity kr v3Address, session, true) else (kr, session, false)

/-- It is the conversion whose every step works. -/
theorem convertOneV3ToV4_allWork (H : Hashes) (W : KeyWrapping) (v3Address : Bytes) (session : ConvertSession)
    (fresh : Fresh) (s : ConvertState) :
    let converted := s.convertOneV3ToV4 H W allWork v3Address session fresh
    (converted.1.keyring, converted.2.1, converted.2.2.error.isNone) =
      keyringConvertOneV3ToV4 H W s.keyring v3Address session fresh true := by
  obtain ⟨s', hs', he, hd⟩ := ConvertState.ensureV4Sibling_allWork (H := H) (W := W) v3Address session fresh s
  unfold ConvertState.convertOneV3ToV4 keyringConvertOneV3ToV4
  rw [hs']
  rcases hk : keyringEnsureV4Sibling H W s.keyring v3Address session fresh with ⟨kr', session', e | ⟨v4Address, created⟩⟩
  all_goals
    rw [hk] at he hd
    have hkeyring : s'.keyring = kr' := by
      rw [ConvertState.keyring, he, hd]
      rfl
  · simp only [hkeyring, Option.isNone_some]
  · simp only [ConvertState.renameOwnAddress, ConvertState.deleteIdentity, ConvertState.write_allWork, if_true]
    rw [← hkeyring]
    rfl

/-! ### The calls -/

/-- The calls, each with its passphrase. An import with a master key names the passphrase that the
key was resolved with. -/
inductive VaultOp
  | createIdentity (new : NewIdentity) (passphrase : Bytes) (fresh : Fresh)
  | resolveOrCreateVaultMasterKek (passphrase : Bytes) (fresh : Fresh)
  | importIdentityWithMasterKek (new : NewIdentity) (masterKek passphrase : Bytes) (fresh : Fresh)
  | importIdentity (new : NewIdentity) (passphrase : Bytes) (fresh : Fresh)
  | unlock (address passphrase : Bytes) (now : ℤ)
  | unlockAll (passphrase : Bytes) (maxIdentities : ℕ) (fresh : ℕ → Fresh)
  | unlockAddresses (passphrase : Bytes) (addresses : List Bytes) (fresh : ℕ → Fresh)
  | convertOneV3ToV4 (v3Address : Bytes) (session : ConvertSession) (fresh : Fresh) (renames : Bool)

namespace VaultOp

/-- The passphrase of the call. -/
def passphrase : VaultOp → Bytes
  | .createIdentity _ passphrase _ => passphrase
  | .resolveOrCreateVaultMasterKek passphrase _ => passphrase
  | .importIdentityWithMasterKek _ _ passphrase _ => passphrase
  | .importIdentity _ passphrase _ => passphrase
  | .unlock _ passphrase _ => passphrase
  | .unlockAll passphrase _ _ => passphrase
  | .unlockAddresses passphrase _ _ => passphrase
  | .convertOneV3ToV4 _ session _ _ => session.passphrase

/-- The call writes labels and flags. -/
def relabels : VaultOp → Bool
  | .convertOneV3ToV4 _ _ _ _ => true
  | _ => false

/-- The callers hand on the master key that they resolved with the passphrase, and the session of the
conversions before. -/
def Allowed (W : KeyWrapping) (db : IdentityStore) : VaultOp → Prop
  | .importIdentityWithMasterKek _ masterKek passphrase _ => vaultMasterKek W db passphrase = some masterKek
  | .convertOneV3ToV4 _ session _ _ => session.Sound W db
  | _ => True

end VaultOp

instance (W : KeyWrapping) (db : IdentityStore) (session : ConvertSession) : Decidable (session.Sound W db) :=
  match h : session.masterKek with
  | some (some masterKek) => decidable_of_iff (vaultMasterKek W db session.passphrase = some masterKek)
      (by simp [ConvertSession.Sound, h])
  | some none => isTrue (by simp [ConvertSession.Sound, h])
  | none => isTrue (by simp [ConvertSession.Sound, h])

instance (W : KeyWrapping) (db : IdentityStore) : ∀ op : VaultOp, Decidable (op.Allowed W db)
  | .importIdentityWithMasterKek _ masterKek passphrase _ =>
    inferInstanceAs (Decidable (vaultMasterKek W db passphrase = some masterKek))
  | .convertOneV3ToV4 _ session _ _ => inferInstanceAs (Decidable (session.Sound W db))
  | .createIdentity _ _ _ => isTrue trivial
  | .resolveOrCreateVaultMasterKek _ _ => isTrue trivial
  | .importIdentity _ _ _ => isTrue trivial
  | .unlock _ _ _ => isTrue trivial
  | .unlockAll _ _ _ => isTrue trivial
  | .unlockAddresses _ _ _ => isTrue trivial

section

variable (H : Hashes) (W : KeyWrapping)

/-- The keyring after a call. -/
def vaultApply (kr : Keyring) : VaultOp → Keyring
  | .createIdentity new passphrase fresh =>
    { kr with db := (keyringCreateIdentity W kr.db new passphrase fresh).getD kr.db }
  | .resolveOrCreateVaultMasterKek passphrase fresh =>
    { kr with db := ((keyringResolveOrCreateVaultMasterKek W kr.db passphrase fresh).map Prod.snd).getD kr.db }
  | .importIdentityWithMasterKek new masterKek _ fresh =>
    { kr with db := (keyringImportIdentityWithMasterKek W kr.db new masterKek fresh).getD kr.db }
  | .importIdentity new passphrase fresh => { kr with db := (keyringImportIdentity W kr.db new passphrase fresh).1 }
  | .unlock address passphrase now => (keyringUnlock H W kr address passphrase now).getD kr
  | .unlockAll passphrase maxIdentities fresh => (keyringUnlockAllWithLimit H W kr passphrase maxIdentities fresh).1
  | .unlockAddresses passphrase addresses fresh => (keyringUnlockAddresses H W kr passphrase addresses fresh).1
  | .convertOneV3ToV4 v3Address session fresh renames =>
    (keyringConvertOneV3ToV4 H W kr v3Address session fresh renames).1

def vaultStep (kr : Keyring) (op : VaultOp) : Option Keyring :=
  if op.Allowed W kr.db then some (vaultApply H W kr op) else none

/-- The call is a conversion that deletes the row. -/
def VaultOp.Deletes (kr : Keyring) (address : Bytes) : VaultOp → Prop
  | .convertOneV3ToV4 v3Address session fresh renames =>
    v3Address = address ∧ (keyringConvertOneV3ToV4 H W kr v3Address session fresh renames).2.2 = true
  | _ => False

/-- What a call leaves: the vault, every row that it does not delete, new rows for its own passphrase
only, of the other rows those that a conversion does not complete as they are, and the sibling of a row that
it deletes. -/
structure VaultSafe (kr : Keyring) (op : VaultOp) (kr' : Keyring) : Prop where
  vault : ∀ vault, kr.db.vault = some vault → kr'.db.vault = some vault
  row : ∀ address row, identityStoreLoad kr.db address = some row → ¬ op.Deletes H W kr address →
    ∃ row', identityStoreLoad kr'.db address = some row' ∧ RowKept W op.passphrase op.relabels kr.db kr'.db row row'
  stored : ∀ address, identityStoreLoad kr.db address = none → ∀ passphrase,
    (keyringExport W kr'.db address passphrase).isSome → passphrase = op.passphrase
  converted : ∀ v3Address session fresh renames, op = .convertOneV3ToV4 v3Address session fresh renames →
    ∀ address, ¬ op.Deletes H W kr address → identityStoreLoad kr'.db address = identityStoreLoad kr.db address ∨
      CompletesSibling H W session.passphrase v3Address kr.db kr'.db address
  deleted : ∀ address row, identityStoreLoad kr.db address = some row → op.Deletes H W kr address →
    identityStoreLoad kr'.db address = none ∧ ∃ keys, rowKeys W kr.db row op.passphrase = some keys ∧
      (IsV3 H row → ∃ v4Address, v4SiblingAddress H row = some v4Address ∧
        HasSibling W op.passphrase row keys v4Address kr.db kr'.db)

variable {H W} {kr kr' : Keyring} {op : VaultOp}

/-- A call that keeps the rows and deletes none. -/
theorem vaultSafe_of_kept (hdb : WellWrapped W kr.db) (hdeletes : ∀ address, ¬ op.Deletes H W kr address)
    (hconverted : ∀ v3Address session fresh renames, op = .convertOneV3ToV4 v3Address session fresh renames →
      ∀ address, identityStoreLoad kr'.db address = identityStoreLoad kr.db address ∨
        CompletesSibling H W session.passphrase v3Address kr.db kr'.db address)
    (h : Kept W op.passphrase op.relabels kr.db kr'.db) : WellWrapped W kr'.db ∧ VaultSafe H W kr op kr' := by
  refine ⟨h.wellWrapped hdb, h.vault, fun address row hrow _ => h.row address row hrow, ?_,
    fun v3Address session fresh renames hop address _ => hconverted v3Address session fresh renames hop address, ?_⟩
  · intro address hnone passphrase hopens
    rw [keyringExport_eq] at hopens
    rcases hrow' : identityStoreLoad kr'.db address with _ | row'
    · rw [hrow'] at hopens
      cases hopens
    · rw [hrow', Option.bind_some] at hopens
      exact h.stored address row' hnone hrow' passphrase hopens
  · intro address row _ hdeleted
    exact absurd hdeleted (hdeletes address)

theorem WellWrapped.delete {db : IdentityStore} (h : WellWrapped W db) (address : Bytes) :
    WellWrapped W (identityStoreDelete db address) := by
  have hload (a : Bytes) (row : IdentityRow) (hrow : identityStoreLoad (identityStoreDelete db address) a = some row) :
      identityStoreLoad db a = some row := by
    by_cases ha : a = address
    · rw [ha, load_delete_self] at hrow
      cases hrow
    · rwa [load_delete_of_ne db ha] at hrow
  have hkeys (row : IdentityRow) (passphrase : Bytes) :
      rowKeys W (identityStoreDelete db address) row passphrase = rowKeys W db row passphrase :=
    rowKeys_congr rfl (.refl row) passphrase
  refine ⟨h.vault, fun hnone a row hrow => h.scrypt hnone a row (hload a row hrow), ?_⟩
  intro a row hrow passphrase passphrase' hp hp'
  rw [hkeys] at hp hp'
  exact h.exact a row (hload a row hrow) passphrase passphrase' hp hp'

/-- The version 3 row is deleted behind its sibling. -/
theorem vaultSafe_of_delete {v3Address v4Address : Bytes} {session : ConvertSession} {fresh : Fresh} {v3 : IdentityRow}
    {keys : PrivateKeys} (hdb : WellWrapped W kr.db) (hkept : Kept W session.passphrase true kr.db kr'.db)
    (hrow : identityStoreLoad kr.db v3Address = some v3) (hkeys : rowKeys W kr.db v3 session.passphrase = some keys)
    (haddress : v4SiblingAddress H v3 = some v4Address)
    (hsibling : HasSibling W session.passphrase v3 keys v4Address kr.db kr'.db)
    (hrows : ∀ address, identityStoreLoad kr'.db address = identityStoreLoad kr.db address ∨
      CompletesSibling H W session.passphrase v3Address kr.db kr'.db address)
    (hdeletes : ∀ address, (VaultOp.convertOneV3ToV4 v3Address session fresh true).Deletes H W kr address ↔
      v3Address = address) :
    WellWrapped W (keyringDeleteIdentity kr' v3Address).db ∧
      VaultSafe H W kr (.convertOneV3ToV4 v3Address session fresh true) (keyringDeleteIdentity kr' v3Address) := by
  have hdeleted : (keyringDeleteIdentity kr' v3Address).db = identityStoreDelete kr'.db v3Address := rfl
  have hsame (row : IdentityRow) (passphrase : Bytes) :
      rowKeys W (identityStoreDelete kr'.db v3Address) row passphrase = rowKeys W kr'.db row passphrase :=
    rowKeys_congr rfl (.refl row) passphrase
  have hexport (a passphrase : Bytes) (ha : a ≠ v3Address) :
      keyringExport W (identityStoreDelete kr'.db v3Address) a passphrase = keyringExport W kr'.db a passphrase := by
    rw [keyringExport_eq, keyringExport_eq, load_delete_of_ne _ ha]
    simp only [hsame]
  rw [hdeleted]
  refine ⟨(hkept.wellWrapped hdb).delete v3Address, hkept.vault, ?_, ?_, ?_, ?_⟩
  · intro a row hload hnot
    have ha : a ≠ v3Address := fun he => hnot ((hdeletes a).mpr he.symm)
    obtain ⟨row', hrow', hk⟩ := hkept.row a row hload
    refine ⟨row', (load_delete_of_ne _ ha).trans hrow', ?_, hk.sameKeys, hk.wrapping, hk.untouched, hk.columns⟩
    intro passphrase
    rw [hdeleted, hsame, hk.keys]
  · intro a hnone passphrase hopens
    have ha : a ≠ v3Address := by
      rintro rfl
      rw [hrow] at hnone
      cases hnone
    rw [hdeleted, hexport a passphrase ha, keyringExport_eq] at hopens
    rcases hrow' : identityStoreLoad kr'.db a with _ | row'
    · rw [hrow'] at hopens
      cases hopens
    · rw [hrow', Option.bind_some] at hopens
      exact hkept.stored a row' hnone hrow' passphrase hopens
  · rintro _ _ _ _ ⟨⟩ a hnot
    have ha : a ≠ v3Address := fun he => hnot ((hdeletes a).mpr he.symm)
    unfold CompletesSibling
    rw [hdeleted, load_delete_of_ne _ ha]
    exact hrows a
  · intro a row hload hdel
    obtain rfl := (hdeletes a).mp hdel
    rw [hrow] at hload
    cases hload
    refine ⟨load_delete_self _ _, keys, hkeys, fun hv3 => ?_⟩
    obtain ⟨v4Address', haddress', hne⟩ := hv3.sibling
    rw [haddress] at haddress'
    cases haddress'
    rw [identityStoreLoad_address hrow] at hne
    obtain ⟨v4, hv4, hpub⟩ := hsibling.stored
    refine ⟨v4Address, haddress, ⟨v4, (load_delete_of_ne _ hne).trans hv4, hpub⟩, ?_⟩
    intro hnone
    rw [hdeleted, hexport v4Address _ hne]
    exact hsibling.made hnone

/-- One call is safe and keeps the tables well wrapped. -/
theorem vaultSafe_of_step (hW : W.Lawful) (hdb : WellWrapped W kr.db) (h : vaultStep H W kr op = some kr') :
    WellWrapped W kr'.db ∧ VaultSafe H W kr op kr' := by
  unfold vaultStep at h
  split_ifs at h with hallowed
  cases h
  cases op with
  | createIdentity new passphrase fresh =>
    refine vaultSafe_of_kept hdb (fun _ h => h) (by rintro _ _ _ _ ⟨⟩) ?_
    simp only [vaultApply]
    rcases hc : keyringCreateIdentity W kr.db new passphrase fresh with _ | db
    · exact .refl _ _ _ _
    · exact keyringCreateIdentity_kept hW hc
  | resolveOrCreateVaultMasterKek passphrase fresh =>
    refine vaultSafe_of_kept hdb (fun _ h => h) (by rintro _ _ _ _ ⟨⟩) ?_
    simp only [vaultApply]
    rcases hr : keyringResolveOrCreateVaultMasterKek W kr.db passphrase fresh with _ | ⟨masterKek, db⟩
    · exact .refl _ _ _ _
    · exact keyringResolveOrCreateVaultMasterKek_kept hW hdb hr
  | importIdentityWithMasterKek new masterKek passphrase fresh =>
    refine vaultSafe_of_kept hdb (fun _ h => h) (by rintro _ _ _ _ ⟨⟩) ?_
    simp only [vaultApply]
    rcases hi : keyringImportIdentityWithMasterKek W kr.db new masterKek fresh with _ | db
    · exact .refl _ _ _ _
    · exact keyringImportIdentityWithMasterKek_kept hW hdb hallowed hi
  | importIdentity new passphrase fresh =>
    exact vaultSafe_of_kept hdb (fun _ h => h) (by rintro _ _ _ _ ⟨⟩) (keyringImportIdentity_kept hW hdb)
  | unlock address passphrase now =>
    refine vaultSafe_of_kept hdb (fun _ h => h) (by rintro _ _ _ _ ⟨⟩) ?_
    simp only [vaultApply]
    rcases hu : keyringUnlock H W kr address passphrase now with _ | kr₁
    · exact .refl _ _ _ _
    · obtain ⟨_, _, -, -, rfl⟩ := keyringUnlock_eq_some hu
      exact .refl _ _ _ _
  | unlockAll passphrase maxIdentities fresh =>
    refine vaultSafe_of_kept hdb (fun _ h => h) (by rintro _ _ _ _ ⟨⟩) ?_
    simp only [vaultApply, keyringUnlockAllWithLimit]
    split_ifs
    · exact .refl _ _ _ _
    · exact unlockBulk_kept H hW hdb (unlockBulkBegin_sound kr.db) _ fresh
  | unlockAddresses passphrase addresses fresh =>
    refine vaultSafe_of_kept hdb (fun _ h => h) (by rintro _ _ _ _ ⟨⟩) ?_
    exact unlockBulk_kept H hW hdb (unlockBulkBegin_sound kr.db) addresses fresh
  | convertOneV3ToV4 v3Address session fresh renames =>
    obtain ⟨kr₁, session₁, result, hensure, hkept, hrows, -, -, hok⟩ :=
      keyringEnsureV4Sibling_kept H hW hdb hallowed v3Address fresh
    rcases result with e | ⟨v4Address, created⟩
    · have happly : vaultApply H W kr (.convertOneV3ToV4 v3Address session fresh renames) = kr₁ := by
        simp [vaultApply, keyringConvertOneV3ToV4, hensure]
      rw [happly]
      refine vaultSafe_of_kept hdb ?_ (by rintro _ _ _ _ ⟨⟩; exact hrows) hkept
      simp [VaultOp.Deletes, keyringConvertOneV3ToV4, hensure]
    · obtain ⟨v3, keys, hrow, hkeys, haddress, hsibling⟩ := hok v4Address created rfl
      cases renames with
      | false =>
        have happly : vaultApply H W kr (.convertOneV3ToV4 v3Address session fresh false) = kr₁ := by
          simp [vaultApply, keyringConvertOneV3ToV4, hensure]
        rw [happly]
        refine vaultSafe_of_kept hdb ?_ (by rintro _ _ _ _ ⟨⟩; exact hrows) hkept
        simp [VaultOp.Deletes, keyringConvertOneV3ToV4, hensure]
      | true =>
        have happly : vaultApply H W kr (.convertOneV3ToV4 v3Address session fresh true) =
            keyringDeleteIdentity kr₁ v3Address := by
          simp [vaultApply, keyringConvertOneV3ToV4, hensure]
        rw [happly]
        refine vaultSafe_of_delete hdb hkept hrow hkeys haddress hsibling hrows ?_
        simp [VaultOp.Deletes, keyringConvertOneV3ToV4, hensure]

/-- A row that a call does not delete gives the same keys to every passphrase. -/
theorem VaultSafe.keyringExport (h : VaultSafe H W kr op kr') {address : Bytes}
    (hrow : (identityStoreLoad kr.db address).isSome) (hdeletes : ¬ op.Deletes H W kr address) (passphrase : Bytes) :
    (identityStoreLoad kr'.db address).isSome ∧
      Bitmessage.keyringExport W kr'.db address passphrase = Bitmessage.keyringExport W kr.db address passphrase := by
  obtain ⟨row, hload⟩ := Option.isSome_iff_exists.mp hrow
  obtain ⟨row', hload', hk⟩ := h.row address row hload hdeletes
  rw [keyringExport_eq, keyringExport_eq, hload, hload', Option.bind_some, Option.bind_some, hk.keys]
  exact ⟨rfl, rfl⟩

/-- A master key that was resolved, and a session, stay good in every later state. -/
theorem VaultSafe.allowed (h : VaultSafe H W kr op kr') {op' : VaultOp} (hallowed : op'.Allowed W kr.db) :
    op'.Allowed W kr'.db := by
  have hm {passphrase masterKek : Bytes} (hm : vaultMasterKek W kr.db passphrase = some masterKek) :
      vaultMasterKek W kr'.db passphrase = some masterKek := by
    obtain ⟨vault, hvault, -⟩ := Option.bind_eq_some_iff.mp hm
    rw [vaultMasterKek_congr ((h.vault vault hvault).trans hvault.symm), hm]
  cases op' with
  | importIdentityWithMasterKek new masterKek passphrase fresh => exact hm hallowed
  | convertOneV3ToV4 v3Address session fresh renames => exact fun masterKek hk => hm (hallowed masterKek hk)
  | _ => trivial

/-- The master key that is resolved is the one that an import may use. -/
theorem keyringResolveOrCreateVaultMasterKek_allowed (hW : W.Lawful) {passphrase masterKek : Bytes}
    {fresh fresh' : Fresh} {db : IdentityStore} (new : NewIdentity)
    (h : keyringResolveOrCreateVaultMasterKek W kr.db passphrase fresh = some (masterKek, db)) :
    (VaultOp.importIdentityWithMasterKek new masterKek passphrase fresh').Allowed W db :=
  (keyringResolveOrCreateVaultMasterKek_masterKek hW h).1

/-- The session that a conversion hands back is one that the next conversion may use. -/
theorem keyringConvertOneV3ToV4_allowed (hW : W.Lawful) (hdb : WellWrapped W kr.db) {session : ConvertSession}
    (hsession : session.Sound W kr.db) (v3Address v3Address' : Bytes) (fresh fresh' : Fresh) (renames renames' : Bool) :
    let converted := keyringConvertOneV3ToV4 H W kr v3Address session fresh renames
    (VaultOp.convertOneV3ToV4 v3Address' converted.2.1 fresh' renames').Allowed W converted.1.db := by
  obtain ⟨kr₁, session₁, result, hensure, -, -, -, hsound, -⟩ :=
    keyringEnsureV4Sibling_kept H hW hdb hsession v3Address fresh
  unfold keyringConvertOneV3ToV4
  rw [hensure]
  rcases result with e | ok
  · exact hsound
  · cases renames with
    | false => exact hsound
    | true => exact fun masterKek hm => (vaultMasterKek_congr rfl session₁.passphrase).trans (hsound masterKek hm)

end

/-! ### Every sequence of calls -/

section

variable {H : Hashes} {W : KeyWrapping} {kr : Keyring}

theorem along_vaultSafe (hW : W.Lawful) (hdb : WellWrapped W kr.db) (ops : List VaultOp) :
    Along (vaultStep H W)
      (fun kr op => ∀ kr', vaultStep H W kr op = some kr' → WellWrapped W kr'.db ∧ VaultSafe H W kr op kr') kr ops := by
  induction ops generalizing kr with
  | nil => trivial
  | cons op ops ih =>
    exact ⟨fun kr' h => vaultSafe_of_step hW hdb h, fun kr' h => ih (vaultSafe_of_step hW hdb h).1⟩

/-- In every sequence of calls, each call is safe; the vault that is there stays the vault to the end; and
a row that no conversion deletes gives, to every passphrase, what it gave in the beginning. -/
theorem vault_safety (hW : W.Lawful) (hdb : WellWrapped W kr.db) (ops : List VaultOp) :
    Along (vaultStep H W)
        (fun kr op => ∀ kr', vaultStep H W kr op = some kr' → WellWrapped W kr'.db ∧ VaultSafe H W kr op kr') kr ops ∧
      (∀ vault, Persistent (vaultStep H W) (fun kr => kr.db.vault = some vault) kr ops) ∧
      ∀ address, Along (vaultStep H W) (fun kr op => ¬ op.Deletes H W kr address) kr ops →
        ∀ passphrase keys, Persistent (vaultStep H W)
          (fun kr => (identityStoreLoad kr.db address).isSome ∧ keyringExport W kr.db address passphrase = keys)
          kr ops := by
  have hsafe := along_vaultSafe (H := H) hW hdb ops
  refine ⟨hsafe, fun vault => persistent_iff_along.mpr ?_, fun address hkept passphrase keys => ?_⟩
  · apply hsafe.imp
    intro kr op h hvault kr' hstep
    exact (h kr' hstep).2.vault vault hvault
  · rw [persistent_iff_along]
    refine (hsafe.and hkept).imp ?_
    rintro kr op ⟨h, hdeletes⟩ ⟨hrow, rfl⟩ kr' hstep
    exact (h kr' hstep).2.keyringExport hrow hdeletes passphrase

end

/-! ### A conversion beside a vault -/

/-- An identity of version 3 with a label. -/
def chanNew : NewIdentity :=
  ⟨chanAddress, [0x63], 3, 1, storedIdentity.signingPubkey, storedIdentity.encryptionPubkey,
    ⟨List.replicate 32 3, List.replicate 32 4⟩, 1000, 1000⟩

/-- It is stored behind `pw`, its sibling is stored without a label, another passphrase makes the vault, and
then it is converted. -/
def convertBesideVault : List VaultOp :=
  [.createIdentity chanNew [0x70, 0x77] zeroFresh,
    .createIdentity { chanNew with address := chanSibling, label := [], addressVersion := 4 } [0x70, 0x77] zeroFresh,
    .resolveOrCreateVaultMasterKek [0x71] zeroFresh,
    .convertOneV3ToV4 chanAddress chanSession zeroFresh true]

/-- The calls are safe. -/
theorem convertBesideVault_safe :
    Along (vaultStep plainCrypto.toHashes framedWrapping)
      (fun kr op => ∀ kr', vaultStep plainCrypto.toHashes framedWrapping kr op = some kr' →
        WellWrapped framedWrapping kr'.db ∧ VaultSafe plainCrypto.toHashes framedWrapping kr op kr')
      (keyringInit emptyStore) convertBesideVault :=
  (vault_safety framedWrapping_lawful (emptyStore_wellWrapped framedWrapping) convertBesideVault).1

/-- The row of version 3 opens to nothing after its conversion, and the row of the sibling is written with a
passphrase that does not open the vault. -/
theorem convertBesideVault_not_kept :
    ¬ Along (vaultStep plainCrypto.toHashes framedWrapping)
        (fun kr op => ∀ kr', vaultStep plainCrypto.toHashes framedWrapping kr op = some kr' →
          ∀ address passphrase, (keyringExport framedWrapping kr.db address passphrase).isSome →
            (keyringExport framedWrapping kr'.db address passphrase).isSome)
        (keyringInit emptyStore) convertBesideVault ∧
      ¬ Along (vaultStep plainCrypto.toHashes framedWrapping)
        (fun kr op => ∀ kr', vaultStep plainCrypto.toHashes framedWrapping kr op = some kr' →
          kr.db.vault.isSome → vaultMasterKek framedWrapping kr.db op.passphrase = none →
          ∀ address, (identityStoreLoad kr.db address).isSome → (identityStoreLoad kr'.db address).isSome →
            identityStoreLoad kr'.db address = identityStoreLoad kr.db address)
        (keyringInit emptyStore) convertBesideVault := by
  constructor
  · intro h
    have hconverted := (((h.2 _ rfl).2 _ rfl).2 _ rfl).1 _ rfl chanAddress [0x70, 0x77] (by decide +kernel)
    revert hconverted
    decide +kernel
  · intro h
    have hsame := (((h.2 _ rfl).2 _ rfl).2 _ rfl).1 _ rfl (by decide +kernel) (by decide +kernel) chanSibling
      (by decide +kernel) (by decide +kernel)
    have hlabel := congrArg (Option.map IdentityRow.label) hsame
    revert hlabel
    decide +kernel

end Bitmessage
