import Bitmessage.Core.Conversion

/-! What is kept when rows are written with a passphrase. A row is inserted that opens to the
passphrase only; the vault is made when there is none; a row is wrapped anew under the vault
when the passphrase opens both; a label or a flag is set. None of this changes what a
stored row gives to any passphrase, and a row that is shut to the passphrase keeps its
wrapping. -/

namespace Bitmessage

/-! ### The vault -/

/-- The vault was made with the passphrase, and this is its master key. -/
structure VaultOf (W : KeyWrapping) (vault : KdfVault) (passphrase masterKek : Bytes) : Prop where
  derived : (vault.kdfParams.bind fun params => W.deriveKek passphrase vault.vaultSalt params) = some masterKek
  canary : ∃ nonce, W.wrap masterKek vaultCanaryAad vaultCanaryPlaintext nonce = some vault.canary

/-- No row hangs on a vault. -/
def ScryptOnly (db : IdentityStore) : Prop :=
  ∀ address row, identityStoreLoad db address = some row → row.kdfAlgo = .scrypt

/-- The state of the tables: the vault was made with a passphrase, rows hang on it when it is
there only, and a row opens to one passphrase at most. -/
structure WellWrapped (W : KeyWrapping) (db : IdentityStore) : Prop where
  vault : ∀ vault, db.vault = some vault → ∃ passphrase masterKek, VaultOf W vault passphrase masterKek
  scrypt : db.vault = none → ScryptOnly db
  exact : ∀ address row, identityStoreLoad db address = some row → ∀ passphrase passphrase',
    (rowKeys W db row passphrase).isSome → (rowKeys W db row passphrase').isSome → passphrase' = passphrase

/-- The tables of a new `identity.db`. -/
def emptyStore : IdentityStore := ⟨.empty, none⟩

theorem emptyStore_wellWrapped (W : KeyWrapping) : WellWrapped W emptyStore where
  vault := fun _ h => by cases h
  scrypt := fun _ _ _ h => by cases h
  exact := fun _ _ h => by cases h

section

variable {W : KeyWrapping} {db db' : IdentityStore} {passphrase masterKek : Bytes} {row : IdentityRow}

/-- The canary lets one passphrase through. -/
theorem VaultOf.vaultMasterKek_eq_some (hW : W.Lawful) {vault : KdfVault} (h : VaultOf W vault passphrase masterKek)
    (hvault : db.vault = some vault) {passphrase' masterKek' : Bytes} :
    vaultMasterKek W db passphrase' = some masterKek' ↔ passphrase' = passphrase ∧ masterKek' = masterKek := by
  obtain ⟨nonce, hcanary⟩ := h.canary
  obtain ⟨params, hparams, hderived⟩ := Option.bind_eq_some_iff.mp h.derived
  rw [vaultMasterKek, hvault, Option.bind_some, hparams, Option.bind_some, Option.filter_eq_some_iff]
  unfold verifyVaultCanary
  rw [decide_eq_true_eq]
  constructor
  · rintro ⟨hderived', hcheck⟩
    obtain ⟨rfl, -⟩ := hW.unwrap_only hcanary hcheck
    exact ⟨hW.deriveKek_inj hderived hderived', rfl⟩
  · rintro ⟨rfl, rfl⟩
    exact ⟨hderived, hW.unwrap_wrap hcanary⟩

theorem WellWrapped.masterKek_unique (hW : W.Lawful) (h : WellWrapped W db)
    (hm : vaultMasterKek W db passphrase = some masterKek) {passphrase' : Bytes}
    (hm' : (vaultMasterKek W db passphrase').isSome) : passphrase' = passphrase := by
  obtain ⟨masterKek', hm'⟩ := Option.isSome_iff_exists.mp hm'
  obtain ⟨vault, hvault, -⟩ := Option.bind_eq_some_iff.mp hm
  obtain ⟨_, _, hof⟩ := h.vault vault hvault
  rw [((hof.vaultMasterKek_eq_some hW hvault).mp hm).1, ((hof.vaultMasterKek_eq_some hW hvault).mp hm').1]

/-- A row of the vault opens to whom the vault opens. -/
theorem vaultMasterKek_of_rowKeys (hkdf : row.kdfAlgo = .vaultHkdf) (h : (rowKeys W db row passphrase).isSome) :
    (vaultMasterKek W db passphrase).isSome := by
  unfold rowKeys resolveKekForRow at h
  rw [hkdf] at h
  simp only at h
  rcases hm : vaultMasterKek W db passphrase with _ | masterKek
  · rw [hm] at h
    exact h
  · rfl

/-- A row of its own does not look at the vault. -/
theorem rowKeys_scrypt (hkdf : row.kdfAlgo = .scrypt) (passphrase : Bytes) :
    rowKeys W db' row passphrase = rowKeys W db row passphrase := by
  unfold rowKeys resolveKekForRow
  rw [hkdf]

end

/-! ### What a call with one passphrase leaves -/

/-- The passphrase does not open the row, or does not open the vault that is there. -/
def Shut (W : KeyWrapping) (passphrase : Bytes) (db : IdentityStore) (row : IdentityRow) : Prop :=
  rowKeys W db row passphrase = none ∨ db.vault.isSome ∧ vaultMasterKek W db passphrase = none

/-- The row with the wrapping of another one. -/
def IdentityRow.wrappedAs (row other : IdentityRow) : IdentityRow :=
  { row with
    kdfAlgo := other.kdfAlgo
    kdfSalt := other.kdfSalt
    kdfParams := other.kdfParams
    wrappedPrivSigningKey := other.wrappedPrivSigningKey
    wrappedPrivEncryptionKey := other.wrappedPrivEncryptionKey }

/-- A row stays: it gives the same keys to every passphrase, and a row that is shut keeps its wrapping. A
call that does not relabel rows writes nothing but the wrapping of a row. -/
structure RowKept (W : KeyWrapping) (passphrase : Bytes) (relabels : Bool) (db db' : IdentityStore)
    (row row' : IdentityRow) : Prop where
  keys : ∀ passphrase', rowKeys W db' row' passphrase' = rowKeys W db row passphrase'
  sameKeys : SameKeys row row'
  wrapping : Shut W passphrase db row → SameWrapping row row'
  untouched : Shut W passphrase db row → relabels = false → row' = row
  columns : relabels = false → row' = row.wrappedAs row'

/-- What calls with a passphrase keep and what they add. -/
structure Kept (W : KeyWrapping) (passphrase : Bytes) (relabels : Bool) (db db' : IdentityStore) : Prop where
  vault : ∀ vault, db.vault = some vault → db'.vault = some vault
  made : ∀ vault, db.vault = none → db'.vault = some vault → ∃ masterKek, VaultOf W vault passphrase masterKek
  scrypt : db'.vault = none → ScryptOnly db → ScryptOnly db'
  row : ∀ address row, identityStoreLoad db address = some row →
    ∃ row', identityStoreLoad db' address = some row' ∧ RowKept W passphrase relabels db db' row row'
  stored : ∀ address row', identityStoreLoad db address = none → identityStoreLoad db' address = some row' →
    ∀ passphrase', (rowKeys W db' row' passphrase').isSome → passphrase' = passphrase

section

variable {W : KeyWrapping} {passphrase masterKek address : Bytes} {relabels : Bool} {db db' db'' : IdentityStore}
  {row row' row'' : IdentityRow}

/-- A row that is the same stays, next to the same vault. -/
theorem RowKept.of_vault (hvault : db'.vault = db.vault) (row : IdentityRow) :
    RowKept W passphrase relabels db db' row row where
  keys := rowKeys_congr hvault (.refl row)
  sameKeys := ⟨rfl, rfl⟩
  wrapping := fun _ => .refl row
  untouched := fun _ _ => rfl
  columns := fun _ => rfl

theorem SameWrapping.trans (h : SameWrapping row row') (h' : SameWrapping row' row'') : SameWrapping row row'' :=
  ⟨h'.address.trans h.address, h'.kdfAlgo.trans h.kdfAlgo, h'.kdfSalt.trans h.kdfSalt, h'.kdfParams.trans h.kdfParams,
    h'.signing.trans h.signing, h'.encryption.trans h.encryption⟩

/-- What is shut stays shut. -/
theorem Shut.kept (hvault : ∀ vault, db.vault = some vault → db'.vault = some vault)
    (hkeys : rowKeys W db' row' passphrase = rowKeys W db row passphrase) (h : Shut W passphrase db row) :
    Shut W passphrase db' row' := by
  rcases h with hnone | ⟨hsome, hm⟩
  · exact .inl (hkeys.trans hnone)
  · obtain ⟨vault, hv⟩ := Option.isSome_iff_exists.mp hsome
    have hv' := hvault vault hv
    refine .inr ⟨Option.isSome_iff_exists.mpr ⟨vault, hv'⟩, ?_⟩
    rw [vaultMasterKek_congr (hv'.trans hv.symm), hm]

theorem Kept.refl (W : KeyWrapping) (passphrase : Bytes) (relabels : Bool) (db : IdentityStore) :
    Kept W passphrase relabels db db where
  vault := fun _ h => h
  made := fun _ hnone hsome => by
    rw [hnone] at hsome
    cases hsome
  scrypt := fun _ h => h
  row := fun _ row hrow => ⟨row, hrow, .of_vault rfl row⟩
  stored := fun _ _ hnone hsome => by
    rw [hnone] at hsome
    cases hsome

/-- One call after another. -/
theorem Kept.trans (h : Kept W passphrase relabels db db') (h' : Kept W passphrase relabels db' db'') :
    Kept W passphrase relabels db db'' where
  vault := fun vault hv => h'.vault vault (h.vault vault hv)
  made := by
    intro vault hnone hsome
    rcases hmid : db'.vault with _ | mid
    · exact h'.made vault hmid hsome
    · have hkept := h'.vault mid hmid
      rw [hkept] at hsome
      cases hsome
      exact h.made _ hnone hmid
  scrypt := by
    intro hnone honly
    have hmid : db'.vault = none := by
      rcases hmid : db'.vault with _ | mid
      · rfl
      · rw [h'.vault mid hmid] at hnone
        cases hnone
    exact h'.scrypt hnone (h.scrypt hmid honly)
  row := by
    intro address row hrow
    obtain ⟨row', hrow', hk⟩ := h.row address row hrow
    obtain ⟨row'', hrow'', hk'⟩ := h'.row address row' hrow'
    refine ⟨row'', hrow'', ?_, ?_, ?_, ?_, ?_⟩
    · intro passphrase'
      rw [hk'.keys, hk.keys]
    · exact ⟨hk'.sameKeys.1.trans hk.sameKeys.1, hk'.sameKeys.2.trans hk.sameKeys.2⟩
    · intro hshut
      exact (hk.wrapping hshut).trans (hk'.wrapping (hshut.kept h.vault (hk.keys passphrase)))
    · intro hshut hlabel
      rw [hk'.untouched (hshut.kept h.vault (hk.keys passphrase)) hlabel, hk.untouched hshut hlabel]
    · intro hlabel
      rw [hk'.columns hlabel, hk.columns hlabel]
      rfl
  stored := by
    intro address row'' hnone hsome passphrase' hopens
    rcases hrow' : identityStoreLoad db' address with _ | row'
    · exact h'.stored address row'' hrow' hsome passphrase' hopens
    · obtain ⟨_, hload, hk⟩ := h'.row address row' hrow'
      rw [hload] at hsome
      cases hsome
      rw [hk.keys] at hopens
      exact h.stored address row' hnone hrow' passphrase' hopens

theorem Kept.wellWrapped (hdb : WellWrapped W db) (h : Kept W passphrase relabels db db') : WellWrapped W db' where
  vault := by
    intro vault hv
    rcases hold : db.vault with _ | old
    · exact ⟨passphrase, h.made vault hold hv⟩
    · rw [h.vault old hold] at hv
      cases hv
      exact hdb.vault _ hold
  scrypt := by
    intro hnone
    have hold : db.vault = none := by
      rcases hold : db.vault with _ | old
      · rfl
      · rw [h.vault old hold] at hnone
        cases hnone
    exact h.scrypt hnone (hdb.scrypt hold)
  exact := by
    intro address row' hrow' p p' hp hp'
    rcases hrow : identityStoreLoad db address with _ | row
    · rw [h.stored address row' hrow hrow' p hp, h.stored address row' hrow hrow' p' hp']
    · obtain ⟨_, hload, hk⟩ := h.row address row hrow
      rw [hload] at hrow'
      cases hrow'
      rw [hk.keys] at hp hp'
      exact hdb.exact address row hrow p p' hp hp'

/-- A call that writes no label may be one that does. -/
theorem Kept.weaken (h : Kept W passphrase false db db') : Kept W passphrase true db db' where
  vault := h.vault
  made := h.made
  scrypt := h.scrypt
  row := by
    intro address row hrow
    obtain ⟨row', hrow', hk⟩ := h.row address row hrow
    exact ⟨row', hrow', hk.keys, hk.sameKeys, hk.wrapping, fun _ hlabel => (by cases hlabel),
      fun hlabel => (by cases hlabel)⟩
  stored := h.stored

/-! ### The writes -/

/-- A row is inserted that opens to the passphrase only. -/
theorem Kept.insert (hi : identityStoreInsert db row = some db') (hkdf : db.vault = none → row.kdfAlgo = .scrypt)
    (hopens : ∀ passphrase', (rowKeys W db row passphrase').isSome → passphrase' = passphrase) :
    Kept W passphrase relabels db db' := by
  obtain ⟨hnew, hself, hother, hvault⟩ := identityStoreInsert_eq_some hi
  constructor
  · intro vault hv
    rw [hvault, hv]
  · intro vault hnone hsome
    rw [hvault, hnone] at hsome
    cases hsome
  · intro hnone honly a r hr
    by_cases ha : a = row.address
    · rw [ha, hself] at hr
      cases hr
      exact hkdf (hvault ▸ hnone)
    · rw [hother a ha] at hr
      exact honly a r hr
  · intro a r hr
    have ha : a ≠ row.address := by
      rintro rfl
      rw [hnew] at hr
      cases hr
    exact ⟨r, (hother a ha).trans hr, .of_vault hvault r⟩
  · intro a r hnone hsome passphrase' hp
    by_cases ha : a = row.address
    · rw [ha, hself] at hsome
      cases hsome
      rw [rowKeys_congr hvault (.refl _)] at hp
      exact hopens passphrase' hp
    · rw [hother a ha, hnone] at hsome
      cases hsome

/-- The vault is made; every row is of its own. -/
theorem Kept.createVault (hdb : WellWrapped W db) {vault : KdfVault} (hv : VaultOf W vault passphrase masterKek)
    (hc : identityStoreCreateVault db vault = some db') : Kept W passphrase relabels db db' := by
  unfold identityStoreCreateVault at hc
  split_ifs at hc with hsome
  cases hc
  have hnone : db.vault = none := Option.not_isSome_iff_eq_none.mp hsome
  have honly := hdb.scrypt hnone
  constructor
  · intro old hold
    rw [hnone] at hold
    cases hold
  · rintro _ - ⟨⟩
    exact ⟨masterKek, hv⟩
  · intro hnone'
    cases hnone'
  · intro a r hr
    exact ⟨r, hr, rowKeys_scrypt (honly a r hr), ⟨rfl, rfl⟩, fun _ => .refl r, fun _ _ => rfl, fun _ => rfl⟩
  · intro a r hnone hsome
    have hload : identityStoreLoad db a = some r := hsome
    rw [hnone] at hload
    cases hload

/-- A row that opens to the passphrase is wrapped anew, under the vault that opens to it. -/
theorem Kept.rewrap (hW : W.Lawful) (hdb : WellWrapped W db) (hrow : identityStoreLoad db address = some row)
    {keys : PrivateKeys} (hkeys : rowKeys W db row passphrase = some keys)
    (hm : vaultMasterKek W db passphrase = some masterKek) {kek salt signing encryption : Bytes}
    (hkek : W.hkdfExpandWrapKey masterKek salt address = some kek)
    (hs : ∃ nonce, W.wrap kek address keys.signing nonce = some signing)
    (he : ∃ nonce, W.wrap kek address keys.encryption nonce = some encryption) :
    Kept W passphrase relabels db (identityStoreUpdateWrappedKeys db address salt signing encryption) := by
  have haddress := identityStoreLoad_address hrow
  have hself := load_updateWrappedKeys_self db address salt signing encryption
  rw [hrow, Option.map_some] at hself
  have hother {a : Bytes} (ha : a ≠ address) := load_updateWrappedKeys_of_ne db ha salt signing encryption
  have hsame : (identityStoreUpdateWrappedKeys db address salt signing encryption).vault = db.vault := rfl
  obtain ⟨vault, hvault, -⟩ := Option.bind_eq_some_iff.mp hm
  have hrewrapped : RowKept W passphrase relabels db
      (identityStoreUpdateWrappedKeys db address salt signing encryption) row
      { row with
        kdfAlgo := .vaultHkdf
        kdfSalt := salt
        kdfParams := none
        wrappedPrivSigningKey := signing
        wrappedPrivEncryptionKey := encryption } := by
    have hshut : ¬ Shut W passphrase db row := by
      rintro (hnone | ⟨-, hnone⟩)
      · rw [hkeys] at hnone
        cases hnone
      · rw [hm] at hnone
        cases hnone
    refine ⟨?_, ⟨rfl, rfl⟩, fun h => absurd h hshut, fun h => absurd h hshut, fun _ => rfl⟩
    intro passphrase'
    by_cases hp : passphrase' = passphrase
    · rw [hp, hkeys]
      have hm' := (vaultMasterKek_congr hsame passphrase).trans hm
      unfold rowKeys resolveKekForRow
      simp only [hm', Option.bind_some, haddress, hkek]
      exact (WrappedUnder.unwrapKeys_eq_some hW ⟨hs, he⟩).mpr ⟨rfl, rfl, rfl⟩
    · -- neither wrapping opens to another passphrase
      trans none
      · rw [← Option.not_isSome_iff_eq_none]
        intro hopens
        have hm' := vaultMasterKek_of_rowKeys rfl hopens
        rw [vaultMasterKek_congr hsame] at hm'
        exact hp (hdb.masterKek_unique hW hm hm')
      · rw [eq_comm, ← Option.not_isSome_iff_eq_none]
        intro hopens
        exact hp (hdb.exact address row hrow passphrase passphrase' (by rw [hkeys]; rfl) hopens)
  constructor
  · intro vault hv
    exact hv
  · intro v hnone
    rw [hvault] at hnone
    cases hnone
  · intro hnone
    have hnone' : db.vault = none := hnone
    rw [hvault] at hnone'
    cases hnone'
  · intro a r hr
    by_cases ha : a = address
    · rw [ha, hrow] at hr
      cases hr
      rw [ha]
      exact ⟨_, hself, hrewrapped⟩
    · exact ⟨r, (hother ha).trans hr, .of_vault hsame r⟩
  · intro a r hnone hsome
    have ha : a ≠ address := by
      rintro rfl
      rw [hrow] at hnone
      cases hnone
    rw [hother ha, hnone] at hsome
    cases hsome

/-- A row is written, but neither its wrapping nor its public keys. -/
theorem Kept.relabel {g : IdentityRow → IdentityRow} (hwrapping : ∀ row, SameWrapping row (g row))
    (hkeys : ∀ row, SameKeys row (g row)) (hvault : db'.vault = db.vault)
    (hself : identityStoreLoad db' address = (identityStoreLoad db address).map g)
    (hother : ∀ a ≠ address, identityStoreLoad db' a = identityStoreLoad db a) : Kept W passphrase true db db' := by
  have hrow (a : Bytes) (r : IdentityRow) (hr : identityStoreLoad db a = some r) :
      ∃ r', identityStoreLoad db' a = some r' ∧ SameWrapping r r' ∧ SameKeys r r' := by
    by_cases ha : a = address
    · rw [ha] at hr
      rw [hr, Option.map_some] at hself
      exact ⟨g r, ha ▸ hself, hwrapping r, hkeys r⟩
    · exact ⟨r, (hother a ha).trans hr, .refl r, rfl, rfl⟩
  have hback (a : Bytes) (hnone : identityStoreLoad db a = none) : identityStoreLoad db' a = none := by
    by_cases ha : a = address
    · rw [ha] at hnone
      rw [ha, hself, hnone, Option.map_none]
    · rw [hother a ha, hnone]
  constructor
  · intro vault hv
    rw [hvault, hv]
  · intro vault hnone hsome
    rw [hvault, hnone] at hsome
    cases hsome
  · intro _ honly a r' hr'
    rcases hr : identityStoreLoad db a with _ | r
    · rw [hback a hr] at hr'
      cases hr'
    · obtain ⟨_, hload, hsame, -⟩ := hrow a r hr
      rw [hload] at hr'
      cases hr'
      rw [hsame.kdfAlgo, honly a r hr]
  · intro a r hr
    obtain ⟨r', hr', hsame, hpub⟩ := hrow a r hr
    exact ⟨r', hr', rowKeys_congr hvault hsame, hpub, fun _ => hsame, fun _ h => (by cases h), fun h => (by cases h)⟩
  · intro a r' hnone hsome
    rw [hback a hnone] at hsome
    cases hsome

end

end Bitmessage
