import Bitmessage.Core.ConversionSteps

/-! A conversion whose database steps fail in any pattern. Every statement but two is
asked whether it worked. The two are the copies to the sibling: its label and its chan
flag. When one of them is due and does not work, and everything else does, the version 3
row is deleted all the same, and the conversion reports success. In every other pattern
either the version 3 row stays or the sibling has all of it. -/

namespace Bitmessage

open ConvertState

/-- The sibling has everything of the version 3 identity: its public keys, a label when it had one,
the flag when it had it, and its private keys, which open as they did when the sibling was
there, and with the passphrase of the conversion when it is new. -/
def NothingLost (W : KeyWrapping) (before after : IdentityStore) (v3 : IdentityRow) (v4Address passphrase : Bytes) :
    Prop :=
  ∃ v4, identityStoreLoad after v4Address = some v4 ∧ SameKeys v3 v4 ∧ (v3.isChan = true → v4.isChan = true) ∧
    (v3.label ≠ [] → v4.label ≠ []) ∧
    ((identityStoreLoad before v4Address).isSome → ∀ P,
      keyringExport W after v4Address P = keyringExport W before v4Address P) ∧
    (identityStoreLoad before v4Address = none →
      keyringExport W after v4Address passphrase = rowKeys W before v3 passphrase)

/-- The conversion was successful or the version 3 row is gone only when nothing was lost. -/
def ReportsHonestly (H : Hashes) (W : KeyWrapping) (works : ConvertStep → Bool) (s : ConvertState)
    (session : ConvertSession) (fresh : Fresh) (v3 : IdentityRow) (v4Address : Bytes) : Prop :=
  let r := convertOneV3ToV4 H W works v3.address session fresh s
  r.2.2.error = none ∨ identityStoreLoad r.1.store.identities v3.address = none →
    NothingLost W s.store.identities r.1.store.identities v3 v4Address session.passphrase

/-- Apart from the two copies, every step that the conversion takes works. -/
def OthersWork (H : Hashes) (W : KeyWrapping) (works : ConvertStep → Bool) (s : ConvertState) (session : ConvertSession)
    (fresh : Fresh) (v3 : IdentityRow) (v4Address : Bytes) : Prop :=
  (∃ keys v4 db, OpensV3 H W works s v3.address session v3 keys v4Address ∧
    SiblingBase W works v3 keys v4Address (convertKek W (s.readVault works) v3 session).1 fresh
      s.store.identities v4 db) ∧
    FinishSteps works

/-- The label is due: the sibling is there and has none. -/
def LabelDue (db : IdentityStore) (v3 : IdentityRow) (v4Address : Bytes) : Prop :=
  ∃ v4, identityStoreLoad db v4Address = some v4 ∧ LacksLabel v3 v4

/-- The flag is due: the sibling does not have it, if there is one. -/
def ChanDue (db : IdentityStore) (v3 : IdentityRow) (v4Address : Bytes) : Prop :=
  v3.isChan = true ∧ ∀ v4, identityStoreLoad db v4Address = some v4 → v4.isChan = false

section

variable {H : Hashes} {W : KeyWrapping} {works : ConvertStep → Bool} {s : ConvertState} {session : ConvertSession}
  {fresh : Fresh} {v3 v4 : IdentityRow} {keys : PrivateKeys} {v4Address : Bytes} {db : IdentityStore}

/-- What is due, told by the row that the sibling begins with. -/
theorem SiblingBase.due (h : SiblingBase W works v3 keys v4Address session fresh s.store.identities v4 db)
    (hlen : v4Address.length < addressStrMax) :
    (LabelDue s.store.identities v3 v4Address ↔ LacksLabel v3 v4) ∧
      (ChanDue s.store.identities v3 v4Address ↔ LacksChan v3 v4) := by
  cases h with
  | found hw hrow hkeys =>
    constructor
    · constructor
      · rintro ⟨row, hload, hl⟩
        rw [hrow] at hload
        cases hload
        exact hl
      · exact fun hl => ⟨v4, hrow, hl⟩
    · constructor
      · exact fun hc => ⟨hc.1, hc.2 v4 hrow⟩
      · rintro ⟨hchan, hflag⟩
        refine ⟨hchan, fun row hload => ?_⟩
        rw [hrow] at hload
        cases hload
        exact hflag
  | made hi hr hnone hs hrow =>
    obtain ⟨-, -, -, -, hlabel, hflag, -⟩ := storeSibling_row hs hlen hrow
    constructor
    · constructor
      · rintro ⟨row, hload, -⟩
        rw [hnone] at hload
        cases hload
      · exact fun hl => absurd hl hlabel
    · constructor
      · exact fun hc => ⟨hc.1, hflag⟩
      · rintro ⟨hchan, -⟩
        refine ⟨hchan, fun row hload => ?_⟩
        rw [hnone] at hload
        cases hload

/-- A completed row has the label and the flag exactly when the copies that are due work. -/
theorem completedRow_iff (works : ConvertStep → Bool) (v3 v4 : IdentityRow) :
    ((v3.isChan = true → (completedRow works v3 v4).isChan = true) ↔ (LacksChan v3 v4 → works .setIsChan = true)) ∧
      ((v3.label ≠ [] → (completedRow works v3 v4).label ≠ []) ↔
        (LacksLabel v3 v4 → works .updateLabel = true)) := by
  constructor
  · unfold completedRow LacksChan
    rcases v3.isChan with _ | _
    · simp
    · rcases v4.isChan with _ | _
      · simp
      · simp
  · unfold completedRow labelledRow
    simp only
    by_cases hl : LacksLabel v3 v4
    · by_cases hw : works .updateLabel = true
      · rw [if_pos ⟨hl, hw⟩]
        exact iff_of_true id fun _ => hw
      · rw [if_neg fun h => hw h.2]
        exact iff_of_false (fun h => h hl.2 hl.1) fun h => hw (h hl)
    · rw [if_neg fun h => hl h.1]
      exact iff_of_true (fun h hempty => hl ⟨hempty, h⟩) fun h => absurd h hl

/-- The private keys of the sibling after a conversion. -/
theorem keys_convertedStore (hW : W.Lawful) (hsession : session.Sound W s.store.identities)
    (hopens : OpensV3 H W works s v3.address session v3 keys v4Address)
    (hbase : SiblingBase W works v3 keys v4Address (convertKek W (s.readVault works) v3 session).1 fresh
      s.store.identities v4 db) (hne : v4Address ≠ v3.address) :
    ((identityStoreLoad s.store.identities v4Address).isSome → ∀ P,
      keyringExport W (convertedStore works v3 v4 v3.address v4Address db s.store).identities v4Address P =
        keyringExport W s.store.identities v4Address P) ∧
    (identityStoreLoad s.store.identities v4Address = none →
      keyringExport W (convertedStore works v3 v4 v3.address v4Address db s.store).identities v4Address
        session.passphrase = rowKeys W s.store.identities v3 session.passphrase) := by
  have hlen := length_v4SiblingAddress hopens.address
  have hexport (P : Bytes) :
      keyringExport W (convertedStore works v3 v4 v3.address v4Address db s.store).identities v4Address P =
        rowKeys W db v4 P :=
    keyringExport_convertedStore hne (hbase.row hlen).1 P
  obtain ⟨hpass, hsound, hkek⟩ := convertKek_sound works v3 hsession
  cases hbase with
  | found hw hrow hkeys =>
    constructor
    · intro _ P
      rw [hexport, keyringExport_eq, hrow, Option.bind_some]
    · intro hnone
      rw [hrow] at hnone
      cases hnone
  | made hi hr hnone hs hrow =>
    constructor
    · intro hsome
      rw [hnone] at hsome
      cases hsome
    · intro _
      have hnew := rowKeys_storeSibling hW hsound hs hlen hrow
      obtain ⟨kek, hresolve, hunwrap⟩ := Option.bind_eq_some_iff.mp hopens.keys
      rw [hpass] at hnew
      rw [hexport, hnew, rowKeys, hkek kek hresolve, Option.bind_some, hunwrap]

end

/-- A conversion never reports success nor deletes the version 3 row while something is lost,
exactly when the copies that are due work whenever all the others do. -/
theorem conversion_reports_honestly_iff (H : Hashes) (W : KeyWrapping) (works : ConvertStep → Bool) (s : ConvertState)
    (session : ConvertSession) (fresh : Fresh) (v3 : IdentityRow) (v4Address : Bytes) (hW : W.Lawful)
    (hsession : session.Sound W s.store.identities) (hv3 : IsV3 H v3)
    (hrow : identityStoreLoad s.store.identities v3.address = some v3)
    (haddress : v4SiblingAddress H v3 = some v4Address) :
    ReportsHonestly H W works s session fresh v3 v4Address ↔
      (OthersWork H W works s session fresh v3 v4Address →
        (LabelDue s.store.identities v3 v4Address → works .updateLabel = true) ∧
        (ChanDue s.store.identities v3 v4Address → works .setIsChan = true)) := by
  obtain ⟨a, ha, hne⟩ := hv3.sibling
  rw [haddress] at ha
  obtain rfl := Option.some.inj ha
  simp only [ReportsHonestly]
  by_cases hothers : OthersWork H W works s session fresh v3 v4Address
  · obtain ⟨⟨keys, v4, db, hopens, hbase⟩, hfinish⟩ := hothers
    obtain ⟨s₁, hs₁, -⟩ := convertOneV3ToV4_eq fresh hopens hbase hfinish
    have hlen := length_v4SiblingAddress haddress
    obtain ⟨hlabel, hchan⟩ := hbase.due hlen
    obtain ⟨hflag, htext⟩ := completedRow_iff works v3 v4
    have hload : identityStoreLoad (convertedStore works v3 v4 v3.address v4Address db s.store).identities v4Address =
        some (completedRow works v3 v4) := load_convertedStore hne (hbase.row hlen).1
    obtain ⟨hold, hnew⟩ := keys_convertedStore hW hsession hopens hbase hne
    simp only [hs₁, put, true_or, true_imp_iff]
    rw [imp_iff_right ⟨⟨keys, v4, db, hopens, hbase⟩, hfinish⟩, hlabel, hchan, ← hflag, ← htext]
    constructor
    · rintro ⟨row, hrow', -, hc, hl, -⟩
      have hrow'' : some (completedRow works v3 v4) = some row := hload.symm.trans hrow'
      obtain rfl := Option.some.inj hrow''
      exact ⟨hl, hc⟩
    · rintro ⟨hl, hc⟩
      exact ⟨completedRow works v3 v4, hload, (hbase.row hlen).2, hc, hl, hold, hnew⟩
  · refine iff_of_true ?_ fun h => absurd h hothers
    have hother : ∀ row a, identityStoreLoad s.store.identities v3.address = some row →
        v4SiblingAddress H row = some a → v3.address ≠ a := by
      intro row a hload ha
      rw [hrow] at hload
      cases hload
      rw [haddress] at ha
      cases ha
      exact hne.symm
    have hstuck : ¬ ∃ row keys a v4 db, OpensV3 H W works s v3.address session row keys a ∧
        SiblingBase W works row keys a (convertKek W (s.readVault works) row session).1 fresh
          s.store.identities v4 db ∧ FinishSteps works := by
      rintro ⟨row, keys, a, v4, db, hopens, hbase, hfinish⟩
      have hload := hopens.row
      unfold load at hload
      split_ifs at hload
      rw [hrow] at hload
      cases hload
      have ha := hopens.address
      rw [haddress] at ha
      cases ha
      exact hothers ⟨⟨keys, v4, db, hopens, hbase⟩, hfinish⟩
    obtain ⟨herror, hkept⟩ := convertOneV3ToV4_fails fresh hother hstuck
    rintro (hok | hgone)
    · exact absurd hok herror
    · rw [hkept, hrow] at hgone
      cases hgone

/-! ### A chan whose flag is not copied -/

/-- When every step works, the chan is converted without a loss. -/
theorem chan_reports_honestly :
    ReportsHonestly plainCrypto.toHashes framedWrapping allWork (chanStore.start []) chanSession zeroFresh
      chanIdentity chanSibling :=
  (conversion_reports_honestly_iff _ _ allWork (chanStore.start []) chanSession zeroFresh chanIdentity
    chanSibling framedWrapping_lawful (fun _ h => by cases h) chanIdentity_isV3
    (KeyedTable.find?_eq_some.mpr ⟨List.mem_singleton.mpr rfl, rfl⟩) chanSibling_eq).mpr
    fun _ => ⟨fun _ => rfl, fun _ => rfl⟩

/-- When only the flag cannot be set, the conversion reports success, the version 3 row is deleted,
and the sibling is no chan. -/
theorem chan_flag_lost :
    ¬ ReportsHonestly plainCrypto.toHashes framedWrapping (fun step => step ≠ .setIsChan) (chanStore.start [])
        chanSession zeroFresh chanIdentity chanSibling := by
  intro h
  simp only [ReportsHonestly] at h
  obtain ⟨v4, hload, -, hchan, -⟩ := h (.inl (by decide +kernel))
  have hflag : (identityStoreLoad (convertOneV3ToV4 plainCrypto.toHashes framedWrapping
      (fun step => step ≠ .setIsChan) chanIdentity.address chanSession zeroFresh
      (chanStore.start [])).1.store.identities chanSibling).map IdentityRow.isChan = some false := by
    decide +kernel
  rw [hload] at hflag
  exact Bool.false_ne_true ((Option.some.inj hflag).symm.trans (hchan rfl))

end Bitmessage
