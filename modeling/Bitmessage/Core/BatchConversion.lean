import Bitmessage.Lib.Paging
import Bitmessage.Core.ConversionSteps

/-! The conversion of all the version 3 identities, a page of rows at a time. The list that is paged
loses a row with each identity that is converted, and a row that fails keeps its place at the front. -/

namespace Bitmessage

/-! ### The listing -/

/-- `ORDER BY created_time, address`. -/
def OlderRow (a b : IdentityRow) : Prop :=
  a.createdTime < b.createdTime ∨ a.createdTime = b.createdTime ∧ a.address ≤ b.address

instance : DecidableRel OlderRow := fun a b => by unfold OlderRow; infer_instance

instance : IsTrans IdentityRow OlderRow where
  trans a b c hab hbc := by
    rcases hab with hab | ⟨hab, hab'⟩
    · rcases hbc with hbc | ⟨hbc, -⟩
      · exact .inl (lt_trans hab hbc)
      · exact .inl (hbc ▸ hab)
    · rcases hbc with hbc | ⟨hbc, hbc'⟩
      · exact .inl (hab ▸ hbc)
      · exact .inr ⟨hab.trans hbc, List.le_trans hab' hbc'⟩

instance : Std.Total OlderRow where
  total a b := by
    rcases lt_trichotomy a.createdTime b.createdTime with h | h | h
    · exact .inl (.inl h)
    · rcases List.le_total a.address b.address with hab | hab
      · exact .inl (.inr ⟨h, hab⟩)
      · exact .inr (.inr ⟨h.symm, hab⟩)
    · exact .inr (.inl h)

/-- The addresses of one version, the oldest first. -/
def versionIndex (version : ℕ) (db : IdentityStore) : List Bytes :=
  ((db.identities.rows.filter fun row => row.addressVersion = version).insertionSort OlderRow).map IdentityRow.address

/-- `bm_identity_store_list_by_version`: `LIMIT` and `OFFSET`. -/
def identityStoreListByVersion (db : IdentityStore) (version limit offset : ℕ) : List Bytes :=
  ((versionIndex version db).drop offset).take limit

section

variable (version : ℕ) (db : IdentityStore)

variable {version db}

variable (version db)

end

/-! ### What a conversion does to the listing -/

namespace ConvertState

section

variable (H : Hashes) (W : KeyWrapping) (works : ConvertStep → Bool) (v3 v4 : IdentityRow) (v4Address : Bytes)
  (s : ConvertState)

end

end ConvertState

/-! ### The loop -/

/-- What the surroundings do to a call: the steps of each conversion, the clock and the random bytes, and whether
a listing works that is made after so many conversions, and the count at the end. -/
structure BatchEnv where
  works : ℕ → ConvertStep → Bool
  fresh : ℕ → Fresh
  lists : ℕ → Bool
  counts : Bool

/-- What the loop works on. -/
structure BatchState where
  convert : ConvertState
  session : ConvertSession
  attempts : ℕ

section

variable (H : Hashes) (W : KeyWrapping) (env : BatchEnv)

/-- The body of the inner loop: whether the row was converted. -/
def BatchState.attempt (b : BatchState) (v3Address : Bytes) : BatchState × ConvertReply × Bool :=
  let (convert, session, reply) :=
    b.convert.convertOneV3ToV4 H W (env.works b.attempts) v3Address b.session (env.fresh b.attempts)
  (⟨convert, session, b.attempts + 1⟩, reply, reply.error.isNone)

/-- The listing at the head of the outer loop. -/
def BatchState.page (b : BatchState) (limit offset : ℕ) : Option (List Bytes) :=
  if env.lists b.attempts then some (identityStoreListByVersion b.convert.store.identities 3 limit offset) else none

end

end Bitmessage
