import Bitmessage.Core.KeyringSafety
import Bitmessage.Lib.Transition
import Bitmessage.Pq.Incoming
import Bitmessage.Pq.ObjectRoundTrip

/-! The unlocked identities of version 5. An entry holds the seeds; the secret keys are generated
from them when they are needed first, with the lock of the keyring released. Every action of a
thread below is one section under the lock, or the reading of the store before it, so that any
number of other sections may come between two of them. A run of `pqKeyringStep` is one interleaving
of the calls of all the threads; the results that they have returned are recorded. -/

namespace Bitmessage

open Transition

/-! ### Rows and entries -/

/-- `struct bm_pqv5_seeds`. -/
structure PqSeeds where
  sigSeed : Bytes
  kemSeed : Bytes

/-- The secret keys of an identity. -/
structure PqSecretKeys where
  sigSk : Bytes
  kemSk : Bytes
  deriving DecidableEq

/-- The row of `pq_identities` in `struct bm_pq_identity_row`. -/
structure PqIdentityRow where
  address : Bytes
  addressVersion : ℕ
  stream : ℕ
  id : Bytes
  sigPk : Bytes
  kemPk : Bytes
  kdfAlgo : KdfAlgo
  kdfSalt : Bytes
  kdfParams : Option ScryptParams
  wrappedSeeds : Bytes
  nonceTrialsPerByte : ℕ
  payloadLengthExtraBytes : ℕ
  address_length : address.length < addressStrMax

abbrev PqIdentityTable := KeyedTable PqIdentityRow.address

/-- `struct bm_unlocked_pq_identity`. -/
structure PqKeyringEntry where
  address : Bytes
  addressVersion : ℕ
  stream : ℕ
  id : Bytes
  tag : Bytes
  sigPk : Bytes
  kemPk : Bytes
  seeds : PqSeeds
  /-- there once the seeds were expanded -/
  expanded : Option PqSecretKeys
  nonceTrialsPerByte : ℕ
  payloadLengthExtraBytes : ℕ
  unlockedAt : ℤ
  address_length : address.length < addressStrMax

/-- What a message is tried with. -/
def PqKeyringEntry.identity (entry : PqKeyringEntry) : UnlockedPqIdentity :=
  ⟨entry.address, entry.id, entry.expanded.map PqSecretKeys.kemSk⟩

/-- The library with the generation of signing keys. -/
structure PqKeyLibrary extends PqCrypto where
  /-- `bm_pqv5_sig_keypair_from_seed`: the public and the secret key. -/
  sigKeypairFromSeed (seed : Bytes) : Option (Bytes × Bytes)

/-- The four keys of `struct bm_pqv5_identity`. -/
structure PqExpandedKeys where
  sigPk : Bytes
  kemPk : Bytes
  secret : PqSecretKeys

section

variable (L : PqKeyLibrary) (H : Hashes) (W : KeyWrapping)

/-- `bm_pqv5_identity_from_seeds`, up to the id. -/
def pqv5IdentityFromSeeds (seeds : PqSeeds) : Option PqExpandedKeys :=
  (L.sigKeypairFromSeed seeds.sigSeed).bind fun sig =>
    (L.kemKeypairFromSeed seeds.kemSeed).map fun kem => ⟨sig.1, kem.1, ⟨sig.2, kem.2⟩⟩

/-- `row_is_consistent`. -/
def rowIsConsistent (row : PqIdentityRow) : Bool :=
  pqv5AddressDecode H row.address = some (row.addressVersion, row.stream, row.id) ∧
    pqv5CalcId L.toPqCrypto row.sigPk row.kemPk = row.id

/-- `bm_keyring_internal_resolve_kek`. -/
def pqResolveKek (db : IdentityStore) (row : PqIdentityRow) (passphrase : Bytes) : Option Bytes :=
  match row.kdfAlgo with
  | .vaultHkdf =>
    (vaultMasterKek W db passphrase).bind fun masterKek => W.hkdfExpandWrapKey masterKek row.kdfSalt row.address
  | .scrypt => row.kdfParams.bind fun params => W.deriveKek passphrase row.kdfSalt params

/-- `BM_PQV5_SEED_LEN`. -/
def pqv5SeedLen : ℕ := 32

/-- The entry of a row whose seeds were unwrapped. -/
def pqKeyringEntry (row : PqIdentityRow) (seeds : Bytes) (now : ℤ) : PqKeyringEntry where
  address := row.address
  addressVersion := row.addressVersion
  stream := row.stream
  id := row.id
  tag := (pqv5DeriveSecretAndTag L.toPqCrypto row.addressVersion row.stream row.id).2
  sigPk := row.sigPk
  kemPk := row.kemPk
  seeds := ⟨seeds.take pqv5SeedLen, seeds.drop pqv5SeedLen⟩
  expanded := none
  nonceTrialsPerByte := row.nonceTrialsPerByte
  payloadLengthExtraBytes := row.payloadLengthExtraBytes
  unlockedAt := now
  address_length := row.address_length

/-- `bm_pq_keyring_unlock`, up to the lock. -/
def pqUnlockedEntry (db : IdentityStore) (rows : PqIdentityTable) (address passphrase : Bytes) (now : ℤ) :
    Option PqKeyringEntry :=
  ((rows.find? address).filter fun row => rowIsConsistent L H row).bind fun row =>
    (pqResolveKek W db row passphrase).bind fun kek =>
      (W.unwrap kek row.address row.wrappedSeeds).map fun seeds => pqKeyringEntry L row seeds now

/-! ### Sections under the lock -/

/-- `find_locked`. Both texts are C strings, and that of an entry is short enough to be compared as a
whole. -/
def pqFindLocked (entries : List PqKeyringEntry) (address : Bytes) : Option PqKeyringEntry :=
  entries.find? fun entry => entry.address = address

/-- The end of `bm_pq_keyring_unlock`: an entry that is there already is kept. -/
def pqInsertLocked (entries : List PqKeyringEntry) (entry : PqKeyringEntry) : List PqKeyringEntry :=
  if (pqFindLocked entries entry.address).isSome then entries else entry :: entries

/-- `bm_pq_keyring_remove_locked`. -/
def pqRemoveLocked (entries : List PqKeyringEntry) (address : Bytes) : List PqKeyringEntry :=
  entries.eraseP fun entry => entry.address = address

/-- Store the secret keys in the entry that `find_locked` finds, unless it has them. -/
def pqStoreSecretKeys (address : Bytes) (keys : PqSecretKeys) : List PqKeyringEntry → List PqKeyringEntry
  | [] => []
  | entry :: entries =>
    if entry.address = address then { entry with expanded := some (entry.expanded.getD keys) } :: entries
    else entry :: pqStoreSecretKeys address keys entries

/-- The expansion and the second section of `bm_pq_keyring_get_secret_keys`: the entry is looked up
again, and the generated public keys have to be its own. -/
def pqFinishExpansion (entries : List PqKeyringEntry) (address : Bytes) (seeds : PqSeeds) :
    List PqKeyringEntry × Option PqSecretKeys :=
  match pqv5IdentityFromSeeds L seeds with
  | none => (entries, none)
  | some fresh =>
    match pqFindLocked entries address with
    | none => (entries, none)
    | some cur =>
      if fresh.sigPk = cur.sigPk ∧ fresh.kemPk = cur.kemPk then
        (pqStoreSecretKeys address fresh.secret entries, some (cur.expanded.getD fresh.secret))
      else (entries, none)

/-- An address given to `bm_pq_keyring_open_msg` leaves out all the entries but its own. -/
def pqAddressFits (address : Option Bytes) (entry : PqKeyringEntry) : Bool :=
  address.all fun address => entry.address = address

/-- The list that `expand_pending` makes. -/
def pqPendingAddresses (entries : List PqKeyringEntry) (address : Option Bytes) : List Bytes :=
  (entries.filter fun entry => entry.expanded.isNone && pqAddressFits address entry).map PqKeyringEntry.address

/-- The last section of `bm_pq_keyring_open_msg`. -/
def pqScan (entries : List PqKeyringEntry) (address : Option Bytes) (object : Buf) : Option (Bytes × PqMsgParsed) :=
  (pqKeyringOpenMsg L.toPqCrypto ((entries.filter (pqAddressFits address)).map PqKeyringEntry.identity) object).map
    fun opened => (opened.1.address, opened.2)

end

/-! ### The threads -/

/-- A call of `bm_pq_keyring_open_msg`, with the addresses that it still has to expand. -/
structure PqOpenCall where
  address : Option Bytes
  object : Buf
  pending : List Bytes

/-- Where a thread is. An expansion belongs to a call of `bm_pq_keyring_get_secret_keys`, made from
outside or by `expand_pending`. -/
inductive PqKeyringPc
  | idle
  | inserting (entry : PqKeyringEntry)
  | expanding (address : Bytes) (seeds : PqSeeds) (call : Option PqOpenCall)
  | opening (call : PqOpenCall)

/-- What a call has returned. -/
inductive PqKeyringReturn
  | unlocked (address : Bytes) (success : Bool)
  | secretKeys (address : Bytes) (keys : Option PqSecretKeys)
  | opened (address : Option Bytes) (object : Buf) (result : Option (Bytes × PqMsgParsed))

structure PqKeyring where
  entries : List PqKeyringEntry
  pc : ℕ → PqKeyringPc
  returns : List PqKeyringReturn

inductive PqKeyringLabel
  /-- a thread reads the row, and unwraps the seeds -/
  | unlock (thread : ℕ) (db : IdentityStore) (rows : PqIdentityTable) (address passphrase : Bytes) (now : ℤ)
  | insert (thread : ℕ)
  /-- `bm_keyring_lock`, which looks among the entries of the older versions first -/
  | lock (address : Bytes) (older : Bool)
  | lockAll
  | getSecretKeys (thread : ℕ) (address : Bytes)
  /-- the memory for the keys may be missing -/
  | finish (thread : ℕ) (memory : Bool)
  | openMsg (thread : ℕ) (address : Option Bytes) (object : Buf) (memory : Bool)
  | expandNext (thread : ℕ)
  | scan (thread : ℕ)

namespace PqKeyring

/-- Nothing is unlocked. -/
def init : PqKeyring := ⟨[], fun _ => .idle, []⟩

def goto (s : PqKeyring) (thread : ℕ) (pc : PqKeyringPc) : PqKeyring := { s with pc := Function.update s.pc thread pc }

/-- The call of a thread ends. -/
def returning (s : PqKeyring) (thread : ℕ) (result : PqKeyringReturn) : PqKeyring :=
  { s.goto thread .idle with returns := result :: s.returns }

/-- A call of `bm_pq_keyring_get_secret_keys` has its result, which `expand_pending` does not look at. -/
def gotSecretKeys (s : PqKeyring) (thread : ℕ) (address : Bytes) (keys : Option PqSecretKeys) :
    Option PqOpenCall → PqKeyring
  | none => s.returning thread (.secretKeys address keys)
  | some call => s.goto thread (.opening call)

/-- The first section of `bm_pq_keyring_get_secret_keys`. -/
def readSecretKeys (s : PqKeyring) (thread : ℕ) (address : Bytes) (call : Option PqOpenCall) : PqKeyring :=
  match pqFindLocked s.entries address with
  | none => s.gotSecretKeys thread address none call
  | some cur =>
    match cur.expanded with
    | some keys => s.gotSecretKeys thread address (some keys) call
    | none => s.goto thread (.expanding address cur.seeds call)

variable (L : PqKeyLibrary) (H : Hashes) (W : KeyWrapping)

/-- One action of one thread. -/
def step (s : PqKeyring) : PqKeyringLabel → Option PqKeyring
  | .unlock thread db rows address passphrase now =>
    match s.pc thread with
    | .idle =>
      match pqUnlockedEntry L H W db rows address passphrase now with
      | some entry => some (s.goto thread (.inserting entry))
      | none => some (s.returning thread (.unlocked address false))
    | _ => none
  | .insert thread =>
    match s.pc thread with
    | .inserting entry =>
      some { s.returning thread (.unlocked entry.address true) with entries := pqInsertLocked s.entries entry }
    | _ => none
  | .lock address older => some { s with entries := if older then s.entries else pqRemoveLocked s.entries address }
  | .lockAll => some { s with entries := [] }
  | .getSecretKeys thread address =>
    match s.pc thread with
    | .idle => some (s.readSecretKeys thread address none)
    | _ => none
  | .finish thread memory =>
    match s.pc thread with
    | .expanding address seeds call =>
      let r := if memory then pqFinishExpansion L s.entries address seeds else (s.entries, none)
      some { s.gotSecretKeys thread address r.2 call with entries := r.1 }
    | _ => none
  | .openMsg thread address object memory =>
    match s.pc thread with
    | .idle =>
      some (s.goto thread (.opening ⟨address, object, if memory then pqPendingAddresses s.entries address else []⟩))
    | _ => none
  | .expandNext thread =>
    match s.pc thread with
    | .opening ⟨address, object, next :: pending⟩ => some (s.readSecretKeys thread next (some ⟨address, object, pending⟩))
    | _ => none
  | .scan thread =>
    match s.pc thread with
    | .opening ⟨address, object, []⟩ =>
      some (s.returning thread (.opened address object (pqScan L s.entries address object)))
    | _ => none

end PqKeyring

/-! ### What the calls promise -/

section

variable (L : PqKeyLibrary) (H : Hashes)

/-- The keys are generated from seeds, and the address has the id of their public keys. -/
def GeneratedFor (address : Bytes) (keys : PqSecretKeys) : Prop :=
  ∃ version stream seeds fresh, pqv5IdentityFromSeeds L seeds = some fresh ∧ fresh.secret = keys ∧
    pqv5AddressDecode H address = some (version, stream, pqv5CalcId L.toPqCrypto fresh.sigPk fresh.kemPk)

/-- Secret keys are those of the address. A message that is reported as opened names the id of the
address as its recipient, and opens with the secret key of the address. -/
def PqKeyringReturn.Genuine : PqKeyringReturn → Prop
  | .unlocked _ _ => True
  | .secretKeys address keys => ∀ k ∈ keys, GeneratedFor L H address k
  | .opened address object result => ∀ r ∈ result, (∀ a ∈ address, r.1 = a) ∧
      (∃ version stream, pqv5AddressDecode H r.1 = some (version, stream, r.2.toId)) ∧
      ∃ keys, GeneratedFor L H r.1 keys ∧ pqParsed (pqParseMsg L.toPqCrypto keys.kemSk object) = some r.2

/-- The public keys of an entry belong to its address, and so do its secret keys. -/
structure EntryFits (entry : PqKeyringEntry) : Prop where
  address : pqv5AddressDecode H entry.address = some (entry.addressVersion, entry.stream, entry.id)
  id : pqv5CalcId L.toPqCrypto entry.sigPk entry.kemPk = entry.id
  expanded : ∀ keys ∈ entry.expanded, ∃ seeds, pqv5IdentityFromSeeds L seeds = some ⟨entry.sigPk, entry.kemPk, keys⟩

namespace PqKeyring

/-- What holds in every interleaving. -/
structure Sound (W : KeyWrapping) (s : PqKeyring) : Prop where
  unique : (s.entries.map PqKeyringEntry.address).Nodup
  returns : ∀ r ∈ s.returns, r.Genuine L H
  /-- a call whose entry is not there when its expansion finishes fails -/
  absent : ∀ thread address seeds, s.pc thread = .expanding address seeds none → pqFindLocked s.entries address = none →
    ∀ memory t, step L H W s (.finish thread memory) = some t → t.returns = .secretKeys address none :: s.returns

/-- The entries, and those that are about to be inserted, fit their addresses. -/
structure Inv (s : PqKeyring) : Prop where
  unique : (s.entries.map PqKeyringEntry.address).Nodup
  entries : ∀ entry ∈ s.entries, EntryFits L H entry
  inserting : ∀ thread entry, s.pc thread = .inserting entry → EntryFits L H entry
  returns : ∀ r ∈ s.returns, r.Genuine L H

end PqKeyring

end

section

variable {L : PqKeyLibrary} {H : Hashes} {W : KeyWrapping} {entries : List PqKeyringEntry} {address : Bytes}

theorem EntryFits.generatedFor {entry : PqKeyringEntry} (h : EntryFits L H entry) {keys : PqSecretKeys}
    (hkeys : entry.expanded = some keys) : GeneratedFor L H entry.address keys := by
  obtain ⟨seeds, hseeds⟩ := h.expanded keys hkeys
  refine ⟨entry.addressVersion, entry.stream, seeds, _, hseeds, rfl, ?_⟩
  rw [h.id]
  exact h.address

theorem pqFindLocked_eq_some {entry : PqKeyringEntry} (h : pqFindLocked entries address = some entry) :
    entry ∈ entries ∧ entry.address = address :=
  ⟨List.mem_of_find?_eq_some h, by simpa only [decide_eq_true_eq] using List.find?_some h⟩

/-! ### The sections -/

/-- An entry is made from a consistent row, without secret keys. -/
theorem entryFits_pqUnlockedEntry {db : IdentityStore} {rows : PqIdentityTable} {passphrase : Bytes} {now : ℤ}
    {entry : PqKeyringEntry} (h : pqUnlockedEntry L H W db rows address passphrase now = some entry) :
    EntryFits L H entry := by
  obtain ⟨row, hrow, h⟩ := Option.bind_eq_some_iff.mp h
  obtain ⟨kek, -, h⟩ := Option.bind_eq_some_iff.mp h
  obtain ⟨seeds, -, rfl⟩ := Option.map_eq_some_iff.mp h
  obtain ⟨-, hconsistent⟩ := Option.filter_eq_some_iff.mp hrow
  obtain ⟨haddress, hid⟩ := of_decide_eq_true hconsistent
  exact ⟨haddress, hid, fun keys hkeys => absurd hkeys (Option.not_mem_none keys)⟩

theorem nodup_pqInsertLocked (h : (entries.map PqKeyringEntry.address).Nodup) (entry : PqKeyringEntry) :
    ((pqInsertLocked entries entry).map PqKeyringEntry.address).Nodup := by
  unfold pqInsertLocked
  split_ifs with hfound
  · exact h
  · rw [List.map_cons, List.nodup_cons]
    refine ⟨?_, h⟩
    intro hmem
    obtain ⟨other, hother, hsame⟩ := List.mem_map.mp hmem
    apply hfound
    exact List.find?_isSome.mpr ⟨other, hother, decide_eq_true hsame⟩

theorem mem_pqInsertLocked {entry other : PqKeyringEntry} (h : other ∈ pqInsertLocked entries entry) :
    other = entry ∨ other ∈ entries := by
  unfold pqInsertLocked at h
  split_ifs at h
  · exact .inr h
  · exact List.mem_cons.mp h

theorem map_address_pqStoreSecretKeys (address : Bytes) (keys : PqSecretKeys) (entries : List PqKeyringEntry) :
    (pqStoreSecretKeys address keys entries).map PqKeyringEntry.address = entries.map PqKeyringEntry.address := by
  induction entries with
  | nil => rfl
  | cons entry entries ih =>
    rw [pqStoreSecretKeys]
    split_ifs with hsame
    · rfl
    · rw [List.map_cons, List.map_cons, ih]

/-- Only the entry that `find_locked` finds is changed. -/
theorem mem_pqStoreSecretKeys {keys : PqSecretKeys} {entry : PqKeyringEntry}
    (h : entry ∈ pqStoreSecretKeys address keys entries) :
    entry ∈ entries ∨ ∃ cur, pqFindLocked entries address = some cur ∧
      entry = { cur with expanded := some (cur.expanded.getD keys) } := by
  induction entries with
  | nil => exact absurd h List.not_mem_nil
  | cons first entries ih =>
    rw [pqStoreSecretKeys] at h
    split_ifs at h with hsame
    · rcases List.mem_cons.mp h with rfl | h
      · exact .inr ⟨first, List.find?_cons_of_pos (decide_eq_true hsame), rfl⟩
      · exact .inl (List.mem_cons_of_mem _ h)
    · rcases List.mem_cons.mp h with rfl | h
      · exact .inl List.mem_cons_self
      · rcases ih h with hold | ⟨cur, hcur, rfl⟩
        · exact .inl (List.mem_cons_of_mem _ hold)
        · refine .inr ⟨cur, ?_, rfl⟩
          rw [pqFindLocked, List.find?_cons_of_neg (by simpa using hsame)]
          exact hcur

/-- The end of an expansion: nothing happens, or an entry of the address has the generated public
keys, and its secret keys are returned. -/
theorem pqFinishExpansion_cases (L : PqKeyLibrary) (entries : List PqKeyringEntry) (address : Bytes) (seeds : PqSeeds) :
    pqFinishExpansion L entries address seeds = (entries, none) ∨
    ∃ cur fresh, pqFindLocked entries address = some cur ∧ pqv5IdentityFromSeeds L seeds = some fresh ∧
      fresh.sigPk = cur.sigPk ∧ fresh.kemPk = cur.kemPk ∧
      pqFinishExpansion L entries address seeds =
        (pqStoreSecretKeys address fresh.secret entries, some (cur.expanded.getD fresh.secret)) := by
  unfold pqFinishExpansion
  cases hseeds : pqv5IdentityFromSeeds L seeds with
  | none => exact .inl rfl
  | some fresh =>
    cases hcur : pqFindLocked entries address with
    | none => exact .inl rfl
    | some cur =>
      simp only
      split_ifs with hsame
      · exact .inr ⟨cur, fresh, rfl, rfl, hsame.1, hsame.2, rfl⟩
      · exact .inl rfl

/-- An entry keeps fitting when keys with its public keys are stored in it. -/
theorem EntryFits.store {cur : PqKeyringEntry} (h : EntryFits L H cur) {seeds : PqSeeds} {fresh : PqExpandedKeys}
    (hseeds : pqv5IdentityFromSeeds L seeds = some fresh) (hsig : fresh.sigPk = cur.sigPk) (hkem : fresh.kemPk = cur.kemPk) :
    EntryFits L H { cur with expanded := some (cur.expanded.getD fresh.secret) } where
  address := h.address
  id := h.id
  expanded := by
    intro keys hkeys
    cases hexpanded : cur.expanded with
    | some old =>
      rw [hexpanded] at hkeys
      cases hkeys
      exact h.expanded old hexpanded
    | none =>
      rw [hexpanded] at hkeys
      cases hkeys
      refine ⟨seeds, ?_⟩
      rw [hseeds, ← hsig, ← hkem]
      rfl

theorem fits_pqFinishExpansion (hentries : ∀ entry ∈ entries, EntryFits L H entry) (address : Bytes)
    (seeds : PqSeeds) :
    (∀ entry ∈ (pqFinishExpansion L entries address seeds).1, EntryFits L H entry) ∧
      ∀ keys ∈ (pqFinishExpansion L entries address seeds).2, GeneratedFor L H address keys := by
  rcases pqFinishExpansion_cases L entries address seeds with hsame | ⟨cur, fresh, hcur, hseeds, hsig, hkem, hafter⟩
  · rw [hsame]
    exact ⟨hentries, fun keys hkeys => absurd hkeys (Option.not_mem_none keys)⟩
  · rw [hafter]
    obtain ⟨hmem, haddress⟩ := pqFindLocked_eq_some hcur
    have hstored := (hentries cur hmem).store hseeds hsig hkem
    constructor
    · intro entry hentry
      rcases mem_pqStoreSecretKeys hentry with hold | ⟨cur', hcur', rfl⟩
      · exact hentries entry hold
      · obtain rfl : cur = cur' := Option.some.inj (hcur.symm.trans hcur')
        exact hstored
    · intro keys hkeys
      rw [← haddress]
      exact hstored.generatedFor hkeys

theorem nodup_pqFinishExpansion (h : (entries.map PqKeyringEntry.address).Nodup) (address : Bytes) (seeds : PqSeeds) :
    ((pqFinishExpansion L entries address seeds).1.map PqKeyringEntry.address).Nodup := by
  rcases pqFinishExpansion_cases L entries address seeds with hsame | ⟨cur, fresh, -, -, -, -, hafter⟩
  · rw [hsame]
    exact h
  · rw [hafter, map_address_pqStoreSecretKeys]
    exact h

/-- A message is opened with the secret key of an entry that fits, and for its id. -/
theorem genuine_pqScan (hentries : ∀ entry ∈ entries, EntryFits L H entry) (address : Option Bytes) (object : Buf) :
    (PqKeyringReturn.opened address object (pqScan L entries address object)).Genuine L H := by
  intro r hr
  obtain ⟨⟨identity, parsed⟩, hopened, rfl⟩ := Option.map_eq_some_iff.mp hr
  obtain ⟨hidentity, kemSk, hsk, hparsed, -, hid⟩ := pqKeyringOpenMsg_eq_some hopened
  obtain ⟨entry, hentry, rfl⟩ := List.mem_map.mp hidentity
  obtain ⟨hmem, hfits⟩ := List.mem_filter.mp hentry
  obtain ⟨keys, hkeys, rfl⟩ := Option.map_eq_some_iff.mp hsk
  have hgood := hentries entry hmem
  refine ⟨?_, ⟨entry.addressVersion, entry.stream, ?_⟩, keys, hgood.generatedFor hkeys, hparsed⟩
  · intro a ha
    cases ha
    exact of_decide_eq_true hfits
  · show pqv5AddressDecode H entry.address = some (_, _, parsed.toId)
    rw [hid]
    exact hgood.address

end

namespace PqKeyring

section

variable {L : PqKeyLibrary} {H : Hashes} {W : KeyWrapping} {s : PqKeyring}

/-! ### Runs -/

theorem pc_goto_self (thread : ℕ) (pc : PqKeyringPc) : (s.goto thread pc).pc thread = pc := by
  rw [PqKeyring.goto]
  exact Function.update_self _ _ _

theorem pc_goto_of_ne {thread other : ℕ} (h : other ≠ thread) (pc : PqKeyringPc) :
    (s.goto thread pc).pc other = s.pc other := by
  rw [PqKeyring.goto]
  exact Function.update_of_ne h _ _

theorem inv_init : Inv L H init := ⟨List.nodup_nil, by simp [init], by simp [init], by simp [init]⟩

theorem Inv.goto (h : Inv L H s) (thread : ℕ) {pc : PqKeyringPc}
    (hpc : ∀ entry, pc = .inserting entry → EntryFits L H entry) : Inv L H (s.goto thread pc) where
  unique := h.unique
  entries := h.entries
  inserting := by
    intro other entry hother
    by_cases hsame : other = thread
    · rw [hsame, pc_goto_self] at hother
      exact hpc entry hother
    · rw [pc_goto_of_ne hsame] at hother
      exact h.inserting other entry hother
  returns := h.returns

theorem Inv.returning (h : Inv L H s) (thread : ℕ) {r : PqKeyringReturn} (hr : r.Genuine L H) :
    Inv L H (s.returning thread r) := by
  have hidle : Inv L H (s.goto thread .idle) := h.goto thread (by simp)
  exact ⟨hidle.unique, hidle.entries, hidle.inserting, List.forall_mem_cons.mpr ⟨hr, hidle.returns⟩⟩

theorem Inv.setEntries (h : Inv L H s) {entries : List PqKeyringEntry}
    (hunique : (entries.map PqKeyringEntry.address).Nodup) (hentries : ∀ entry ∈ entries, EntryFits L H entry) :
    Inv L H { s with entries := entries } :=
  ⟨hunique, hentries, h.inserting, h.returns⟩

theorem Inv.gotSecretKeys (h : Inv L H s) (thread : ℕ) {address : Bytes} {keys : Option PqSecretKeys}
    (hkeys : ∀ k ∈ keys, GeneratedFor L H address k) (call : Option PqOpenCall) :
    Inv L H (s.gotSecretKeys thread address keys call) := by
  cases call with
  | none => exact h.returning thread hkeys
  | some call => exact h.goto thread (by simp)

theorem Inv.readSecretKeys (h : Inv L H s) (thread : ℕ) (address : Bytes) (call : Option PqOpenCall) :
    Inv L H (s.readSecretKeys thread address call) := by
  unfold PqKeyring.readSecretKeys
  cases hcur : pqFindLocked s.entries address with
  | none => exact h.gotSecretKeys thread (fun k hk => absurd hk (Option.not_mem_none k)) call
  | some cur =>
    obtain ⟨hmem, haddress⟩ := pqFindLocked_eq_some hcur
    simp only
    cases hexpanded : cur.expanded with
    | none => exact h.goto thread (by simp)
    | some keys =>
      refine h.gotSecretKeys thread ?_ call
      intro k hk
      cases hk
      rw [← haddress]
      exact (h.entries cur hmem).generatedFor hexpanded

theorem inv_step (s : PqKeyring) (l : PqKeyringLabel) (t : PqKeyring) (h : Inv L H s) (hstep : step L H W s l = some t) :
    Inv L H t := by
  cases l with
  | unlock thread db rows address passphrase now =>
    simp only [step] at hstep
    split at hstep
    · split at hstep
      · next entry hentry =>
        cases hstep
        apply h.goto thread
        rintro _ ⟨⟩
        exact entryFits_pqUnlockedEntry hentry
      · cases hstep
        exact h.returning thread trivial
    · cases hstep
  | insert thread =>
    simp only [step] at hstep
    split at hstep
    · next entry hpc =>
      cases hstep
      refine (h.returning thread (r := .unlocked entry.address true) trivial).setEntries (nodup_pqInsertLocked h.unique entry) ?_
      intro other hother
      rcases mem_pqInsertLocked hother with rfl | hold
      · exact h.inserting thread _ hpc
      · exact h.entries other hold
    · cases hstep
  | lock address older =>
    cases hstep
    cases older with
    | true => exact h
    | false =>
      have hsub := List.eraseP_sublist (p := fun entry => decide (PqKeyringEntry.address entry = address)) (l := s.entries)
      exact h.setEntries (h.unique.sublist (hsub.map _)) fun entry hentry => h.entries entry (hsub.mem hentry)
  | lockAll =>
    cases hstep
    exact h.setEntries List.nodup_nil (by simp)
  | getSecretKeys thread address =>
    simp only [step] at hstep
    split at hstep
    · cases hstep
      exact h.readSecretKeys thread address none
    · cases hstep
  | finish thread memory =>
    simp only [step] at hstep
    split at hstep
    · next address seeds call hpc =>
      cases hstep
      obtain ⟨hentries, hkeys⟩ := fits_pqFinishExpansion h.entries address seeds
      cases memory with
      | true => exact (h.gotSecretKeys thread hkeys call).setEntries (nodup_pqFinishExpansion h.unique address seeds) hentries
      | false =>
        have hnone : ∀ k ∈ (none : Option PqSecretKeys), GeneratedFor L H address k :=
          fun k hk => absurd hk (Option.not_mem_none k)
        exact (h.gotSecretKeys thread hnone call).setEntries h.unique h.entries
    · cases hstep
  | openMsg thread address object memory =>
    simp only [step] at hstep
    split at hstep
    · cases hstep
      exact h.goto thread (by simp)
    · cases hstep
  | expandNext thread =>
    simp only [step] at hstep
    split at hstep
    · cases hstep
      exact h.readSecretKeys thread _ _
    · cases hstep
  | scan thread =>
    simp only [step] at hstep
    split at hstep
    · cases hstep
      exact h.returning thread (genuine_pqScan h.entries _ _)
    · cases hstep

/-- Without an entry an expansion has no keys to return. -/
theorem returns_finish_of_absent {thread : ℕ} {address : Bytes} {seeds : PqSeeds} {memory : Bool} {t : PqKeyring}
    (hpc : s.pc thread = .expanding address seeds none) (habsent : pqFindLocked s.entries address = none)
    (hstep : step L H W s (.finish thread memory) = some t) : t.returns = .secretKeys address none :: s.returns := by
  have hnone : (pqFinishExpansion L s.entries address seeds).2 = none := by
    rcases pqFinishExpansion_cases L s.entries address seeds with hsame | ⟨cur, fresh, hcur, -⟩
    · rw [hsame]
    · cases habsent.symm.trans hcur
  simp only [step, hpc] at hstep
  cases hstep
  cases memory with
  | true =>
    simp only [if_true, hnone]
    rfl
  | false => rfl

end

/-- In every interleaving of unlocking, locking, generating secret keys and opening messages an
address has one entry at most, and what the calls return is genuine. -/
theorem pq_keyring_sound (L : PqKeyLibrary) (H : Hashes) (W : KeyWrapping) {ls : List PqKeyringLabel} {s : PqKeyring}
    (hrun : run (step L H W) init ls = some s) : Sound L H W s := by
  have hinv : Inv L H s := run_invariant inv_step inv_init hrun
  exact ⟨hinv.unique, hinv.returns, fun thread address seeds hpc habsent memory t hstep =>
    returns_finish_of_absent hpc habsent hstep⟩

end PqKeyring

/-! ### An address of ones -/

/-- Every key is its seed. -/
def plainKeyLibrary : PqKeyLibrary where
  toPqCrypto := plainPqCrypto
  sigKeypairFromSeed seed := some (seed, seed)

def onesSeed : Bytes := List.replicate 32 1

/-- The address whose id is the signing key. -/
def onesText : Bytes := (pqv5AddressEncode prefixHashes 5 1 onesSeed).getD []

/-- Its row behind the passphrase `pw`. -/
def onesRow : PqIdentityRow where
  address := onesText
  addressVersion := 5
  stream := 1
  id := onesSeed
  sigPk := onesSeed
  kemPk := onesSeed
  kdfAlgo := .scrypt
  kdfSalt := List.replicate 16 0
  kdfParams := some scryptDefaults
  wrappedSeeds := [0x70, 0x77] ++ onesText ++ (onesSeed ++ onesSeed)
  nonceTrialsPerByte := 1000
  payloadLengthExtraBytes := 1000
  address_length := by decide +kernel

/-- One thread unlocks the address, and another asks for its keys twice. -/
def onesCalls : List PqKeyringLabel :=
  [.unlock 0 ⟨KeyedTable.empty, none⟩ ⟨[onesRow], List.nodup_singleton _⟩ onesText [0x70, 0x77] 0,
    .getSecretKeys 1 onesText, .insert 0, .getSecretKeys 1 onesText, .finish 1 true, .getSecretKeys 0 onesText]

namespace PqKeyring

theorem run_onesCalls_isSome : (run (step plainKeyLibrary prefixHashes plainWrapping) init onesCalls).isSome = true := by
  decide +kernel

def onesKeyring : PqKeyring := (run (step plainKeyLibrary prefixHashes plainWrapping) init onesCalls).get run_onesCalls_isSome

/-- The keys that a call has returned. -/
def keys? : PqKeyringReturn → Option (Option PqSecretKeys)
  | .secretKeys _ keys => some keys
  | _ => none

/-- The keys are returned once the address is unlocked, and they are sound. -/
theorem ones_keys_returned :
    onesKeyring.returns.filterMap keys? = [some ⟨onesSeed, onesSeed⟩, some ⟨onesSeed, onesSeed⟩, none] ∧
      Sound plainKeyLibrary prefixHashes plainWrapping onesKeyring := by
  constructor
  · decide +kernel
  · exact pq_keyring_sound plainKeyLibrary prefixHashes plainWrapping (Option.some_get run_onesCalls_isSome).symm

end PqKeyring

end Bitmessage
