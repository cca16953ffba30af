import Bitmessage.Common.Bytes
import Bitmessage.Lib.KeyedTable

/-! The propagation state of Dandelion++. A new object is first passed on to one peer, the
stem; it is announced to everybody, fluffed, once its deadline has passed, when there is
no stem, or when it was heard of in a plain `inv`. The deadline is drawn when the hash is
met for the first time, and the entry of a hash is dropped some time after it was fluffed. -/

namespace Bitmessage

/-- `BM_DANDELION_EPOCH_SECONDS`. -/
def dandelionEpochSeconds : ℤ := 600

/-- `BM_DANDELION_TIMEOUT_BASE_SECONDS`. -/
def dandelionTimeoutBaseSeconds : ℤ := 10

/-- `BM_DANDELION_ENTRY_PRUNE_AGE_SECONDS`. -/
def dandelionEntryPruneAgeSeconds : ℤ := 300

/-- `BM_DANDELION_MAX_EXPIRE_PER_CALL`. -/
def dandelionMaxExpirePerCall : ℕ := 64

/-- `struct dandelion_entry`; `fluffedAt` is zero until the hash is fluffed. -/
structure DandelionEntry where
  hash : Bytes
  fluffDeadline : ℤ
  fluffedAt : ℤ
  learnedViaPlainInv : Bool

/-- What `bm_network_resolve_peer_ip_port` tells of a connection. -/
structure PeerAddress where
  ip : Bytes
  port : ℤ
  deriving DecidableEq

/-- The state of the module. The entries are found by their hash through the index. -/
structure Dandelion where
  stem : Option PeerAddress
  epochStarted : ℤ
  entries : KeyedTable DandelionEntry.hash

/-- `enum bm_propagation_mode`. -/
inductive PropagationMode
  | fluff
  | stem
  | skip
  deriving DecidableEq

/-- An entry as it is created. The delay is the sample of the exponential distribution, cut to
whole seconds. -/
def DandelionEntry.new (hash : Bytes) (now : ℤ) (delay : ℕ) : DandelionEntry where
  hash := hash
  fluffDeadline := now + dandelionTimeoutBaseSeconds + delay
  fluffedAt := 0
  learnedViaPlainInv := false

/-- `find_or_create_entry`. -/
def findOrCreateEntry (d : Dandelion) (hash : Bytes) (now : ℤ) (delay : ℕ) : Dandelion × DandelionEntry :=
  let new := DandelionEntry.new hash now delay
  ({ d with entries := d.entries.insertOrIgnore new }, (d.entries.find? hash).getD new)

/-- A change of the entry of one hash. -/
def Dandelion.modify (d : Dandelion) (hash : Bytes) (f : DandelionEntry → DandelionEntry)
    (hf : ∀ e, (f e).hash = e.hash) : Dandelion :=
  { d with entries := d.entries.update (fun e => if e.hash = hash then f e else e) fun e => by split <;> simp [hf] }

/-- `bm_dandelion_note_source`. -/
def dandelionNoteSource (d : Dandelion) (hash : Bytes) (isDinv : Bool) (now : ℤ) (delay : ℕ) : Dandelion :=
  if isDinv then d
  else (findOrCreateEntry d hash now delay).1.modify hash (fun e => { e with learnedViaPlainInv := true }) fun _ => rfl

/-- `now - epoch_started < BM_DANDELION_EPOCH_SECONDS` fails: a new stem is to be chosen. -/
def reshuffleDue (d : Dandelion) (now : ℤ) : Bool :=
  decide (d.epochStarted = 0 ∨ dandelionEpochSeconds ≤ now - d.epochStarted)

/-- The hash of the entry is to be announced to everybody. -/
def FluffsAt (stem : Option PeerAddress) (e : DandelionEntry) (now : ℤ) : Prop :=
  e.fluffedAt ≠ 0 ∨ e.fluffDeadline ≤ now ∨ stem = none ∨ e.learnedViaPlainInv = true

instance (stem : Option PeerAddress) (e : DandelionEntry) (now : ℤ) : Decidable (FluffsAt stem e now) :=
  inferInstanceAs (Decidable (_ ∨ _ ∨ _ ∨ _))

/-- The entry once it is fluffed. -/
def DandelionEntry.fluffed (e : DandelionEntry) (now : ℤ) : DandelionEntry :=
  if e.fluffedAt = 0 then { e with fluffedAt := now } else e

@[simp] theorem DandelionEntry.fluffed_hash (e : DandelionEntry) (now : ℤ) : (e.fluffed now).hash = e.hash := by
  unfold fluffed
  split_ifs <;> rfl

/-- `bm_dandelion_decide`. -/
def dandelionDecide (d : Dandelion) (hash : Bytes) (target : Option PeerAddress) (now : ℤ) (delay : ℕ) :
    Dandelion × PropagationMode :=
  let (d, e) := findOrCreateEntry d hash now delay
  if FluffsAt d.stem e now then (d.modify hash (fun e => e.fluffed now) (by simp), .fluff)
  else (d, if target = d.stem then .stem else .skip)

/-- The hashes that `bm_dandelion_expire_and_refluff` announces: not fluffed, the deadline passed. -/
def expiredHashes (d : Dandelion) (now : ℤ) : List Bytes :=
  ((d.entries.rows.filter fun e => decide (e.fluffedAt = 0 ∧ e.fluffDeadline ≤ now)).take
    dandelionMaxExpirePerCall).map DandelionEntry.hash

/-- The entry was fluffed so long ago that it is dropped. -/
def DandelionEntry.stale (e : DandelionEntry) (now : ℤ) : Bool :=
  decide (e.fluffedAt ≠ 0 ∧ dandelionEntryPruneAgeSeconds < now - e.fluffedAt)

/-- The part of `bm_dandelion_expire_and_refluff` under the lock. -/
def dandelionExpire (d : Dandelion) (now : ℤ) : Dandelion :=
  let marked := d.entries.update (fun e => if e.hash ∈ expiredHashes d now then { e with fluffedAt := now } else e)
    fun e => by split <;> rfl
  { d with entries := marked.deleteWhere fun e => e.stale now }

/-- `bm_dandelion_is_stemming`. -/
def dandelionIsStemming (d : Dandelion) (hash : Bytes) : Bool :=
  match d.entries.find? hash with
  | none => false
  | some e => decide (e.fluffedAt = 0)

/-! ### What the operations do to the entry of a hash -/

section

variable {d : Dandelion} {hash k : Bytes} {now : ℤ} {delay : ℕ}

/-- The entry that `find_or_create_entry` returns. -/
def Dandelion.entry (d : Dandelion) (hash : Bytes) (now : ℤ) (delay : ℕ) : DandelionEntry :=
  (d.entries.find? hash).getD (DandelionEntry.new hash now delay)

theorem Dandelion.entry_of_some {e : DandelionEntry} (h : d.entries.find? hash = some e) :
    d.entry hash now delay = e := by
  rw [Dandelion.entry, h, Option.getD_some]

theorem find?_findOrCreateEntry :
    (findOrCreateEntry d hash now delay).1.entries.find? k =
      if k = hash then some (d.entry hash now delay) else d.entries.find? k := by
  split_ifs with hk
  · rw [hk]
    exact KeyedTable.find?_insertOrIgnore_self d.entries (DandelionEntry.new hash now delay)
  · exact KeyedTable.find?_insertOrIgnore_of_ne d.entries hk

theorem find?_modify {f : DandelionEntry → DandelionEntry} {hf : ∀ e, (f e).hash = e.hash} :
    (d.modify hash f hf).entries.find? k = (d.entries.find? k).map fun e => if k = hash then f e else e := by
  unfold Dandelion.modify
  rw [KeyedTable.find?_update]
  refine Option.map_congr fun e he => ?_
  rw [(KeyedTable.find?_eq_some.mp he).2]

theorem find?_noteSource {isDinv : Bool} (hk : k ≠ hash) :
    (dandelionNoteSource d hash isDinv now delay).entries.find? k = d.entries.find? k := by
  unfold dandelionNoteSource
  split_ifs
  · rfl
  · rw [find?_modify, find?_findOrCreateEntry]
    simp [hk]

/-- A plain `inv` is noted in the entry; nothing else of it changes. -/
theorem find?_noteSource_self : (dandelionNoteSource d hash false now delay).entries.find? hash =
    some { d.entry hash now delay with learnedViaPlainInv := true } := by
  unfold dandelionNoteSource
  rw [if_neg Bool.false_ne_true, find?_modify, find?_findOrCreateEntry]
  simp

/-- The decision, and the entry after it. -/
theorem dandelionDecide_eq {target : Option PeerAddress} :
    (dandelionDecide d hash target now delay).2 =
        (if FluffsAt d.stem (d.entry hash now delay) now then .fluff else if target = d.stem then .stem else .skip) ∧
      ∀ k, (dandelionDecide d hash target now delay).1.entries.find? k =
        if k = hash then
          some (if FluffsAt d.stem (d.entry hash now delay) now then (d.entry hash now delay).fluffed now
            else d.entry hash now delay)
        else d.entries.find? k := by
  have hentry : (findOrCreateEntry d hash now delay).2 = d.entry hash now delay := rfl
  unfold dandelionDecide
  simp only [hentry]
  have hstem : (findOrCreateEntry d hash now delay).1.stem = d.stem := rfl
  rw [hstem]
  by_cases hfluff : FluffsAt d.stem (d.entry hash now delay) now
  · simp only [hfluff, if_true]
    refine ⟨trivial, fun k => ?_⟩
    rw [find?_modify, find?_findOrCreateEntry]
    split_ifs <;> simp
  · simp only [hfluff, if_false]
    exact ⟨trivial, fun k => find?_findOrCreateEntry⟩

@[simp] theorem stem_dandelionDecide {target : Option PeerAddress} :
    (dandelionDecide d hash target now delay).1.stem = d.stem := by
  unfold dandelionDecide
  simp only
  split_ifs <;> rfl

@[simp] theorem stem_dandelionNoteSource {isDinv : Bool} :
    (dandelionNoteSource d hash isDinv now delay).stem = d.stem := by
  unfold dandelionNoteSource
  split_ifs <;> rfl

/-- The hashes to announce have an entry whose deadline has passed. -/
theorem mem_expiredHashes (h : hash ∈ expiredHashes d now) :
    ∃ e, d.entries.find? hash = some e ∧ e.fluffedAt = 0 ∧ e.fluffDeadline ≤ now := by
  obtain ⟨e, he, rfl⟩ := List.mem_map.mp h
  obtain ⟨hmem, hdue⟩ := List.mem_filter.mp (List.mem_of_mem_take he)
  exact ⟨e, KeyedTable.find?_eq_some.mpr ⟨hmem, rfl⟩, by simpa using hdue⟩

/-- A sweep marks the expired entries and drops the stale ones. -/
theorem find?_dandelionExpire : (dandelionExpire d now).entries.find? hash =
    ((d.entries.find? hash).map fun e => if hash ∈ expiredHashes d now then { e with fluffedAt := now } else e).filter
      fun e => !e.stale now := by
  unfold dandelionExpire
  rw [KeyedTable.find?_deleteWhere, KeyedTable.find?_update]
  congr 1
  refine Option.map_congr fun e he => ?_
  rw [(KeyedTable.find?_eq_some.mp he).2]

end

end Bitmessage
