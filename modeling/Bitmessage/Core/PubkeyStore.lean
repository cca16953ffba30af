import Bitmessage.Common.CText
import Bitmessage.Core.Address
import Bitmessage.Core.PubkeyCache
import Bitmessage.Lib.KeyedTable

/-! The tables of foreign public keys: `pubkey_cache`, keyed by the ripe of the address, and
`pubkey_requests`, the addresses whose key was asked for and has not come yet. Rows are
written by received `pubkey` objects and by the call `cachePubkey`, requests by
`sendMessage`. -/

namespace Bitmessage

open Traced BufParser

deriving instance DecidableEq for CachedPubkey, Candidate

/-- The table `pubkey_cache`. Its rows are read back as the entry that was stored. -/
abbrev PubkeyTable := KeyedTable CachedPubkey.ripe

/-- A row of `pubkey_requests`. -/
structure PubkeyRequest where
  ripe : Bytes
  addressVersion : ℕ
  stream : ℕ
  requestedTime : ℤ

abbrev RequestTable := KeyedTable PubkeyRequest.ripe

structure PubkeyStore where
  cache : PubkeyTable
  requests : RequestTable

/-- `bm_pubkey_cache_upsert`: every other column is replaced. -/
def pubkeyCacheUpsert (cache : PubkeyTable) (entry : CachedPubkey) : PubkeyTable :=
  cache.upsert entry (fun row => { entry with ripe := row.ripe }) fun _ => rfl

/-- `bm_pubkey_cache_lookup_by_ripe`. -/
def pubkeyCacheLookup (cache : PubkeyTable) (ripe : Bytes) : Option CachedPubkey := cache.find? ripe

/-- `bm_pubkey_cache_record_request`: a second request for a ripe keeps its version and stream. -/
def pubkeyCacheRecordRequest (requests : RequestTable) (request : PubkeyRequest) : RequestTable :=
  requests.upsert request (fun row => { row with requestedTime := request.requestedTime }) fun _ => rfl

/-- `bm_pubkey_cache_has_recent_request`. -/
def pubkeyCacheHasRecentRequest (requests : RequestTable) (ripe : Bytes) (now maxAge : ℤ) : Bool :=
  match requests.find? ripe with
  | some row => decide (now - row.requestedTime < maxAge)
  | none => false

/-- `bm_pubkey_cache_list_pending_requests`. -/
def pubkeyCacheListPending (requests : RequestTable) : List Candidate :=
  (requests.rows.filter fun row => row.ripe.length = 20).map fun row => ⟨row.addressVersion, row.stream, row.ripe⟩

/-- `bm_pubkey_cache_clear_request`. -/
def pubkeyCacheClearRequest (requests : RequestTable) (ripe : Bytes) : RequestTable := requests.delete ripe

section

variable (C : Crypto)

/-- The parser that the version of a `pubkey` calls for. Version 4 is tried for every pending
request until one opens it. -/
def receivedPubkey (pending : List Candidate) (hdr : ObjectHeader) (object : Buf) : Option CachedPubkey :=
  if hdr.version = 2 then parsedPubkey (parsePubkeyV2 C object)
  else if hdr.version = 3 then parsedPubkey (parsePubkeyV3 C object)
  else if hdr.version = 4 then pending.findSome? fun candidate => parsedPubkey (parsePubkeyV4 C candidate object)
  else none

/-- The branch of `handle_object` for a `pubkey` below version 5. -/
def handleIncomingPubkey (store : PubkeyStore) (hdr : ObjectHeader) (object : Buf) : PubkeyStore :=
  match receivedPubkey C (pubkeyCacheListPending store.requests) hdr object with
  | none => store
  | some cached => ⟨pubkeyCacheUpsert store.cache cached, pubkeyCacheClearRequest store.requests cached.ripe⟩

end

/-! ### Calls of the interface -/

/-- The byte that `sscanf` reads with `%2x`: behind white space two characters, of which the first
may be a sign; the second ends the number if it is no digit. With `0x` the two characters are the
beginning of a number and not one themselves, which is a failure. -/
def scanHexByte (text : Bytes) : Option UInt8 :=
  match text.dropWhile isSpace with
  | [] => none
  | c :: rest =>
    if c = 0x2b then (rest.head?.bind hexDigit).map UInt8.ofNat
    else if c = 0x2d then (rest.head?.bind hexDigit).map fun d => UInt8.ofNat (2 ^ 32 - d)
    else if c = 0x30 ∧ (rest.head? = some 0x78 ∨ rest.head? = some 0x58) then none
    else (hexDigit c).map fun d => UInt8.ofNat ((rest.head?.bind hexDigit).elim d (16 * d + ·))

/-- `hex_decode_fixed`. -/
def hexDecodeFixed (hex : Bytes) (outLen : ℕ) : Option Bytes :=
  if hex.length ≠ outLen * 2 then none else (List.range outLen).mapM fun i => scanHexByte (hex.drop (i * 2))

section

variable (H : Hashes)

/-- The entry of `h_cachePubkey`. The keys are taken as they are given. -/
def cachePubkeyEntry (address signingHex encryptionHex : Bytes) : Option CachedPubkey := do
  let (version, stream, ripe) ← addressDecode H address
  let signing ← hexDecodeFixed signingHex 65
  let encryption ← hexDecodeFixed encryptionHex 65
  pure ⟨version, stream, ripe, List.replicate 32 0, 0, signing, encryption, 0, 0⟩

/-- `h_cachePubkey`. -/
def cachePubkey (store : PubkeyStore) (address signingHex encryptionHex : Bytes) : PubkeyStore :=
  match cachePubkeyEntry H address signingHex encryptionHex with
  | none => store
  | some entry => { store with cache := pubkeyCacheUpsert store.cache entry }

/-- `BM_GETPUBKEY_REQUEST_COOLDOWN_SECONDS`. -/
def getpubkeyRequestCooldown : ℤ := 10 * 60

/-- The part of `h_sendMessage` that asks for an unknown key. -/
def requestPubkeyIfUnknown (store : PubkeyStore) (toAddress : Bytes) (now : ℤ) : PubkeyStore :=
  match addressDecode H toAddress with
  | none => store
  | some (version, stream, ripe) =>
    if (pubkeyCacheLookup store.cache ripe).isSome then store
    else if pubkeyCacheHasRecentRequest store.requests ripe now getpubkeyRequestCooldown then store
    else { store with requests := pubkeyCacheRecordRequest store.requests ⟨ripe, version, stream, now⟩ }

end

/-! ### Keys and their ripe -/

/-- The ripe of the row is the hash of its keys. -/
def CachedPubkey.Bound (H : Hashes) (row : CachedPubkey) : Prop :=
  row.ripe = addressCalcRipe H row.signingPubkey row.encryptionPubkey

instance decidableBound (H : Hashes) (row : CachedPubkey) : Decidable (row.Bound H) :=
  inferInstanceAs (Decidable (_ = _))

section

variable {C : Crypto} {object : Buf} {row : CachedPubkey}

theorem parsedPubkey_eq_some {parser : BufParser CachedPubkey} (h : parsedPubkey parser = some row) :
    ∃ q, parser.result 0 = some (row, q) := by
  obtain ⟨⟨_, q⟩, hresult, rfl⟩ := Option.map_eq_some_iff.mp h
  exact ⟨q, hresult⟩

/-- Version 2 has no signature; the ripe is computed. -/
theorem parsePubkeyV2_spec (h : parsedPubkey (parsePubkeyV2 C object) = some row) :
    row.Bound C.toHashes ∧ row.addressVersion = 2 := by
  obtain ⟨q, h⟩ := parsedPubkey_eq_some h
  unfold parsePubkeyV2 at h
  obtain ⟨hdr, p₁, -, h⟩ := result_bind_eq_some.mp h
  obtain ⟨_, p₂, -, h⟩ := result_bind_eq_some.mp h
  obtain ⟨_, p₃, -, h⟩ := result_bind_eq_some.mp h
  obtain ⟨_, p₄, -, h⟩ := result_bind_eq_some.mp h
  obtain ⟨_, p₅, -, h⟩ := result_bind_eq_some.mp h
  obtain ⟨_, p₆, -, h⟩ := result_bind_eq_some.mp h
  rw [result_pure] at h
  cases h
  exact ⟨rfl, rfl⟩

theorem parsePubkeyV3_spec (h : parsedPubkey (parsePubkeyV3 C object) = some row) :
    row.Bound C.toHashes ∧ row.addressVersion = 3 := by
  obtain ⟨q, h⟩ := parsedPubkey_eq_some h
  unfold parsePubkeyV3 at h
  obtain ⟨hdr, p₁, -, h⟩ := result_bind_eq_some.mp h
  obtain ⟨_, p₂, -, h⟩ := result_bind_eq_some.mp h
  obtain ⟨_, p₃, -, h⟩ := result_bind_eq_some.mp h
  obtain ⟨_, p₄, -, h⟩ := result_bind_eq_some.mp h
  rw [result_pure] at h
  cases h
  exact ⟨rfl, rfl⟩

/-- Version 4 is checked against the address it is tried for. -/
theorem parsePubkeyV4_spec {candidate : Candidate} (h : parsedPubkey (parsePubkeyV4 C candidate object) = some row) :
    row.Bound C.toHashes ∧ row.ripe = candidate.ripe ∧ row.addressVersion = candidate.version := by
  obtain ⟨q, h⟩ := parsedPubkey_eq_some h
  unfold parsePubkeyV4 at h
  obtain ⟨hdr, p₁, -, h⟩ := result_bind_eq_some.mp h
  obtain ⟨_, p₂, -, h⟩ := result_bind_eq_some.mp h
  obtain ⟨_, p₃, -, h⟩ := result_bind_eq_some.mp h
  obtain ⟨_, p₄, -, h⟩ := result_bind_eq_some.mp h
  obtain ⟨_, p₅, -, h⟩ := result_bind_eq_some.mp h
  obtain ⟨_, p₆, -, h⟩ := result_bind_eq_some.mp h
  split at h
  · rw [result_stop] at h
    cases h
  · unfold parsePubkeyV4Body at h
    obtain ⟨f, p₇, -, h⟩ := result_bind_eq_some.mp h
    obtain ⟨_, p₈, -, h⟩ := result_bind_eq_some.mp h
    obtain ⟨_, p₉, hripe, h⟩ := result_bind_eq_some.mp h
    rw [result_pure] at h
    cases h
    exact ⟨(result_require_eq_some.mp hripe).1.symm, rfl, rfl⟩

/-- A public key that a signature in the object speaks for. -/
def SignedPubkey (C : Crypto) (object : Buf) (row : CachedPubkey) : Prop :=
  parsedPubkey (parsePubkeyV3 C object) = some row ∨
    ∃ candidate, parsedPubkey (parsePubkeyV4 C candidate object) = some row

theorem SignedPubkey.bound (h : SignedPubkey C object row) : row.Bound C.toHashes := by
  rcases h with h | ⟨candidate, h⟩
  · exact (parsePubkeyV3_spec h).1
  · exact (parsePubkeyV4_spec h).1

/-- A parser that starts with the header and asks for a version accepts only that version. -/
theorem header_of_parsed {version : ℕ} {rest : ObjectHeader → BufParser CachedPubkey}
    (h : parsedPubkey (do
      let hdr ← objectParseHeader object
      require (hdr.objectType = objectPubkey ∧ hdr.version = version)
      rest hdr) = some row) :
    ∃ hdr, object.header = some hdr ∧ hdr.objectType = objectPubkey ∧ hdr.version = version := by
  obtain ⟨q, h⟩ := parsedPubkey_eq_some h
  obtain ⟨hdr, p₁, hhdr, h⟩ := result_bind_eq_some.mp h
  obtain ⟨_, p₂, hkind, -⟩ := result_bind_eq_some.mp h
  exact ⟨hdr, by rw [Buf.header, hhdr, Option.map_some], (result_require_eq_some.mp hkind).1⟩

theorem parsePubkeyV4_header {candidate : Candidate} (h : parsedPubkey (parsePubkeyV4 C candidate object) = some row) :
    ∃ hdr, object.header = some hdr ∧ hdr.objectType = objectPubkey ∧ hdr.version = 4 :=
  header_of_parsed h

theorem parsePubkeyV3_header (h : parsedPubkey (parsePubkeyV3 C object) = some row) :
    ∃ hdr, object.header = some hdr ∧ hdr.objectType = objectPubkey ∧ hdr.version = 3 :=
  header_of_parsed h

/-- Only the versions 3 and 4 are signed. -/
theorem SignedPubkey.version (h : SignedPubkey C object row) :
    ∃ hdr, object.header = some hdr ∧ 3 ≤ hdr.version := by
  rcases h with h | ⟨candidate, h⟩
  · obtain ⟨hdr, hhdr, -, hversion⟩ := parsePubkeyV3_header h
    exact ⟨hdr, hhdr, by omega⟩
  · obtain ⟨hdr, hhdr, -, hversion⟩ := parsePubkeyV4_header h
    exact ⟨hdr, hhdr, by omega⟩

/-- What is received is an unsigned key of version 2 or a signed one. -/
theorem receivedPubkey_cases {pending : List Candidate} {hdr : ObjectHeader}
    (h : receivedPubkey C pending hdr object = some row) :
    (hdr.version = 2 ∧ parsedPubkey (parsePubkeyV2 C object) = some row) ∨ SignedPubkey C object row := by
  unfold receivedPubkey at h
  split_ifs at h with h₂ h₃ h₄
  · exact .inl ⟨h₂, h⟩
  · exact .inr (.inl h)
  · obtain ⟨candidate, -, h⟩ := List.exists_of_findSome?_eq_some h
    exact .inr (.inr ⟨candidate, h⟩)

theorem receivedPubkey_bound {pending : List Candidate} {hdr : ObjectHeader}
    (h : receivedPubkey C pending hdr object = some row) : row.Bound C.toHashes := by
  rcases receivedPubkey_cases h with ⟨-, h⟩ | h
  · exact (parsePubkeyV2_spec h).1
  · exact h.bound

end

/-! ### The rows after an upsert -/

section

variable {cache : PubkeyTable} {entry row : CachedPubkey}

theorem find?_pubkeyCacheUpsert_self : (pubkeyCacheUpsert cache entry).find? entry.ripe = some entry := by
  rw [pubkeyCacheUpsert, KeyedTable.find?_upsert_self]
  cases h : cache.find? entry.ripe with
  | none => rfl
  | some b =>
    have hb : b.ripe = entry.ripe := (KeyedTable.find?_eq_some.mp h).2
    simp [hb]

theorem find?_pubkeyCacheUpsert_of_ne {ripe : Bytes} (h : ripe ≠ entry.ripe) :
    (pubkeyCacheUpsert cache entry).find? ripe = cache.find? ripe :=
  KeyedTable.find?_upsert_of_ne cache _ _ h

theorem mem_pubkeyCacheUpsert (h : row ∈ (pubkeyCacheUpsert cache entry).rows) : row = entry ∨ row ∈ cache.rows := by
  have hfind : (pubkeyCacheUpsert cache entry).find? row.ripe = some row := KeyedTable.find?_eq_some.mpr ⟨h, rfl⟩
  by_cases he : row.ripe = entry.ripe
  · rw [he, find?_pubkeyCacheUpsert_self] at hfind
    exact .inl (Option.some.inj hfind).symm
  · rw [find?_pubkeyCacheUpsert_of_ne he] at hfind
    exact .inr (KeyedTable.find?_eq_some.mp hfind).1

theorem mem_pubkeyCacheUpsert_self : entry ∈ (pubkeyCacheUpsert cache entry).rows :=
  (KeyedTable.find?_eq_some.mp find?_pubkeyCacheUpsert_self).1

/-- An upsert removes no key. -/
theorem isSome_find?_pubkeyCacheUpsert {ripe : Bytes} (h : (cache.find? ripe).isSome = true) :
    ((pubkeyCacheUpsert cache entry).find? ripe).isSome = true := by
  by_cases he : ripe = entry.ripe
  · rw [he, find?_pubkeyCacheUpsert_self]
    rfl
  · rwa [find?_pubkeyCacheUpsert_of_ne he]

end

end Bitmessage
