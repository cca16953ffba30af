import Bitmessage.Core.MinedObject
import Bitmessage.Infra.PubkeyResolution
import Bitmessage.Pow.Queue

/-! The requests for unknown public keys. A message to an unknown address submits a
`getpubkey` to the proof-of-work queue and records the request, be the job accepted or
not. The recorded requests stop further ones for a while, and are the addresses that a
received `pubkey` of version 4 is tried for. Beside the tables the states here carry the
requests whose job was accepted, the latest first: what the table should tell. -/

namespace Bitmessage

open Transition

/-- The tables, and the requests whose job was accepted. -/
structure RequestSync where
  pubkeys : PubkeySync
  accepted : List PubkeyRequest

inductive RequestEvent
  | pool (e : PoolEvent)
  | cachePubkey (address signingHex encryptionHex : Bytes)
  | sendMessage (queue : PowQueue Unit) (toAddress : Bytes) (now : ℤ)

section

variable (H : Hashes)

/-- The `getpubkey` that `h_sendMessage` asks for. -/
def wantedRequest (store : PubkeyStore) (toAddress : Bytes) (now : ℤ) : Option PubkeyRequest :=
  (addressDecode H toAddress).bind fun (version, stream, ripe) =>
    if (pubkeyCacheLookup store.cache ripe).isSome then none
    else if pubkeyCacheHasRecentRequest store.requests ripe now getpubkeyRequestCooldown then none
    else some ⟨ripe, version, stream, now⟩

/-- The key of the job: `G` and the ripe. -/
def getpubkeyKey (ripe : Bytes) : Bytes := 0x47 :: ripe

/-- The answer of `bm_pow_queue_submit` to the job of a request. -/
def submitGetpubkey (queue : PowQueue Unit) (request : PubkeyRequest) : ℤ :=
  let payload := buildGetpubkey H request.addressVersion request.stream request.ripe
    (expiresAt request.requestedTime getpubkeyRequestTtl)
  (powQueueSubmit queue false payload (getpubkeyDifficulty.target payload.length getpubkeyRequestTtl)
    (some (getpubkeyKey request.ripe)) ()).1

/-- The requests with an accepted job, after a message. -/
def acceptedAfter (accepted : List PubkeyRequest) (queue : PowQueue Unit) : Option PubkeyRequest → List PubkeyRequest
  | some request => if submitGetpubkey H queue request = 0 then request :: accepted else accepted
  | none => accepted

end

/-- The key that a correct `pubkey` for a request brings. -/
def pubkeyFor (C : Crypto) (request : PubkeyRequest) (object : Buf) : Option CachedPubkey :=
  if request.addressVersion = 2 then parsedPubkey (parsePubkeyV2 C object)
  else if request.addressVersion = 3 then parsedPubkey (parsePubkeyV3 C object)
  else if request.addressVersion = 4 then
    parsedPubkey (parsePubkeyV4 C ⟨request.addressVersion, request.stream, request.ripe⟩ object)
  else none

/-- The object opens under the request of a candidate. -/
def opens (C : Crypto) (object : Buf) (candidate : Candidate) : Bool :=
  (parsedPubkey (parsePubkeyV4 C candidate object)).isSome

variable (N : Node)

def requestNext (s : RequestSync) : RequestEvent → RequestSync
  | .pool e => { s with pubkeys := pubkeyNext N s.pubkeys (.pool e) }
  | .cachePubkey address signingHex encryptionHex =>
    { s with pubkeys := pubkeyNext N s.pubkeys (.cachePubkey address signingHex encryptionHex) }
  | .sendMessage queue toAddress now =>
    ⟨pubkeyNext N s.pubkeys (.sendMessage toAddress now),
      acceptedAfter N.toHashes s.accepted queue (wantedRequest N.toHashes s.pubkeys.store toAddress now)⟩

def requestStep (s : RequestSync) (e : RequestEvent) : Option RequestSync := some (requestNext N s e)

namespace RequestSync

variable (s : RequestSync)

/-- The rows of `pubkey_requests`. -/
def requests : RequestTable := s.pubkeys.store.requests

/-- The latest request for a ripe whose job was accepted. -/
def lastAccepted (ripe : Bytes) : Option PubkeyRequest := s.accepted.find? fun request => request.ripe = ripe

/-- The public key with a ripe is known. -/
def Known (ripe : Bytes) : Prop := (pubkeyCacheLookup s.pubkeys.store.cache ripe).isSome = true

/-- An accepted request is recorded until its key is known. -/
def Recorded : Prop :=
  ∀ ripe, (s.lastAccepted ripe).isSome = true → (s.requests.find? ripe).isSome = true ∨ s.Known ripe

/-- The table tells the latest accepted request for each of its ripes, and a request that is held
back was accepted a short time ago. -/
structure Bookkept : Prop where
  rows : ∀ row ∈ s.requests.rows, s.lastAccepted row.ripe = some row
  cooldown : ∀ ripe now, pubkeyCacheHasRecentRequest s.requests ripe now getpubkeyRequestCooldown = true →
    ∃ request ∈ s.accepted, request.ripe = ripe ∧ now - request.requestedTime < getpubkeyRequestCooldown

/-- The object answers the latest accepted request for a ripe whose key is still unknown: it passes
the checks, and is a correct `pubkey` for the request. -/
structure IsAnswer (ripe : Bytes) (r : Receipt) (key : CachedPubkey) : Prop where
  unknown : ¬ s.Known ripe
  accepted : (objectAccept N.toHashes r.object r.now).isSome = true
  brings : ∃ request, s.lastAccepted ripe = some request ∧ pubkeyFor N.toCrypto request r.object = some key
  ripe_eq : key.ripe = ripe

/-- `handle_object` takes an answer that arrives: the key is known afterwards. -/
def TakesAnswers : RequestEvent → Prop
  | .pool (.receive K r) => ∀ ripe key, s.IsAnswer N ripe r key →
    (s.pubkeys.sync.sync.dispatched (N.context K) r).isSome = true ∧
      pubkeyCacheLookup (requestNext N s (.pool (.receive K r))).pubkeys.store.cache ripe = some key
  | .pool (.gc _) | .pool (.maybeGc _) | .cachePubkey _ _ _ | .sendMessage _ _ _ => True

/-- If the event asks for a key, the queue takes the job, and a request for the same ripe that is
still recorded has the same version and stream. -/
def AsksFaithfully : RequestEvent → Prop
  | .sendMessage queue toAddress now =>
    ∀ request ∈ wantedRequest N.toHashes s.pubkeys.store toAddress now,
      submitGetpubkey N.toHashes queue request = 0 ∧
        ∀ row ∈ s.requests.find? request.ripe, row.addressVersion = request.addressVersion ∧ row.stream = request.stream
  | .pool _ | .cachePubkey _ _ _ => True

/-- An answer that arrives is not in the pool yet, and the first of the recorded requests that opens
it, if it has to be opened, is for the ripe. -/
def AnswersAfresh : RequestEvent → Prop
  | .pool (.receive K r) => ∀ ripe key, s.IsAnswer N ripe r key →
    r.hash (N.context K) ∉ s.pubkeys.sync.sync.poolHashes ∧
      ∀ candidate, (pubkeyCacheListPending s.requests).find? (opens N.toCrypto r.object) = some candidate →
        candidate.ripe = ripe
  | .pool (.gc _) | .pool (.maybeGc _) | .cachePubkey _ _ _ | .sendMessage _ _ _ => True

end RequestSync

section

variable {N} {s : RequestSync} {row : PubkeyRequest}

theorem find?_recordRequest_self {requests : RequestTable} {request : PubkeyRequest} :
    (pubkeyCacheRecordRequest requests request).find? request.ripe =
      some ((requests.find? request.ripe).elim request fun row => { row with requestedTime := request.requestedTime }) :=
  KeyedTable.find?_upsert_self requests request _ _

theorem find?_recordRequest_of_ne {requests : RequestTable} {request : PubkeyRequest} {ripe : Bytes}
    (h : ripe ≠ request.ripe) : (pubkeyCacheRecordRequest requests request).find? ripe = requests.find? ripe :=
  KeyedTable.find?_upsert_of_ne requests _ _ h

/-- What a message does to the tables. -/
theorem requestPubkeyIfUnknown_eq (H : Hashes) (store : PubkeyStore) (toAddress : Bytes) (now : ℤ) :
    requestPubkeyIfUnknown H store toAddress now = (wantedRequest H store toAddress now).elim store fun request =>
      { store with requests := pubkeyCacheRecordRequest store.requests request } := by
  unfold requestPubkeyIfUnknown wantedRequest
  cases addressDecode H toAddress with
  | none => rfl
  | some decoded =>
    obtain ⟨version, stream, ripe⟩ := decoded
    simp only [Option.bind_some]
    split_ifs <;> rfl

/-- A request is made for a key that is not known and was not asked for a short time ago. -/
theorem wantedRequest_eq_some {H : Hashes} {store : PubkeyStore} {toAddress : Bytes} {now : ℤ} {request : PubkeyRequest}
    (h : wantedRequest H store toAddress now = some request) :
    (pubkeyCacheLookup store.cache request.ripe).isSome = false ∧ request.requestedTime = now ∧
      pubkeyCacheHasRecentRequest store.requests request.ripe now getpubkeyRequestCooldown = false := by
  obtain ⟨⟨version, stream, ripe⟩, -, h⟩ := Option.bind_eq_some_iff.mp h
  simp only at h
  split_ifs at h with hknown hrecent
  cases h
  exact ⟨Bool.eq_false_iff.mpr hknown, rfl, Bool.eq_false_iff.mpr hrecent⟩

theorem recentRequest_iff {requests : RequestTable} {ripe : Bytes} {now maxAge : ℤ} :
    pubkeyCacheHasRecentRequest requests ripe now maxAge = true ↔
      ∃ row, requests.find? ripe = some row ∧ now - row.requestedTime < maxAge := by
  unfold pubkeyCacheHasRecentRequest
  cases requests.find? ripe with
  | none => simp
  | some row => simp

/-- In the table or by its key, the row of a ripe is the same. -/
theorem rows_iff_find? {requests : RequestTable} {P : PubkeyRequest → Prop} :
    (∀ row ∈ requests.rows, P row) ↔ ∀ ripe row, requests.find? ripe = some row → P row := by
  constructor
  · exact fun h ripe row hrow => h row (KeyedTable.find?_eq_some.mp hrow).1
  · exact fun h row hrow => h row.ripe row (KeyedTable.find?_eq_some.mpr ⟨hrow, rfl⟩)

theorem parsePubkeyV2_header {C : Crypto} {object : Buf} {key : CachedPubkey}
    (h : parsedPubkey (parsePubkeyV2 C object) = some key) :
    ∃ hdr, object.header = some hdr ∧ hdr.objectType = objectPubkey ∧ hdr.version = 2 :=
  header_of_parsed h

/-- The first candidate that opens an object of version 4 decides what is read. -/
theorem receivedPubkey_v4 {C : Crypto} {pending : List Candidate} {hdr : ObjectHeader} {object : Buf}
    (hversion : hdr.version = 4) :
    receivedPubkey C pending hdr object =
      (pending.find? (opens C object)).bind fun candidate => parsedPubkey (parsePubkeyV4 C candidate object) := by
  rw [receivedPubkey, if_neg (by omega), if_neg (by omega), if_pos hversion]
  induction pending with
  | nil => rfl
  | cons candidate rest ih =>
    cases hkey : parsedPubkey (parsePubkeyV4 C candidate object) with
    | none => rw [List.findSome?_cons_of_isNone (by rw [hkey]; rfl), List.find?_cons_of_neg (by simp [opens, hkey]), ih]
    | some key =>
      rw [List.findSome?_cons_of_isSome (by rw [hkey]; rfl), List.find?_cons_of_pos (by simp [opens, hkey]), hkey]
      simp [hkey]

/-- An object that opens under a request is of version 4. -/
theorem header_of_opens {C : Crypto} {object : Buf} {candidate : Candidate} (h : opens C object candidate = true) :
    ∃ hdr, object.header = some hdr ∧ hdr.objectType = objectPubkey ∧ hdr.version = 4 := by
  obtain ⟨key, hkey⟩ := Option.isSome_iff_exists.mp h
  exact parsePubkeyV4_header hkey

/-- A correct `pubkey` is taken when the first candidate that opens it, if it has to be opened, is that of
the request. -/
theorem receivedPubkey_of_pubkeyFor {C : Crypto} {request : PubkeyRequest} {object : Buf} {key : CachedPubkey}
    {pending : List Candidate} (h : pubkeyFor C request object = some key)
    (hpending : request.ripe.length = ripeLen →
      opens C object ⟨request.addressVersion, request.stream, request.ripe⟩ = true →
        pending.find? (opens C object) = some ⟨request.addressVersion, request.stream, request.ripe⟩) :
    ∃ hdr, object.header = some hdr ∧ hdr.objectType = objectPubkey ∧
      receivedPubkey C pending hdr object = some key := by
  unfold pubkeyFor at h
  split_ifs at h with h₂ h₃ h₄
  · obtain ⟨hdr, hheader, htype, hversion⟩ := parsePubkeyV2_header h
    refine ⟨hdr, hheader, htype, ?_⟩
    rw [receivedPubkey, if_pos hversion, h]
  · obtain ⟨hdr, hheader, htype, hversion⟩ := parsePubkeyV3_header h
    refine ⟨hdr, hheader, htype, ?_⟩
    rw [receivedPubkey, if_neg (by omega), if_pos hversion, h]
  · obtain ⟨hdr, hheader, htype, hversion⟩ := parsePubkeyV4_header h
    obtain ⟨hbound, hripe, -⟩ := parsePubkeyV4_spec h
    have hlen : request.ripe.length = ripeLen := by
      rw [← show key.ripe = request.ripe from hripe, hbound]
      exact length_addressCalcRipe _ _ _
    refine ⟨hdr, hheader, htype, ?_⟩
    rw [receivedPubkey_v4 hversion, hpending hlen (by rw [opens, h]; rfl), Option.bind_some, h]

/-- What the cooldown says follows from the rows. -/
theorem RequestSync.bookkept_of_rows (hrows : ∀ row ∈ s.requests.rows, s.lastAccepted row.ripe = some row) :
    s.Bookkept where
  rows := hrows
  cooldown := by
    intro ripe now hrecent
    obtain ⟨row, hrow, htime⟩ := recentRequest_iff.mp hrecent
    obtain ⟨hmem, hripe⟩ := KeyedTable.find?_eq_some.mp hrow
    exact ⟨row, List.mem_of_find?_eq_some (hrows row hmem), hripe, htime⟩

theorem find?_acceptedAfter_of_ne {H : Hashes} {accepted : List PubkeyRequest} {queue : PowQueue Unit}
    {request : PubkeyRequest} {ripe : Bytes} (h : ripe ≠ request.ripe) :
    ((acceptedAfter H accepted queue (some request)).find? fun r => r.ripe = ripe) =
      accepted.find? fun r => r.ripe = ripe := by
  simp only [acceptedAfter]
  split_ifs with hrc
  · rw [List.find?_cons_of_neg]
    simpa using Ne.symm h
  · rfl

theorem find?_acceptedAfter_self {H : Hashes} (accepted : List PubkeyRequest) {queue : PowQueue Unit}
    {request : PubkeyRequest} :
    ((acceptedAfter H accepted queue (some request)).find? fun r => r.ripe = request.ripe) =
      if submitGetpubkey H queue request = 0 then some request
      else accepted.find? fun r => r.ripe = request.ripe := by
  simp only [acceptedAfter]
  split_ifs with hrc
  · rw [List.find?_cons_of_pos (by simp)]
  · rfl

/-! ### Objects and keys given by hand -/

/-- A received object takes back a request when it brings the key. -/
theorem requests_storeAfter (e : PoolEvent) (ripe : Bytes) :
    (s.pubkeys.storeAfter N e).requests.find? ripe = s.requests.find? ripe ∨
      (s.pubkeys.storeAfter N e).requests.find? ripe = none ∧
        (pubkeyCacheLookup (s.pubkeys.storeAfter N e).cache ripe).isSome = true := by
  cases e with
  | receive K r =>
    rcases storeAfter_receive (N := N) (s := s.pubkeys) K r with hsame | ⟨hdr, key, -, -, -, hafter⟩
    · rw [hsame]
      exact .inl rfl
    · rw [hafter]
      by_cases hripe : ripe = key.ripe
      · right
        subst hripe
        refine ⟨KeyedTable.find?_delete_self _ _, ?_⟩
        rw [pubkeyCacheLookup, find?_pubkeyCacheUpsert_self]
        rfl
      · exact .inl (KeyedTable.find?_delete_of_ne _ hripe)
  | gc now => exact .inl rfl
  | maybeGc now => exact .inl rfl

theorem rows_pool (e : PoolEvent) (h : ∀ row ∈ s.requests.rows, s.lastAccepted row.ripe = some row) :
    ∀ row ∈ (requestNext N s (.pool e)).requests.rows, s.lastAccepted row.ripe = some row := by
  rw [rows_iff_find?] at h ⊢
  intro ripe row hrow
  rcases requests_storeAfter (N := N) (s := s) e ripe with hsame | ⟨hnone, -⟩
  · exact h ripe row (hsame.symm.trans hrow)
  · exact absurd (hnone.symm.trans hrow) (Option.some_ne_none row).symm

theorem requests_cachePubkey (store : PubkeyStore) (address signingHex encryptionHex : Bytes) :
    (cachePubkey N.toHashes store address signingHex encryptionHex).requests = store.requests := by
  unfold cachePubkey
  split <;> rfl

/-- Accepted requests stay recorded until the key is known. -/
theorem recorded_step {e : RequestEvent} {t : RequestSync} (h : s.Recorded) (hstep : requestStep N s e = some t) :
    t.Recorded := by
  cases hstep
  intro ripe hlast
  cases e with
  | pool e =>
    rcases requests_storeAfter (N := N) (s := s) e ripe with hsame | ⟨-, hknown⟩
    · rcases h ripe hlast with hrow | hknown
      · left
        rw [RequestSync.requests, requestNext, pubkeyNext, hsame]
        exact hrow
      · exact .inr (lookup_isSome_step (N := N) (.pool e) hknown)
    · exact .inr hknown
  | cachePubkey address signingHex encryptionHex =>
    rcases h ripe hlast with hrow | hknown
    · left
      rw [RequestSync.requests, requestNext, pubkeyNext, requests_cachePubkey]
      exact hrow
    · exact .inr (lookup_isSome_step (N := N) (.cachePubkey address signingHex encryptionHex) hknown)
  | sendMessage queue toAddress now =>
    simp only [RequestSync.requests, RequestSync.Known, RequestSync.lastAccepted, requestNext, pubkeyNext,
      requestPubkeyIfUnknown_eq] at hlast ⊢
    cases hwanted : wantedRequest N.toHashes s.pubkeys.store toAddress now with
    | none =>
      rw [hwanted] at hlast
      exact h ripe hlast
    | some request =>
      rw [hwanted] at hlast
      simp only [Option.elim_some]
      by_cases hripe : ripe = request.ripe
      · left
        rw [hripe, find?_recordRequest_self]
        rfl
      · rw [find?_recordRequest_of_ne hripe]
        apply h ripe
        rw [← hlast, RequestSync.lastAccepted, find?_acceptedAfter_of_ne hripe]

/-! ### Messages -/

/-- The step of a message keeps the rows exactly when the job is accepted and version and stream
are those of the recorded request. -/
theorem rows_sendMessage {queue : PowQueue Unit} {toAddress : Bytes} {now : ℤ}
    (hrows : ∀ row ∈ s.requests.rows, s.lastAccepted row.ripe = some row) (hrecorded : s.Recorded) :
    s.AsksFaithfully N (.sendMessage queue toAddress now) ↔
      ∀ row ∈ (requestNext N s (.sendMessage queue toAddress now)).requests.rows,
        (requestNext N s (.sendMessage queue toAddress now)).lastAccepted row.ripe = some row := by
  rw [rows_iff_find?] at hrows ⊢
  simp only [RequestSync.AsksFaithfully, RequestSync.requests, RequestSync.lastAccepted, requestNext, pubkeyNext,
    requestPubkeyIfUnknown_eq]
  cases hwanted : wantedRequest N.toHashes s.pubkeys.store toAddress now with
  | none => exact iff_of_true (fun _ h => absurd h (Option.not_mem_none _)) hrows
  | some request =>
    obtain ⟨hunknown, htime, hold⟩ := wantedRequest_eq_some hwanted
    simp only [Option.mem_def, Option.some.injEq, forall_eq', Option.elim_some]
    constructor
    · rintro ⟨hrc, hsame⟩ ripe row hrow
      by_cases hripe : ripe = request.ripe
      · subst hripe
        rw [find?_recordRequest_self] at hrow
        have hrow' : row = request := by
          cases hfind : s.pubkeys.store.requests.find? request.ripe with
          | none =>
            rw [hfind] at hrow
            exact (Option.some.inj hrow).symm
          | some old =>
            rw [hfind] at hrow
            obtain ⟨hversion, hstream⟩ := hsame old hfind
            have hripe := (KeyedTable.find?_eq_some.mp hfind).2
            rw [← Option.some.inj hrow]
            cases request
            simp only [Option.elim_some] at *
            rw [hversion, hstream, hripe]
        rw [hrow', find?_acceptedAfter_self, if_pos hrc]
      · rw [find?_recordRequest_of_ne hripe] at hrow
        have hne : row.ripe ≠ request.ripe := (KeyedTable.find?_eq_some.mp hrow).2 ▸ hripe
        rw [find?_acceptedAfter_of_ne hne]
        exact hrows ripe row hrow
    · intro hafter
      have hrow := hafter request.ripe _ find?_recordRequest_self
      cases hfind : s.pubkeys.store.requests.find? request.ripe with
      | none =>
        refine ⟨?_, fun _ h => absurd h.symm (Option.some_ne_none _)⟩
        rw [hfind] at hrow
        by_contra hrc
        rw [Option.elim_none, find?_acceptedAfter_self, if_neg hrc] at hrow
        -- a request that was accepted before is still recorded, or its key is known
        rcases hrecorded request.ripe (by rw [RequestSync.lastAccepted, hrow]; rfl) with hsome | hknown
        · rw [RequestSync.requests, hfind] at hsome
          exact Bool.false_ne_true hsome
        · exact Bool.false_ne_true (hunknown.symm.trans hknown)
      | some old =>
        have hripe := (KeyedTable.find?_eq_some.mp hfind).2
        rw [hfind, Option.elim_some] at hrow
        simp only [hripe, find?_acceptedAfter_self] at hrow
        split_ifs at hrow with hrc
        · refine ⟨hrc, ?_⟩
          intro row hsome
          rw [← Option.some.inj hsome]
          have heq := Option.some.inj hrow
          rw [heq]
          exact ⟨rfl, rfl⟩
        · -- the job was refused: the time of an older request would be the present
          have hlast := hrows request.ripe old hfind
          rw [hripe, RequestSync.lastAccepted, hrow] at hlast
          have htime' := congrArg PubkeyRequest.requestedTime (Option.some.inj hlast)
          have hrecent : pubkeyCacheHasRecentRequest s.pubkeys.store.requests request.ripe now getpubkeyRequestCooldown =
              true := by
            refine recentRequest_iff.mpr ⟨old, hfind, ?_⟩
            have : old.requestedTime = now := htime'.symm.trans htime
            rw [this, sub_self]
            decide
          exact absurd (hold.symm.trans hrecent) Bool.false_ne_true

/-- An object or a key given by hand keeps the rows. -/
theorem rows_receive {e : RequestEvent} (hrows : ∀ row ∈ s.requests.rows, s.lastAccepted row.ripe = some row)
    (he : ∀ queue toAddress now, e ≠ .sendMessage queue toAddress now) :
    ∀ row ∈ (requestNext N s e).requests.rows, (requestNext N s e).lastAccepted row.ripe = some row := by
  cases e with
  | pool e => exact rows_pool e hrows
  | cachePubkey address signingHex encryptionHex =>
    have hsame := requests_cachePubkey (N := N) s.pubkeys.store address signingHex encryptionHex
    intro row hrow
    rw [RequestSync.requests, requestNext, pubkeyNext, hsame] at hrow
    exact hrows row hrow
  | sendMessage queue toAddress now => exact absurd rfl (he queue toAddress now)

/-- A step keeps the books exactly when it asks faithfully. -/
theorem bookkept_step (h : s.Bookkept ∧ s.Recorded) (e : RequestEvent) :
    s.AsksFaithfully N e ↔ ∀ t, requestStep N s e = some t → t.Bookkept ∧ t.Recorded := by
  obtain ⟨hbooks, hrecorded⟩ := h
  have hafter : (requestNext N s e).Recorded := recorded_step hrecorded rfl
  have hiff : (requestNext N s e).Bookkept ∧ (requestNext N s e).Recorded ↔
      ∀ row ∈ (requestNext N s e).requests.rows, (requestNext N s e).lastAccepted row.ripe = some row :=
    ⟨fun hend => hend.1.rows, fun hrows => ⟨RequestSync.bookkept_of_rows hrows, hafter⟩⟩
  simp only [requestStep, Option.some.injEq, forall_eq', hiff]
  cases e with
  | sendMessage queue toAddress now => exact rows_sendMessage hbooks.rows hrecorded
  | pool e => exact iff_of_true trivial (rows_receive hbooks.rows (by simp))
  | cachePubkey address signingHex encryptionHex => exact iff_of_true trivial (rows_receive hbooks.rows (by simp))

/-! ### Answers -/

/-- The candidate for an accepted request whose key is unknown. -/
theorem mem_listPending {ripe : Bytes} {request : PubkeyRequest}
    (hrows : ∀ row ∈ s.requests.rows, s.lastAccepted row.ripe = some row) (hrecorded : s.Recorded)
    (hlast : s.lastAccepted ripe = some request) (hunknown : ¬ s.Known ripe) (hlen : request.ripe.length = ripeLen) :
    (⟨request.addressVersion, request.stream, request.ripe⟩ : Candidate) ∈ pubkeyCacheListPending s.requests := by
  obtain ⟨row, hrow⟩ := Option.isSome_iff_exists.mp ((hrecorded ripe (by rw [hlast]; rfl)).resolve_right hunknown)
  obtain ⟨hmem, hripe⟩ := KeyedTable.find?_eq_some.mp hrow
  have hsame := hrows row hmem
  rw [hripe, hlast] at hsame
  have heq : request = row := Option.some.inj hsame
  subst heq
  exact List.mem_map.mpr ⟨request, List.mem_filter.mpr ⟨hmem, decide_eq_true hlen⟩, rfl⟩

/-- A candidate for a ripe is that of the latest accepted request. -/
theorem candidate_of_lastAccepted {ripe : Bytes} {request : PubkeyRequest} {candidate : Candidate}
    (hrows : ∀ row ∈ s.requests.rows, s.lastAccepted row.ripe = some row) (hlast : s.lastAccepted ripe = some request)
    (hmem : candidate ∈ pubkeyCacheListPending s.requests) (hripe : candidate.ripe = ripe) :
    candidate = ⟨request.addressVersion, request.stream, request.ripe⟩ := by
  obtain ⟨row, hrow, rfl⟩ := List.mem_map.mp hmem
  have hsame := hrows row (List.mem_filter.mp hrow).1
  rw [show row.ripe = ripe from hripe, hlast] at hsame
  rw [Option.some.inj hsame]

/-- An answer that arrives afresh is taken. -/
theorem takesAnswer_of_afresh {K : Receivers} {r : Receipt} {ripe : Bytes} {key : CachedPubkey}
    (hrows : ∀ row ∈ s.requests.rows, s.lastAccepted row.ripe = some row) (hrecorded : s.Recorded)
    (hanswer : s.IsAnswer N ripe r key) (hnew : r.hash (N.context K) ∉ s.pubkeys.sync.sync.poolHashes)
    (hfirst : ∀ candidate, (pubkeyCacheListPending s.requests).find? (opens N.toCrypto r.object) = some candidate →
      candidate.ripe = ripe) :
    (s.pubkeys.sync.sync.dispatched (N.context K) r).isSome = true ∧
      pubkeyCacheLookup (requestNext N s (.pool (.receive K r))).pubkeys.store.cache ripe = some key := by
  obtain ⟨request, hlast, hkey⟩ := hanswer.brings
  obtain ⟨hdr, haccept⟩ := Option.isSome_iff_exists.mp hanswer.accepted
  have hd : s.pubkeys.sync.sync.dispatched (N.context K) r = some hdr := dispatched_eq_some.mpr ⟨hnew, haccept⟩
  have hpending : request.ripe.length = ripeLen →
      opens N.toCrypto r.object ⟨request.addressVersion, request.stream, request.ripe⟩ = true →
      (pubkeyCacheListPending s.requests).find? (opens N.toCrypto r.object) =
        some ⟨request.addressVersion, request.stream, request.ripe⟩ := by
    intro hlen hopens
    have hmem := mem_listPending hrows hrecorded hlast hanswer.unknown hlen
    obtain ⟨candidate, hfind⟩ := Option.isSome_iff_exists.mp (List.find?_isSome.mpr ⟨_, hmem, hopens⟩)
    rw [hfind, candidate_of_lastAccepted hrows hlast (List.mem_of_find?_eq_some hfind) (hfirst candidate hfind)]
  obtain ⟨hdr', hheader, htype, hreceived⟩ := receivedPubkey_of_pubkeyFor hkey hpending
  have heq : hdr = hdr' := Option.some.inj ((objectAccept_header haccept).symm.trans hheader)
  subst heq
  refine ⟨by rw [hd]; rfl, ?_⟩
  have hreceived : receivedPubkey N.toCrypto (pubkeyCacheListPending s.pubkeys.store.requests) hdr r.object =
    some key := hreceived
  simp only [requestNext, pubkeyNext, PubkeySync.storeAfter, hd, htype, if_true, handleIncomingPubkey, hreceived,
    pubkeyCacheLookup]
  rw [← hanswer.ripe_eq, find?_pubkeyCacheUpsert_self]

/-- What makes a key known arrived afresh. -/
theorem afresh_of_known {K : Receivers} {r : Receipt} {ripe : Bytes} (hunknown : ¬ s.Known ripe)
    (hknown : (requestNext N s (.pool (.receive K r))).Known ripe) :
    r.hash (N.context K) ∉ s.pubkeys.sync.sync.poolHashes ∧
      ∀ candidate, (pubkeyCacheListPending s.requests).find? (opens N.toCrypto r.object) = some candidate →
        candidate.ripe = ripe := by
  simp only [RequestSync.Known, requestNext, pubkeyNext] at hknown
  rcases storeAfter_receive (N := N) (s := s.pubkeys) K r with hsame | ⟨hdr, key, hd, -, hreceived, hafter⟩
  · rw [hsame] at hknown
    exact absurd hknown hunknown
  obtain ⟨hnew, haccept⟩ := dispatched_eq_some.mp hd
  have hripe : key.ripe = ripe := by
    by_contra hne
    rw [hafter, pubkeyCacheLookup, find?_pubkeyCacheUpsert_of_ne (Ne.symm hne)] at hknown
    exact hunknown hknown
  refine ⟨hnew, fun candidate hfind => ?_⟩
  -- the object is of version 4, so the candidate is the one that it is read under
  obtain ⟨hdr', hheader, -, hversion⟩ := header_of_opens (List.find?_some hfind)
  have heq : hdr = hdr' := Option.some.inj ((objectAccept_header haccept).symm.trans hheader)
  subst heq
  have hfind : (pubkeyCacheListPending s.pubkeys.store.requests).find? (opens N.toCrypto r.object) =
    some candidate := hfind
  rw [receivedPubkey_v4 hversion, hfind, Option.bind_some] at hreceived
  exact (parsePubkeyV4_spec hreceived).2.1.symm.trans hripe

/-- The answers that arrive with an event are taken exactly when they arrive afresh. -/
theorem takesAnswers_iff (hrows : ∀ row ∈ s.requests.rows, s.lastAccepted row.ripe = some row) (hrecorded : s.Recorded)
    (e : RequestEvent) : s.TakesAnswers N e ↔ s.AnswersAfresh N e := by
  cases e with
  | pool e =>
    cases e with
    | receive K r =>
      constructor
      · intro htakes ripe key hanswer
        have hlookup := (htakes ripe key hanswer).2
        exact afresh_of_known hanswer.unknown (by rw [RequestSync.Known, hlookup]; rfl)
      · intro hafresh ripe key hanswer
        obtain ⟨hnew, hfirst⟩ := hafresh ripe key hanswer
        exact takesAnswer_of_afresh hrows hrecorded hanswer hnew hfirst
    | gc now => exact Iff.rfl
    | maybeGc now => exact Iff.rfl
  | cachePubkey address signingHex encryptionHex => exact Iff.rfl
  | sendMessage queue toAddress now => exact Iff.rfl

end

/-- Nothing has been received or asked for. -/
def emptyRequestSync : RequestSync := ⟨emptyPubkeySync, []⟩

/-- The table of requests tells the accepted requests in every state of a run, and every answer that
arrives is taken, exactly when each message that asks for a key has its job accepted and finds no request
of another version or stream for the same ripe, and each answer is new to the pool and opens first under
its own request. -/
theorem getpubkey_bookkeeping_iff (es : List RequestEvent) :
    Always (requestStep N) RequestSync.Bookkept emptyRequestSync es ∧
        Along (requestStep N) (RequestSync.TakesAnswers N) emptyRequestSync es ↔
      Along (requestStep N) (RequestSync.AsksFaithfully N) emptyRequestSync es ∧
        Along (requestStep N) (RequestSync.AnswersAfresh N) emptyRequestSync es := by
  have hrecorded : emptyRequestSync.Recorded := fun _ h => absurd h Bool.false_ne_true
  have hbooks : emptyRequestSync.Bookkept := RequestSync.bookkept_of_rows (fun _ h => absurd h List.not_mem_nil)
  have halways : Always (requestStep N) RequestSync.Recorded emptyRequestSync es := by
    apply always_of_along (C := fun _ _ => True)
    · exact fun s e t hs _ hstep => recorded_step hs hstep
    · exact hrecorded
    · exact along_of_forall (fun _ _ => trivial) _ _
  have hkept : Always (requestStep N) RequestSync.Bookkept emptyRequestSync es ↔
      Along (requestStep N) (RequestSync.AsksFaithfully N) emptyRequestSync es := by
    rw [← always_iff_along (fun s e h => bookkept_step h e) ⟨hbooks, hrecorded⟩ es]
    exact ⟨fun h => h.and halways, fun h => h.imp fun _ h => h.1⟩
  have htakes : Along (requestStep N) (fun s e => s.AsksFaithfully N e ∧ s.TakesAnswers N e) emptyRequestSync es ↔
      Along (requestStep N) (fun s e => s.AsksFaithfully N e ∧ s.AnswersAfresh N e) emptyRequestSync es := by
    refine along_congr (I := fun s => s.Bookkept ∧ s.Recorded) ?_ ?_ ⟨hbooks, hrecorded⟩ es
    · exact fun s e t hs he hstep => (bookkept_step hs e).mp he.1 t hstep
    · exact fun s e hs => and_congr_right fun _ => takesAnswers_iff hs.1.rows hs.2 e
  rw [hkept]
  constructor
  · rintro ⟨hasks, h⟩
    exact ⟨hasks, (htakes.mp (hasks.and h)).imp fun _ _ h => h.2⟩
  · rintro ⟨hasks, h⟩
    exact ⟨hasks, (htakes.mpr (hasks.and h)).imp fun _ _ h => h.2⟩

/-! ### A full queue, two addresses with one ripe, and an object that was there before -/

deriving instance DecidableEq for PubkeyRequest

/-- A queue without jobs, and a queue for one job that has it. -/
def freeQueue : PowQueue Unit := powQueueInit 1 one_lt_wordSize
def fullQueue : PowQueue Unit := (powQueueSubmit freeQueue false [] 0 none ()).2

/-- The address of version 3 with the ripe of `greeter`. -/
def greeterAddressV3 : Bytes := (addressEncode exampleNode.toHashes 3 1 greeterCandidate.ripe).getD []

/-- The version 3 address of `greeter` is written to, and the version 4 address ten minutes later. -/
def twoVersions : List RequestEvent := [.sendMessage freeQueue greeterAddressV3 0, .sendMessage freeQueue greeterAddress 600]

/-- An object is received at the time 0. -/
def receiptNow (object : Buf) : Receipt := ⟨object, 0, 0, 0⟩

/-- The `pubkey` of `greeter` arrives, a message asks for it, and it arrives again. -/
def arrivesTwice : List RequestEvent :=
  [.pool (.receive exampleReceivers (receiptNow greeterPubkeyV4)), .sendMessage freeQueue greeterAddress 0,
    .pool (.receive exampleReceivers (receiptNow greeterPubkeyV4))]

/-- The state in which it arrives again. -/
def askedTooLate : RequestSync := (arrivesTwice.take 2).foldl (requestNext exampleNode) emptyRequestSync

/-- The key is unknown, the object is a correct one for the request, and it is dropped. -/
theorem askedTooLate_facts :
    (pubkeyCacheLookup askedTooLate.pubkeys.store.cache greeterCandidate.ripe).isSome = false ∧
      ((askedTooLate.lastAccepted greeterCandidate.ripe).bind fun request =>
        (pubkeyFor exampleNode.toCrypto request greeterPubkeyV4).map CachedPubkey.ripe) = some greeterCandidate.ripe ∧
      (askedTooLate.pubkeys.sync.sync.dispatched (exampleNode.context exampleReceivers)
        (receiptNow greeterPubkeyV4)).isSome = false := by
  decide +kernel

/-- A request that the queue refuses is recorded, a request for the other version of an address leaves the
first version recorded, and an answer that was there before the request is not taken. -/
theorem requests_not_bookkept :
    ¬ Always (requestStep exampleNode) RequestSync.Bookkept emptyRequestSync
        [.sendMessage fullQueue greeterAddress 0] ∧
      ¬ Always (requestStep exampleNode) RequestSync.Bookkept emptyRequestSync twoVersions ∧
      ¬ Along (requestStep exampleNode) (RequestSync.TakesAnswers exampleNode) emptyRequestSync arrivesTwice := by
  refine ⟨fun h => ?_, fun h => ?_, fun h => ?_⟩
  · have hrows := (h.2 _ rfl).start.rows
    revert hrows
    decide +kernel
  · have hrows := (h.2 _ rfl).2 _ rfl |>.start.rows
    revert hrows
    decide +kernel
  · obtain ⟨hunknown, hanswers, hdropped⟩ := askedTooLate_facts
    obtain ⟨request, hrequest, hkey⟩ := Option.bind_eq_some_iff.mp hanswers
    obtain ⟨key, hkey, hripe⟩ := Option.map_eq_some_iff.mp hkey
    have hanswer : askedTooLate.IsAnswer exampleNode greeterCandidate.ripe (receiptNow greeterPubkeyV4) key :=
      ⟨Bool.eq_false_iff.mp hunknown, greeterPubkeyV4_read.2.1, ⟨request, hrequest, hkey⟩, hripe⟩
    have hlast : Along (requestStep exampleNode) (RequestSync.TakesAnswers exampleNode) emptyRequestSync
      (arrivesTwice.take 2 ++ arrivesTwice.drop 2) := h
    have hstep := (hlast.right (t := askedTooLate) rfl).1
    exact Bool.false_ne_true (hdropped.symm.trans (hstep _ _ hanswer).1)

end Bitmessage
