import Bitmessage.Core.Keyring
import Bitmessage.Core.MinedObject
import Bitmessage.Infra.ObjectSync
import Bitmessage.Pow.QueueInvariants
import Mathlib.Data.List.Find

/-! The answers to requests for the own public keys. A received `getpubkey` names an address by its
ripe or by its tag; the keyring is searched from its front. The answer is mined by the worker of the
job queue, and its hash is kept with the ripe, the version and the stream, so that it is announced
again instead of being mined again. The network thread handles requests while the worker mines and
stores; a run of `responseStep` is one interleaving. -/

namespace Bitmessage

open Transition

/-! ### The table of answers -/

/-- A row of `self_pubkey_response_cache`. In a database that an older version has written,
`does_ack` is 0. -/
structure SelfResponse where
  id : Bytes
  addressVersion : ℕ
  stream : ℕ
  objectHash : Bytes
  expiresTime : ℤ
  doesAck : Bool

/-- The primary key. -/
def SelfResponse.key (row : SelfResponse) : Bytes × ℕ × ℕ := (row.id, row.addressVersion, row.stream)

abbrev SelfResponses := KeyedTable SelfResponse.key

/-- `bm_pubkey_cache_set_self_response_id`. -/
def pubkeyCacheSetSelfResponse (responses : SelfResponses) (id : Bytes) (addressVersion stream : ℕ) (objectHash : Bytes)
    (expiresTime : ℤ) : SelfResponses :=
  responses.upsert ⟨id, addressVersion, stream, objectHash, expiresTime, true⟩
    (fun row => { row with objectHash := objectHash, expiresTime := expiresTime, doesAck := true }) fun _ => rfl

/-- `bm_pubkey_cache_get_self_response_id`. -/
def pubkeyCacheGetSelfResponse (responses : SelfResponses) (id : Bytes) (addressVersion stream : ℕ) (now : ℤ) :
    Option Bytes :=
  (responses.find? (id, addressVersion, stream)).bind fun row =>
    if row.doesAck ∧ now < row.expiresTime ∧ row.objectHash.length = 32 then some row.objectHash else none

/-- `reuse_cached_pubkey_response`: the hash that is announced again. -/
def reuseCachedPubkeyResponse (pool : ObjectPool) (responses : SelfResponses) (id : Bytes) (addressVersion stream : ℕ)
    (now : ℤ) : Option Bytes :=
  (pubkeyCacheGetSelfResponse responses id addressVersion stream now).filter fun hash => objectStoreHas pool hash

/-! ### The selected identity -/

/-- The lookup of `handle_incoming_getpubkey`, for the versions other than 5. -/
def getpubkeyIdentity (H : Hashes) (kr : Keyring) (hdr : ObjectHeader) (object : Buf) : Option UnlockedIdentity :=
  if hdr.version < 2 ∨ 4 < hdr.version then none
  else if hdr.version ≤ 3 then
    if object.size - hdr.headerLen < ripeLen then none
    else
      match keyringFindByRipeVersion kr (object.slice hdr.headerLen ripeLen) hdr.version hdr.stream with
      | some id => some id
      | none =>
        -- the key of the address of version 4 with the same ripe
        if hdr.version = 3 then keyringFindByRipeVersion kr (object.slice hdr.headerLen ripeLen) 4 hdr.stream else none
  else if object.size - hdr.headerLen < 32 then none
  else
    (keyringFindByTag H kr (object.slice hdr.headerLen 32)).filter fun id =>
      id.addressVersion = hdr.version ∧ id.stream = hdr.stream

/-- A public key of 65 bytes. -/
def publicKeyOf (pub : Bytes) : PublicKey where
  coordinates := (pub.drop 1 ++ List.replicate 64 0).take 64
  length_coordinates := by simp

/-- The fields of `bm_identity_info` that the answer is built from: those of the identity, with the
version of the request. -/
def responseInfo (id : UnlockedIdentity) (version : ℕ) : IdentityInfo where
  addressVersion := version % wordSize
  stream := id.stream % wordSize
  pubSigning := publicKeyOf id.pubSigning
  pubEncryption := publicKeyOf id.pubEncryption
  privSigning := id.privSigning
  nonceTrialsPerByte := id.nonceTrialsPerByte % wordSize
  payloadLengthExtraBytes := id.payloadLengthExtraBytes % wordSize
  doesAck := true
  addressVersion_lt := Nat.mod_lt _ (by norm_num)
  stream_lt := Nat.mod_lt _ (by norm_num)
  nonceTrialsPerByte_lt := Nat.mod_lt _ (by norm_num)
  payloadLengthExtraBytes_lt := Nat.mod_lt _ (by norm_num)

/-- What the answer is made of: the ripe and the fields of the identity. A chan does not answer. The
rest of `handle_incoming_getpubkey` sees the keyring through this only. -/
def getpubkeyAnswer (H : Hashes) (kr : Keyring) (hdr : ObjectHeader) (object : Buf) : Option (Bytes × IdentityInfo) :=
  (getpubkeyIdentity H kr hdr object).bind fun id =>
    if id.isChan then none else some (id.ripe, responseInfo id hdr.version)

/-! ### The answer -/

/-- The builder for the version of the request. -/
def buildPubkeyResponse (C : SenderCrypto) (seed : Bytes) (info : IdentityInfo) (ripe : Bytes) (expires : ℕ) :
    Option Bytes :=
  if info.addressVersion = 2 then some (buildPubkeyV2 info expires)
  else if info.addressVersion = 3 then buildPubkeyV3 C seed info expires
  else buildPubkeyV4 C seed info ripe expires

/-- `struct pubkey_response_job`. -/
structure PubkeyResponseJob where
  id : Bytes
  addressVersion : ℕ
  stream : ℕ
  expiresTime : ℕ

/-- The key of the job: `P`, the version, the stream and the ripe. -/
def pubkeyResponseKey (ripe : Bytes) (addressVersion stream : ℕ) : Bytes :=
  0x50 :: UInt8.ofNat addressVersion :: (packBe64 stream ++ ripe)

/-- The object pool, the table of answers and the job queue. The other jobs of the queue carry no
data. -/
structure ResponseNode where
  pool : ObjectPool
  responses : SelfResponses
  pow : PowSys (Option PubkeyResponseJob)

/-- What becomes of a request. -/
inductive GetpubkeyReply
  | ignored
  | reused (hash : Bytes)
  | submitted (payload : Bytes) (rc : ℤ)

/-- `submit_pubkey_response`, on the network thread. -/
def submitPubkeyResponse (s : ResponseNode) (args : SubmitArgs (Option PubkeyResponseJob)) : ℤ × ResponseNode :=
  match s.pow.submit (.other 0) args with
  | some pow => (pow.lastRc, { s with pow := pow })
  | none => (-1, s)

/-- The submission of an answer. -/
def pubkeyResponseArgs (ripe : Bytes) (info : IdentityInfo) (expires : ℕ) (payload : Bytes) :
    SubmitArgs (Option PubkeyResponseJob) where
  payload := payload
  target := info.difficulty.target payload.length pubkeyResponseTtl
  key := some (pubkeyResponseKey ripe info.addressVersion info.stream)
  userData := some ⟨ripe, info.addressVersion, info.stream, expires⟩

/-- `handle_incoming_getpubkey`, for the versions other than 5. -/
def handleIncomingGetpubkey (C : SenderCrypto) (s : ResponseNode) (kr : Keyring) (hdr : ObjectHeader) (object : Buf)
    (seed : Bytes) (now : ℤ) : GetpubkeyReply × ResponseNode :=
  match getpubkeyAnswer C.toHashes kr hdr object with
  | none => (.ignored, s)
  | some (ripe, info) =>
    match reuseCachedPubkeyResponse s.pool s.responses ripe info.addressVersion info.stream now with
    | some hash => (.reused hash, s)
    | none =>
      let expires := expiresAt now pubkeyResponseTtl
      match buildPubkeyResponse C seed info ripe expires with
      | none => (.ignored, s)
      | some payload =>
        let r := submitPubkeyResponse s (pubkeyResponseArgs ripe info expires payload)
        (.submitted payload r.1, r.2)

/-- `pubkey_response_done`, with an object. -/
def pubkeyResponseDone (H : Hashes) (s : ResponseNode) (job : PubkeyResponseJob) (object : Bytes) (now : ℤ) :
    ResponseNode :=
  let hash := inventoryHash H object
  if objectStoreHas s.pool hash then s
  else { s with
    pool := objectStoreInsert s.pool
      ⟨hash, objectPubkey, toInt32 job.stream, object, toInt64 job.expiresTime, now⟩
    responses := pubkeyCacheSetSelfResponse s.responses job.id job.addressVersion job.stream hash
      (toInt64 job.expiresTime) }

/-! ### The threads -/

inductive ResponseEvent
  /-- the network thread receives a `getpubkey` -/
  | getpubkey (kr : Keyring) (object : Buf) (seed : Bytes) (now : ℤ)
  /-- the other parts of the node write to the pool -/
  | pool (pool : ObjectPool)
  /-- the queue acts, or another part of the node submits a job -/
  | pow (l : PowLabel (Option PubkeyResponseJob)) (now : ℤ)
  | restart (maxPending : ℕ) (h : maxPending < wordSize)

/-- The database of an older version, and an empty queue. -/
def responseInit (pool : ObjectPool) (older : SelfResponses) (maxPending : ℕ) (h : maxPending < wordSize) : ResponseNode where
  pool := pool
  responses := older.update (fun row => { row with doesAck := false }) fun _ => rfl
  pow := PowSys.init maxPending h

/-- The other submissions: no key of theirs starts with the `P` of answers, and the answers of
version 5 are for version 5. -/
def OtherSubmission (args : SubmitArgs (Option PubkeyResponseJob)) : Prop :=
  (args.key.getD []).head? ≠ some 0x50 ∧ ∀ job ∈ args.userData, job.addressVersion = 5

instance decidableOtherSubmission (args : SubmitArgs (Option PubkeyResponseJob)) : Decidable (OtherSubmission args) :=
  inferInstanceAs (Decidable (_ ∧ _))

/-- The actions of the queue. The `done` of an answer follows when its nonce is found. -/
def ResponseNode.powStep (H : Hashes) (s : ResponseNode) (l : PowLabel (Option PubkeyResponseJob)) (now : ℤ) :
    Option ResponseNode :=
  match l with
  | .submit thread args =>
    if OtherSubmission args then (s.pow.submit thread args).map fun pow => { s with pow := pow } else none
  | .mined nonce =>
    match s.pow.worker with
    | .mining j =>
      (s.pow.mined (powSolves H) nonce).map fun pow =>
        match j.userData.data with
        | some job => pubkeyResponseDone H { s with pow := pow } job (buildObject j.payload nonce) now
        | none => { s with pow := pow }
    | _ => none
  | l => (s.pow.step (powSolves H) l).map fun pow => { s with pow := pow }

/-- One action. A request is handled when its header can be read. -/
def responseStep (C : SenderCrypto) (s : ResponseNode) : ResponseEvent → Option ResponseNode
  | .getpubkey kr object seed now =>
    object.header.map fun hdr => (handleIncomingGetpubkey C s kr hdr object seed now).2
  | .pool pool => some { s with pool := pool }
  | .pow l now => s.powStep C.toHashes l now
  | .restart maxPending h => some { s with pow := PowSys.init maxPending h }

/-! ### What an answer has to be -/

section

variable (C : SenderCrypto)

/-- An identity that may answer for a version and a stream. -/
def UnlockedIdentity.Suits (entry : UnlockedIdentity) (version stream : ℕ) : Prop :=
  entry.isChan = false ∧ entry.stream = stream ∧
    (entry.addressVersion = version ∨ version = 3 ∧ entry.addressVersion = 4)

instance decidableSuits (entry : UnlockedIdentity) (version stream : ℕ) : Decidable (entry.Suits version stream) :=
  inferInstanceAs (Decidable (_ ∧ _))

/-- The payload of an answer for a ripe, a version and a stream. -/
def IsResponse (ripe : Bytes) (version stream : ℕ) (payload : Bytes) : Prop :=
  ∃ (entry : UnlockedIdentity) (seed : Bytes) (expires : ℕ), entry.ripe = ripe ∧ entry.Suits version stream ∧
    buildPubkeyResponse C seed (responseInfo entry version) ripe expires = some payload

/-- The entries that the lookup may find: those of the requested version, or, if there is none, those
of version 4 for a request of version 3; or those with the tag. -/
def Selectable (H : Hashes) (kr : Keyring) (hdr : ObjectHeader) (object : Buf) (entry : UnlockedIdentity) : Prop :=
  if hdr.version ≤ 3 then
    hdr.headerLen + ripeLen ≤ object.size ∧ entry.stream = hdr.stream ∧
      entry.ripe = object.slice hdr.headerLen ripeLen ∧
      (entry.addressVersion = hdr.version ∨ hdr.version = 3 ∧ entry.addressVersion = 4 ∧
        (keyringFindByRipeVersion kr (object.slice hdr.headerLen ripeLen) hdr.version hdr.stream).isSome = false)
  else
    hdr.headerLen + 32 ≤ object.size ∧ 4 ≤ entry.addressVersion ∧
      (addressDeriveSecretAndTag H entry.addressVersion entry.stream entry.ripe).2 = object.slice hdr.headerLen 32

instance decidableSelectable (H : Hashes) (kr : Keyring) (hdr : ObjectHeader) (object : Buf) :
    DecidablePred (Selectable H kr hdr object) := by
  unfold Selectable
  infer_instance

/-- The identity that a request asks for. -/
structure Requested (H : Hashes) (kr : Keyring) (hdr : ObjectHeader) (object : Buf) (entry : UnlockedIdentity) : Prop where
  mem : entry ∈ kr.entries
  selectable : Selectable H kr hdr object entry
  suits : entry.Suits hdr.version hdr.stream

/-- A reply is right when the requested identity is there, an answer that is submitted is a `pubkey`
of the requested version and stream made from it, and an answer that is announced again, or for which
a job is in flight already, was made for the same ripe, version and stream. -/
def RightReply (s : ResponseNode) (kr : Keyring) (hdr : ObjectHeader) (object : Buf) (now : ℤ) : GetpubkeyReply → Prop
  | .ignored => True
  | .reused hash => ∃ entry, Requested C.toHashes kr hdr object entry ∧ ∃ payload nonce,
      IsResponse C entry.ripe hdr.version hdr.stream payload ∧ hash = inventoryHash C.toHashes (buildObject payload nonce)
  | .submitted payload rc => ∃ entry, Requested C.toHashes kr hdr object entry ∧
      IsResponse C entry.ripe hdr.version hdr.stream payload ∧
      (∃ data, payload = commonHeader (expiresAt now pubkeyResponseTtl) objectPubkey hdr.version hdr.stream ++ data) ∧
      (rc = 1 → ∃ j ∈ s.pow.liveJobs, IsResponse C entry.ripe hdr.version hdr.stream j.payload)

/-- Every reply is right, and the answer does not depend on the order of the keyring. -/
structure AnswersCorrectly (s : ResponseNode) (kr : Keyring) (hdr : ObjectHeader) (object : Buf) : Prop where
  right : ∀ seed now, RightReply C s kr hdr object now (handleIncomingGetpubkey C s kr hdr object seed now).1
  order : ∀ kr' : Keyring, kr'.entries.Perm kr.entries →
    getpubkeyAnswer C.toHashes kr' hdr object = getpubkeyAnswer C.toHashes kr hdr object

/-- Two entries answer alike: both or none may answer, and if they do, with the same keys and
difficulty. -/
def SameAnswer (version stream : ℕ) (a b : UnlockedIdentity) : Prop :=
  (a.Suits version stream ↔ b.Suits version stream) ∧
    (a.Suits version stream → a.ripe = b.ripe ∧ responseInfo a version = responseInfo b version)

/-- All the entries that the lookup may find answer alike. -/
def Unambiguous (H : Hashes) (kr : Keyring) (hdr : ObjectHeader) (object : Buf) : Prop :=
  ∀ a ∈ kr.entries, ∀ b ∈ kr.entries, Selectable H kr hdr object a → Selectable H kr hdr object b →
    SameAnswer hdr.version hdr.stream a b

/-- A job of the queue is an answer for what its key and its data say, or it is another job. -/
def FiledJob (j : PowJob (Ticket (Option PubkeyResponseJob))) : Prop :=
  (∃ job ∈ j.userData.data, job.id.length = ripeLen ∧ job.addressVersion ≤ 4 ∧ job.stream < wordSize ∧
    j.key = pubkeyResponseKey job.id job.addressVersion job.stream ∧
    IsResponse C job.id job.addressVersion job.stream j.payload) ∨
  j.key.head? ≠ some 0x50 ∧ ∀ job ∈ j.userData.data, job.addressVersion = 5

/-- The table and the queue hold answers for what they are filed under. -/
structure ResponsesFit (s : ResponseNode) : Prop where
  queue : PowSys.Inv (powSolves C.toHashes) s.pow
  jobs : ∀ j ∈ s.pow.liveJobs, FiledJob C j
  rows : ∀ row ∈ s.responses.rows, row.doesAck = true → row.addressVersion ≤ 4 → ∃ payload nonce,
    IsResponse C row.id row.addressVersion row.stream payload ∧
      row.objectHash = inventoryHash C.toHashes (buildObject payload nonce)

end

/-! ### The order of the keyring -/

section

variable {H : Hashes} {kr kr' : Keyring} {hdr : ObjectHeader} {object : Buf}

/-- The outcome of a search for the first element does not depend on the order exactly when all the
elements that fit have the same outcome. -/
theorem find?_bind_perm_iff {α β : Type*} (p : α → Bool) (g : α → Option β) (l : List α) :
    (∀ l' : List α, l'.Perm l → (l'.find? p).bind g = (l.find? p).bind g) ↔
      ∀ a ∈ l, ∀ b ∈ l, p a = true → p b = true → g a = g b := by
  constructor
  · intro h
    have hfirst : ∀ a ∈ l, p a = true → g a = (l.find? p).bind g := by
      intro a ha hpa
      obtain ⟨l₁, l₂, rfl⟩ := List.append_of_mem ha
      rw [← h (a :: (l₁ ++ l₂)) List.perm_middle.symm, List.find?_cons_of_pos hpa, Option.bind_some]
    intro a ha b hb hpa hpb
    rw [hfirst a ha hpa, hfirst b hb hpb]
  · intro h l' hperm
    cases hfind : l.find? p with
    | none =>
      have hnone : l'.find? p = none := by
        rw [List.find?_eq_none] at hfind ⊢
        exact fun a ha => hfind a (hperm.mem_iff.mp ha)
      rw [hnone]
    | some b =>
      have hb := List.mem_of_find?_eq_some hfind
      have hpb := List.find?_some hfind
      obtain ⟨a, ha⟩ := Option.isSome_iff_exists.mp
        (List.find?_isSome.mpr ⟨b, hperm.mem_iff.mpr hb, hpb⟩ : (l'.find? p).isSome)
      rw [ha, Option.bind_some, Option.bind_some]
      exact h a (hperm.mem_iff.mp (List.mem_of_find?_eq_some ha)) b hb (List.find?_some ha) hpb

theorem isSome_findByRipeVersion_perm (hperm : kr'.entries.Perm kr.entries) (ripe : Bytes) (version stream : ℕ) :
    (keyringFindByRipeVersion kr' ripe version stream).isSome =
      (keyringFindByRipeVersion kr ripe version stream).isSome := by
  rw [Bool.eq_iff_iff, keyringFindByRipeVersion, keyringFindByRipeVersion, List.find?_isSome, List.find?_isSome]
  simp only [hperm.mem_iff]

/-- What the lookup may find does not depend on the order. -/
theorem selectable_perm (H : Hashes) (hdr : ObjectHeader) (object : Buf) (hperm : kr'.entries.Perm kr.entries) :
    Selectable H kr' hdr object = Selectable H kr hdr object := by
  funext entry
  simp only [Selectable, isSome_findByRipeVersion_perm hperm]

/-- An old request finds the first entry that it may find. -/
theorem getpubkeyIdentity_of_le (hversion : 2 ≤ hdr.version) (hold : hdr.version ≤ 3) :
    getpubkeyIdentity H kr hdr object = kr.entries.find? fun entry => Selectable H kr hdr object entry := by
  have hripe : ripeLen = 20 := rfl
  unfold getpubkeyIdentity
  rw [if_neg (by omega), if_pos hold]
  by_cases hlen : hdr.headerLen + ripeLen ≤ object.size
  · rw [if_neg (by omega)]
    simp only [Selectable, if_pos hold, hlen, true_and]
    cases hfirst : keyringFindByRipeVersion kr (object.slice hdr.headerLen ripeLen) hdr.version hdr.stream with
    | some id =>
      simp only [← hfirst, keyringFindByRipeVersion]
      apply List.find?_congr
      intro entry _
      have hsome := hfirst
      rw [keyringFindByRipeVersion] at hsome
      simp only [hsome, Option.isSome_some, Bool.true_eq_false, and_false, or_false, decide_eq_decide]
      tauto
    | none =>
      have hnone := List.find?_eq_none.mp hfirst
      simp only [Option.isSome_none, and_true]
      by_cases hthree : hdr.version = 3
      · rw [if_pos hthree, keyringFindByRipeVersion]
        apply List.find?_congr
        intro entry hentry
        have hne := hnone entry hentry
        simp only [decide_eq_true_eq, not_and] at hne
        rw [decide_eq_decide]
        constructor
        · rintro ⟨hv, hs, hr⟩
          exact ⟨hs, hr, .inr ⟨hthree, hv⟩⟩
        · rintro ⟨hs, hr, hv | ⟨-, hv⟩⟩
          · exact absurd hr (hne hv hs)
          · exact ⟨hv, hs, hr⟩
      · rw [if_neg hthree, eq_comm, List.find?_eq_none]
        intro entry hentry
        have hne := hnone entry hentry
        simp only [decide_eq_true_eq, not_and] at hne ⊢
        rintro hs hr (hv | ⟨hv, -⟩)
        · exact hne hv hs hr
        · exact hthree hv
  · rw [if_pos (by omega), eq_comm, List.find?_eq_none]
    intro entry _
    simp only [Selectable, if_pos hold, hlen, false_and, decide_false, Bool.false_eq_true, not_false_eq_true]

/-- A request of version 4 finds the first entry with the tag, which then has to fit. -/
theorem getpubkeyIdentity_four (hversion : hdr.version = 4) :
    getpubkeyIdentity H kr hdr object = (kr.entries.find? fun entry => Selectable H kr hdr object entry).filter
      fun id => id.addressVersion = hdr.version ∧ id.stream = hdr.stream := by
  unfold getpubkeyIdentity
  rw [if_neg (by omega), if_neg (by omega)]
  by_cases hlen : hdr.headerLen + 32 ≤ object.size
  · rw [if_neg (by omega), keyringFindByTag]
    simp only [Selectable, if_neg (show ¬ hdr.version ≤ 3 by omega), hlen, true_and]
  · have hnone : (kr.entries.find? fun entry => Selectable H kr hdr object entry) = none := by
      rw [List.find?_eq_none]
      intro entry _
      simp only [Selectable, if_neg (show ¬ hdr.version ≤ 3 by omega), hlen, false_and, decide_false,
        Bool.false_eq_true, not_false_eq_true]
    rw [if_pos (by omega), hnone, Option.filter_none]

/-- The answer is that of the first entry that the lookup may find. -/
theorem getpubkeyAnswer_eq (hversion : 2 ≤ hdr.version ∧ hdr.version ≤ 4) :
    getpubkeyAnswer H kr hdr object = (kr.entries.find? fun entry => Selectable H kr hdr object entry).bind fun entry =>
      if entry.Suits hdr.version hdr.stream then some (entry.ripe, responseInfo entry hdr.version) else none := by
  unfold getpubkeyAnswer
  by_cases hold : hdr.version ≤ 3
  · rw [getpubkeyIdentity_of_le hversion.1 hold]
    apply Option.bind_congr
    intro entry hentry
    have hselect : Selectable H kr hdr object entry := by simpa only [decide_eq_true_eq] using List.find?_some hentry
    rw [Selectable, if_pos hold] at hselect
    obtain ⟨-, hstream, -, hv⟩ := hselect
    have hsuits : entry.Suits hdr.version hdr.stream ↔ entry.isChan = false :=
      and_iff_left ⟨hstream, hv.imp_right fun h => ⟨h.1, h.2.1⟩⟩
    simp only [hsuits]
    cases entry.isChan <;> rfl
  · have hfour : hdr.version = 4 := by omega
    rw [getpubkeyIdentity_four hfour]
    cases kr.entries.find? fun entry => Selectable H kr hdr object entry with
    | none => rfl
    | some entry =>
      have hsuits : entry.Suits hdr.version hdr.stream ↔
          (entry.addressVersion = hdr.version ∧ entry.stream = hdr.stream) ∧ entry.isChan = false := by
        unfold UnlockedIdentity.Suits
        constructor
        · rintro ⟨hchan, hs, hv | ⟨hthree, -⟩⟩
          · exact ⟨⟨hv, hs⟩, hchan⟩
          · omega
        · rintro ⟨⟨hv, hs⟩, hchan⟩
          exact ⟨hchan, hs, .inl hv⟩
      rw [Option.filter_some, Option.bind_some]
      by_cases hfits : entry.addressVersion = hdr.version ∧ entry.stream = hdr.stream
      · simp only [hsuits, hfits, and_self, decide_true, if_true, Option.bind_some, true_and]
        cases entry.isChan <;> rfl
      · simp only [hsuits, hfits, decide_false, Bool.false_eq_true, if_false, false_and, Option.bind_none]

theorem sameAnswer_iff {version stream : ℕ} {a b : UnlockedIdentity} :
    (if a.Suits version stream then some (a.ripe, responseInfo a version) else none) =
      (if b.Suits version stream then some (b.ripe, responseInfo b version) else none) ↔
    SameAnswer version stream a b := by
  unfold SameAnswer
  split_ifs with ha hb hb
  · simp [ha, hb]
  · simp [ha, hb]
  · simp [ha, hb]
  · simp [ha, hb]

/-- The answer is the same in every order exactly when the request is unambiguous. -/
theorem getpubkeyAnswer_perm_iff (hversion : 2 ≤ hdr.version ∧ hdr.version ≤ 4) :
    (∀ kr' : Keyring, kr'.entries.Perm kr.entries →
      getpubkeyAnswer H kr' hdr object = getpubkeyAnswer H kr hdr object) ↔ Unambiguous H kr hdr object := by
  have hsearch := find?_bind_perm_iff (fun entry => decide (Selectable H kr hdr object entry))
    (fun entry => if entry.Suits hdr.version hdr.stream then some (entry.ripe, responseInfo entry hdr.version) else none)
    kr.entries
  simp only [sameAnswer_iff, decide_eq_true_eq] at hsearch
  refine Iff.trans ?_ hsearch
  constructor
  · intro h l hperm
    have := h ⟨l, kr.db⟩ hperm
    rw [getpubkeyAnswer_eq hversion, getpubkeyAnswer_eq hversion] at this
    have hsame : Selectable H ⟨l, kr.db⟩ hdr object = Selectable H kr hdr object := selectable_perm H hdr object hperm
    simpa only [hsame] using this
  · intro h kr' hperm
    rw [getpubkeyAnswer_eq hversion, getpubkeyAnswer_eq hversion]
    simpa only [selectable_perm H hdr object hperm] using h kr'.entries hperm

/-- The answer is made from the requested identity. -/
theorem requested_of_getpubkeyAnswer (hversion : 2 ≤ hdr.version ∧ hdr.version ≤ 4) {ripe : Bytes} {info : IdentityInfo}
    (h : getpubkeyAnswer H kr hdr object = some (ripe, info)) :
    ∃ entry, Requested H kr hdr object entry ∧ ripe = entry.ripe ∧ info = responseInfo entry hdr.version := by
  rw [getpubkeyAnswer_eq hversion, Option.bind_eq_some_iff] at h
  obtain ⟨entry, hentry, h⟩ := h
  have hselect : Selectable H kr hdr object entry := by simpa only [decide_eq_true_eq] using List.find?_some hentry
  split_ifs at h with hsuits
  cases h
  exact ⟨entry, ⟨List.mem_of_find?_eq_some hentry, hselect, hsuits⟩, rfl, rfl⟩

end

/-! ### The objects that are filed -/

section

variable {C : SenderCrypto}

theorem pubkeyResponseKey_inj {ripe ripe' : Bytes} {version version' stream stream' : ℕ} (hv : version ≤ 4)
    (hv' : version' ≤ 4) (hs : stream < wordSize) (hs' : stream' < wordSize)
    (h : pubkeyResponseKey ripe version stream = pubkeyResponseKey ripe' version' stream') :
    ripe = ripe' ∧ version = version' ∧ stream = stream' := by
  simp only [pubkeyResponseKey, List.cons.injEq, true_and] at h
  obtain ⟨hversion, hrest⟩ := h
  obtain ⟨hstream, hripe⟩ := List.append_inj hrest (by simp [packBe64])
  have hnat := congrArg UInt8.toNat hversion
  rw [UInt8.toNat_ofNat_of_lt' (lt_of_le_of_lt hv (by decide)), UInt8.toNat_ofNat_of_lt' (lt_of_le_of_lt hv' (by decide))]
    at hnat
  have hbe : stream = stream' := by
    rw [← Radix.beNat_beBytes_of_lt (n := 8) (lt_of_lt_of_eq hs (by norm_num)),
      ← Radix.beNat_beBytes_of_lt (n := 8) (lt_of_lt_of_eq hs' (by norm_num))]
    exact congrArg Radix.beNat hstream
  exact ⟨hripe, hnat, hbe⟩

/-- An answer has the version and the stream that it is built for. -/
theorem header_buildPubkeyResponse {seed ripe payload : Bytes} {info : IdentityInfo} {expires : ℕ}
    (hversion : 2 ≤ info.addressVersion ∧ info.addressVersion ≤ 4)
    (h : buildPubkeyResponse C seed info ripe expires = some payload) :
    ∃ data, payload = commonHeader expires objectPubkey info.addressVersion info.stream ++ data := by
  unfold buildPubkeyResponse at h
  split_ifs at h with htwo hthree
  · cases h
    rw [htwo]
    exact ⟨_, rfl⟩
  · rw [buildPubkeyV3, Option.bind_eq_bind, Option.bind_eq_some_iff] at h
    obtain ⟨sig, -, h⟩ := h
    cases h
    rw [hthree, List.append_assoc]
    exact ⟨_, rfl⟩
  · have hfour : info.addressVersion = 4 := by omega
    simp only [buildPubkeyV4, Option.bind_eq_bind, Option.bind_eq_some_iff] at h
    obtain ⟨pubEnc, -, h⟩ := h
    obtain ⟨sig, ciphertext, -, -, rfl⟩ := signAndEncrypt_eq_some h
    rw [hfour, List.append_assoc]
    exact ⟨_, rfl⟩

/-- A submission that is refused for its key finds a job with that key. -/
theorem keyInFlight_of_powQueueSubmit {U : Type*} {q q' : PowQueue U} {onWorker : Bool} {payload : Bytes} {target : ℕ}
    {key : Option Bytes} {userData : U} (h : powQueueSubmit q onWorker payload target key userData = (1, q')) :
    keyInFlight q onWorker (key.getD []) = true := by
  unfold powQueueSubmit at h
  simp only at h
  split_ifs at h with hlen hfull hkey
  · simp at h
  · simp only [Bool.and_eq_true] at hkey
    exact hkey.2
  · simp at h
  · simp at h

theorem mem_liveJobs_of_keyInFlight {U : Type*} {solves : Bytes → ℕ → ℕ → Bool} {s : PowSys U}
    (inv : PowSys.Inv solves s) {onWorker : Bool} {key : Bytes} (h : keyInFlight s.queue onWorker key = true) :
    ∃ j ∈ s.liveJobs, j.key = key := by
  simp only [keyInFlight, Bool.or_eq_true, List.any_eq_true, decide_eq_true_eq] at h
  rcases h with h | ⟨j, hj, hkey⟩
  · rw [inv.running_eq] at h
    cases hrun : s.worker.job? with
    | none => simp [hrun] at h
    | some j =>
      simp only [hrun, Bool.and_eq_true, decide_eq_true_eq] at h
      exact ⟨j, List.mem_append_left _ (by simp [hrun]), h.2⟩
  · exact ⟨j, List.mem_append_right _ (List.mem_append_left _ hj), hkey⟩

variable {s t : ResponseNode} {kr : Keyring} {hdr : ObjectHeader} {object : Buf}

/-- The submission of an answer, whether it is accepted or not. -/
theorem submitPubkeyResponse_spec (inv : PowSys.Inv (powSolves C.toHashes) s.pow)
    (args : SubmitArgs (Option PubkeyResponseJob)) :
    ∃ pow rc, s.pow.submit (.other 0) args = some pow ∧ submitPubkeyResponse s args = (rc, { s with pow := pow }) ∧
      (rc = 1 → ∃ j ∈ s.pow.liveJobs, j.key = args.key.getD []) := by
  obtain ⟨r, hr⟩ : ∃ r, powQueueSubmit s.pow.queue false args.payload args.target args.key
      (⟨s.pow.calls.length, none, args.userData⟩ : Ticket (Option PubkeyResponseJob)) = r := ⟨_, rfl⟩
  have hsubmit : s.pow.submit (.other 0) args = some { s.pow with
      queue := r.2, calls := s.pow.calls ++ [⟨s.pow.calls.length, args.payload, args.target, r.1⟩] } := by
    rw [← hr]
    rfl
  have hlast : PowSys.lastRc { s.pow with
      queue := r.2, calls := s.pow.calls ++ [⟨s.pow.calls.length, args.payload, args.target, r.1⟩] } = r.1 := by
    simp [PowSys.lastRc]
  refine ⟨_, r.1, hsubmit, ?_, ?_⟩
  · rw [submitPubkeyResponse, hsubmit]
    simp only [hlast]
  · intro hrc
    obtain ⟨rc, q⟩ := r
    simp only at hrc
    subst hrc
    exact mem_liveJobs_of_keyInFlight inv (keyInFlight_of_powQueueSubmit hr)

/-- What a request leads to: nothing, the announcement of an answer that is filed, or the submission
of a new one. -/
theorem handleIncomingGetpubkey_cases (C : SenderCrypto) (s : ResponseNode) (kr : Keyring) (hdr : ObjectHeader)
    (object : Buf) (seed : Bytes) (now : ℤ) :
    handleIncomingGetpubkey C s kr hdr object seed now = (.ignored, s) ∨
    ∃ ripe info, getpubkeyAnswer C.toHashes kr hdr object = some (ripe, info) ∧
      ((∃ hash, reuseCachedPubkeyResponse s.pool s.responses ripe info.addressVersion info.stream now = some hash ∧
        handleIncomingGetpubkey C s kr hdr object seed now = (.reused hash, s)) ∨
      ∃ payload, buildPubkeyResponse C seed info ripe (expiresAt now pubkeyResponseTtl) = some payload ∧
        handleIncomingGetpubkey C s kr hdr object seed now =
          (.submitted payload
            (submitPubkeyResponse s (pubkeyResponseArgs ripe info (expiresAt now pubkeyResponseTtl) payload)).1,
          (submitPubkeyResponse s (pubkeyResponseArgs ripe info (expiresAt now pubkeyResponseTtl) payload)).2)) := by
  unfold handleIncomingGetpubkey
  cases hanswer : getpubkeyAnswer C.toHashes kr hdr object with
  | none => exact .inl rfl
  | some answer =>
    obtain ⟨ripe, info⟩ := answer
    simp only
    cases hreuse : reuseCachedPubkeyResponse s.pool s.responses ripe info.addressVersion info.stream now with
    | some hash => exact .inr ⟨ripe, info, rfl, .inl ⟨hash, hreuse, rfl⟩⟩
    | none =>
      simp only
      cases hbuild : buildPubkeyResponse C seed info ripe (expiresAt now pubkeyResponseTtl) with
      | none => exact .inl rfl
      | some payload => exact .inr ⟨ripe, info, rfl, .inr ⟨payload, hbuild, rfl⟩⟩

theorem responseInfo_of_requested (hheader : object.header = some hdr) {H : Hashes} {entry : UnlockedIdentity}
    (h : Requested H kr hdr object entry) :
    (responseInfo entry hdr.version).addressVersion = hdr.version ∧ (responseInfo entry hdr.version).stream = hdr.stream := by
  obtain ⟨hv, hs⟩ := Buf.header_lt hheader
  constructor
  · exact Nat.mod_eq_of_lt hv
  · have hstream : (responseInfo entry hdr.version).stream = entry.stream % wordSize := rfl
    rw [hstream, h.suits.2.1]
    exact Nat.mod_eq_of_lt hs

/-- An announced answer is filed under what it is announced for. -/
theorem isResponse_of_reused (hfit : ResponsesFit C s) {ripe hash : Bytes} {version stream : ℕ} {now : ℤ}
    (hversion : version ≤ 4) (h : reuseCachedPubkeyResponse s.pool s.responses ripe version stream now = some hash) :
    ∃ payload nonce, IsResponse C ripe version stream payload ∧
      hash = inventoryHash C.toHashes (buildObject payload nonce) := by
  obtain ⟨hget, -⟩ := Option.filter_eq_some_iff.mp h
  obtain ⟨row, hrow, hget⟩ := Option.bind_eq_some_iff.mp hget
  split_ifs at hget with hack
  cases hget
  obtain ⟨hmem, hkey⟩ := KeyedTable.find?_eq_some.mp hrow
  simp only [SelfResponse.key, Prod.mk.injEq] at hkey
  obtain ⟨rfl, rfl, rfl⟩ := hkey
  exact hfit.rows row hmem hack.1 hversion

/-- A job in flight with the key of an answer is that answer. -/
theorem isResponse_of_key (hfit : ResponsesFit C s) {j : PowJob (Ticket (Option PubkeyResponseJob))}
    (hj : j ∈ s.pow.liveJobs) {ripe : Bytes} {version stream : ℕ} (hversion : version ≤ 4) (hstream : stream < wordSize)
    (hkey : j.key = pubkeyResponseKey ripe version stream) : IsResponse C ripe version stream j.payload := by
  rcases hfit.jobs j hj with ⟨job, -, -, hv, hs, hkey', hresponse⟩ | ⟨hother, -⟩
  · obtain ⟨rfl, rfl, rfl⟩ := pubkeyResponseKey_inj hv hversion hs hstream (hkey'.symm.trans hkey)
    exact hresponse
  · rw [hkey] at hother
    exact absurd rfl hother

/-- Every reply is right in a state whose answers are filed under what they are for. -/
theorem rightReply (hfit : ResponsesFit C s) (hheader : object.header = some hdr)
    (hversion : 2 ≤ hdr.version ∧ hdr.version ≤ 4) (seed : Bytes) (now : ℤ) :
    RightReply C s kr hdr object now (handleIncomingGetpubkey C s kr hdr object seed now).1 := by
  rcases handleIncomingGetpubkey_cases C s kr hdr object seed now with
    hignored | ⟨ripe, info, hanswer, ⟨hash, hreuse, hreply⟩ | ⟨payload, hbuild, hreply⟩⟩
  · rw [hignored]
    trivial
  · rw [hreply]
    obtain ⟨entry, hrequested, rfl, rfl⟩ := requested_of_getpubkeyAnswer hversion hanswer
    obtain ⟨hv, hs⟩ := responseInfo_of_requested hheader hrequested
    rw [hv, hs] at hreuse
    exact ⟨entry, hrequested, isResponse_of_reused hfit hversion.2 hreuse⟩
  · rw [hreply]
    obtain ⟨entry, hrequested, rfl, rfl⟩ := requested_of_getpubkeyAnswer hversion hanswer
    obtain ⟨hv, hs⟩ := responseInfo_of_requested hheader hrequested
    obtain ⟨pow, rc, -, hsubmit, hrefused⟩ := submitPubkeyResponse_spec hfit.queue
      (pubkeyResponseArgs entry.ripe (responseInfo entry hdr.version) (expiresAt now pubkeyResponseTtl) payload)
    have hdata := header_buildPubkeyResponse (by rwa [hv]) hbuild
    rw [hv, hs] at hdata
    refine ⟨entry, hrequested, ⟨entry, seed, _, rfl, hrequested.suits, hbuild⟩, hdata, ?_⟩
    rw [hsubmit]
    intro hone
    obtain ⟨j, hj, hkey⟩ := hrefused hone
    simp only [pubkeyResponseArgs, Option.getD_some, hv, hs] at hkey
    exact ⟨j, hj, isResponse_of_key hfit hj hversion.2 (Buf.header_lt hheader).2 hkey⟩

/-! ### Runs -/

theorem responsesFit_init (pool : ObjectPool) (older : SelfResponses) (maxPending : ℕ) (h : maxPending < wordSize) :
    ResponsesFit C (responseInit pool older maxPending h) where
  queue := PowSys.init_inv maxPending h
  jobs := by
    intro j hj
    simp [responseInit, PowSys.init, powQueueInit, PowSys.liveJobs, PowSys.waitingJobs, WorkerPc.job?, ShutdownPc.rest] at hj
  rows := by
    intro row hrow hack
    obtain ⟨old, -, rfl⟩ := List.mem_map.mp hrow
    exact absurd hack Bool.false_ne_true

/-- The jobs stay filed when the queue acts and when a job is submitted that is filed. -/
theorem filedJob_step {pow : PowSys (Option PubkeyResponseJob)} (hjobs : ∀ j ∈ s.pow.liveJobs, FiledJob C j)
    {l : PowLabel (Option PubkeyResponseJob)} (hstep : s.pow.step (powSolves C.toHashes) l = some pow)
    (hsubmit : ∀ thread args, l = .submit thread args → ∀ j : PowJob (Ticket (Option PubkeyResponseJob)),
      j.payload = args.payload → j.key = args.key.getD [] → j.userData.data = args.userData → FiledJob C j) :
    ∀ j ∈ pow.liveJobs, FiledJob C j := by
  intro j hj
  rcases PowSys.liveJobs_step hstep hj with hold | ⟨thread, args, hl, hpayload, hkey, hdata⟩
  · exact hjobs j hold
  · exact hsubmit thread args hl j hpayload hkey hdata

theorem mem_setSelfResponse {responses : SelfResponses} {id hash : Bytes} {version stream : ℕ} {expires : ℤ}
    {row : SelfResponse} (h : row ∈ (pubkeyCacheSetSelfResponse responses id version stream hash expires).rows) :
    row ∈ responses.rows ∨ row.id = id ∧ row.addressVersion = version ∧ row.stream = stream ∧ row.objectHash = hash := by
  unfold pubkeyCacheSetSelfResponse at h
  rcases KeyedTable.mem_of_mem_upsert _ _ h with hold | rfl | ⟨old, -, hkey, rfl⟩
  · exact .inl hold
  · exact .inr ⟨rfl, rfl, rfl, rfl⟩
  · simp only [SelfResponse.key, Prod.mk.injEq] at hkey
    exact .inr ⟨hkey.1, hkey.2.1, hkey.2.2, rfl⟩

/-- A mined answer is filed under what it was built for. -/
theorem responsesFit_done (hfit : ResponsesFit C s) {j : PowJob (Ticket (Option PubkeyResponseJob))} (hj : FiledJob C j)
    {job : PubkeyResponseJob} (hjob : j.userData.data = some job) (nonce : ℕ) (now : ℤ) :
    ResponsesFit C (pubkeyResponseDone C.toHashes s job (buildObject j.payload nonce) now) := by
  unfold pubkeyResponseDone
  simp only
  split_ifs
  · exact hfit
  · refine ⟨hfit.queue, hfit.jobs, ?_⟩
    have hnew : job.addressVersion ≤ 4 → IsResponse C job.id job.addressVersion job.stream j.payload := by
      intro hversion
      rcases hj with ⟨job', hjob', -, -, -, -, hresponse⟩ | ⟨-, hother⟩
      · obtain rfl : job = job' := Option.some.inj (hjob.symm.trans hjob')
        exact hresponse
      · have := hother job hjob
        omega
    intro row hrow hack hversion
    rcases mem_setSelfResponse hrow with hold | ⟨hid, hv, hs, hhash⟩
    · exact hfit.rows row hold hack hversion
    · rw [hv] at hversion
      rw [hid, hv, hs, hhash]
      exact ⟨j.payload, nonce, hnew hversion, rfl⟩

/-- A queue action after which the tables are as before. -/
theorem responsesFit_pow (hfit : ResponsesFit C s) {pow : PowSys (Option PubkeyResponseJob)}
    {l : PowLabel (Option PubkeyResponseJob)} (hstep : s.pow.step (powSolves C.toHashes) l = some pow)
    (hsubmit : ∀ thread args, l = .submit thread args → ∀ j : PowJob (Ticket (Option PubkeyResponseJob)),
      j.payload = args.payload → j.key = args.key.getD [] → j.userData.data = args.userData → FiledJob C j) :
    ResponsesFit C { s with pow := pow } where
  queue := PowSys.step_inv _ _ _ hfit.queue hstep
  jobs := filedJob_step hfit.jobs hstep hsubmit
  rows := hfit.rows

theorem version_of_getpubkeyAnswer {H : Hashes} {answer : Bytes × IdentityInfo}
    (h : getpubkeyAnswer H kr hdr object = some answer) : 2 ≤ hdr.version ∧ hdr.version ≤ 4 := by
  obtain ⟨id, hid, -⟩ := Option.bind_eq_some_iff.mp h
  unfold getpubkeyIdentity at hid
  split_ifs at hid with hrange
  all_goals omega

theorem responsesFit_getpubkey (hfit : ResponsesFit C s) (hheader : object.header = some hdr) (seed : Bytes) (now : ℤ) :
    ResponsesFit C (handleIncomingGetpubkey C s kr hdr object seed now).2 := by
  rcases handleIncomingGetpubkey_cases C s kr hdr object seed now with
    hsame | ⟨ripe, info, hanswer, ⟨hash, -, hsame⟩ | ⟨payload, hbuild, hsame⟩⟩
  · rw [hsame]
    exact hfit
  · rw [hsame]
    exact hfit
  · rw [hsame]
    have hversion := version_of_getpubkeyAnswer hanswer
    obtain ⟨entry, hrequested, rfl, rfl⟩ := requested_of_getpubkeyAnswer hversion hanswer
    obtain ⟨hv, hs⟩ := responseInfo_of_requested hheader hrequested
    obtain ⟨pow, rc, hsubmit, hafter, -⟩ := submitPubkeyResponse_spec hfit.queue
      (pubkeyResponseArgs entry.ripe (responseInfo entry hdr.version) (expiresAt now pubkeyResponseTtl) payload)
    rw [hafter]
    apply responsesFit_pow hfit (l := .submit (.other 0) _) hsubmit
    rintro thread args ⟨⟩ j hpayload hkey hdata
    refine .inl ⟨_, hdata, entry.ripe_length, ?_, ?_, hkey, ?_⟩
    · exact hv.trans_le hversion.2
    · exact hs.trans_lt (Buf.header_lt hheader).2
    · rw [hpayload]
      simp only [pubkeyResponseArgs, hv, hs]
      exact ⟨entry, seed, _, rfl, hrequested.suits, hbuild⟩

theorem responsesFit_powStep (hfit : ResponsesFit C s) {l : PowLabel (Option PubkeyResponseJob)} {now : ℤ}
    (h : s.powStep C.toHashes l now = some t) : ResponsesFit C t := by
  unfold ResponseNode.powStep at h
  split at h
  · next thread args =>
    split_ifs at h with hother
    obtain ⟨pow, hpow, rfl⟩ := Option.map_eq_some_iff.mp h
    apply responsesFit_pow hfit (l := .submit thread args) hpow
    rintro thread' args' ⟨⟩ j - hkey hdata
    right
    rw [hkey, hdata]
    exact hother
  · next nonce =>
    split at h
    · next j hworker =>
      obtain ⟨pow, hpow, rfl⟩ := Option.map_eq_some_iff.mp h
      have hfiled : FiledJob C j := by
        apply hfit.jobs
        rw [PowSys.liveJobs, hworker]
        exact List.mem_cons_self
      have hnext : ResponsesFit C { s with pow := pow } :=
        responsesFit_pow hfit (l := .mined nonce) hpow (fun _ _ hl => by cases hl)
      cases hdata : j.userData.data with
      | none => exact hnext
      | some job => exact responsesFit_done hnext hfiled hdata nonce now
    · cases h
  · next hsubmit hmined =>
    obtain ⟨pow, hpow, rfl⟩ := Option.map_eq_some_iff.mp h
    apply responsesFit_pow hfit hpow
    intro thread args hl
    exact absurd hl (hsubmit thread args)

theorem responsesFit_step (s : ResponseNode) (e : ResponseEvent) (t : ResponseNode) (hfit : ResponsesFit C s)
    (h : responseStep C s e = some t) : ResponsesFit C t := by
  cases e with
  | getpubkey kr object seed now =>
    obtain ⟨hdr, hheader, rfl⟩ := Option.map_eq_some_iff.mp h
    exact responsesFit_getpubkey hfit hheader seed now
  | pool pool =>
    cases h
    exact ⟨hfit.queue, hfit.jobs, hfit.rows⟩
  | pow l now => exact responsesFit_powStep hfit h
  | restart maxPending hmax =>
    cases h
    have hempty := responsesFit_init (C := C) KeyedTable.empty KeyedTable.empty maxPending hmax
    exact ⟨hempty.queue, hempty.jobs, hfit.rows⟩

end

/-- In every reachable state a request for version 2 to 4 is answered correctly exactly when all the
unlocked entries that it may select answer alike. -/
theorem getpubkey_answers_correctly_iff (C : SenderCrypto) {pool : ObjectPool} {older : SelfResponses} {maxPending : ℕ}
    {hmax : maxPending < wordSize} {es : List ResponseEvent} {s : ResponseNode}
    (hrun : run (responseStep C) (responseInit pool older maxPending hmax) es = some s) (kr : Keyring) {object : Buf}
    {hdr : ObjectHeader} (hheader : object.header = some hdr) (hversion : 2 ≤ hdr.version ∧ hdr.version ≤ 4) :
    AnswersCorrectly C s kr hdr object ↔ Unambiguous C.toHashes kr hdr object := by
  have hfit : ResponsesFit C s := run_invariant responsesFit_step (responsesFit_init pool older maxPending hmax) hrun
  constructor
  · intro h
    exact (getpubkeyAnswer_perm_iff hversion).mp h.order
  · intro h
    exact ⟨rightReply hfit hheader hversion, (getpubkeyAnswer_perm_iff hversion).mpr h⟩

/-! ### Two spellings of an address -/

/-- The keys of `greeter` under an address of version 3. -/
def greeterRipe : Bytes := addressCalcRipe plainSender.toHashes greeter.pubSigning.bytes greeter.pubEncryption.bytes

def unlockedGreeter (address : Bytes) (isChan : Bool) : UnlockedIdentity where
  address := address
  ripe := greeterRipe
  privSigning := greeter.privSigning
  privEncryption := List.replicate 32 4
  pubSigning := greeter.pubSigning.bytes
  pubEncryption := greeter.pubEncryption.bytes
  addressVersion := 3
  stream := 1
  nonceTrialsPerByte := 1000
  payloadLengthExtraBytes := 1000
  isChan := isChan
  unlockedAt := 0
  ripe_length := length_addressCalcRipe _ _ _

/-- The address as it is usually written. -/
def greeterText : Bytes := (addressEncode plainSender.toHashes 3 1 greeterRipe).getD []

/-- The usual spelling of the address, and the spelling without `BM-` as a chan, in this order and in
the other. -/
def chanLast : Keyring := ⟨[unlockedGreeter greeterText false, unlockedGreeter (greeterText.drop 3) true],
  ⟨KeyedTable.empty, none⟩⟩
def chanFirst : Keyring := ⟨[unlockedGreeter (greeterText.drop 3) true, unlockedGreeter greeterText false],
  ⟨KeyedTable.empty, none⟩⟩

/-- A node that has answered nothing. -/
def quietNode : ResponseNode := responseInit KeyedTable.empty KeyedTable.empty 1 one_lt_wordSize

/-- The request for the address. -/
def greeterGetpubkey : Buf :=
  Buf.ofBytes (packBe64 0 ++ buildGetpubkey plainSender.toHashes 3 1 greeterRipe 100) (by decide +kernel)

def greeterHeader : ObjectHeader := ⟨0, 100, objectGetpubkey, 3, 1, 22⟩

theorem header_greeterGetpubkey : greeterGetpubkey.header = some greeterHeader := by decide +kernel

/-- The address of version 4 with the same keys, in front of that of version 3. -/
def siblingText : Bytes := (addressEncode plainSender.toHashes 4 1 greeterRipe).getD []

def siblings : Keyring where
  entries := [{ unlockedGreeter siblingText false with addressVersion := 4 }, unlockedGreeter greeterText false]
  db := ⟨KeyedTable.empty, none⟩

/-- The request is answered, and the answer is mined. -/
def answeredOnce : List ResponseEvent :=
  [.getpubkey siblings greeterGetpubkey [] 0, .pow .take 0, .pow (.mined 0) 1]

def GetpubkeyReply.isReused : GetpubkeyReply → Bool
  | .reused _ => true
  | _ => false

/-- Between the siblings the request is answered correctly, and the second time the answer is announced
again. -/
theorem siblings_answered_again :
    ∃ s hash, run (responseStep plainSender) quietNode answeredOnce = some s ∧
      (handleIncomingGetpubkey plainSender s siblings greeterHeader greeterGetpubkey [] 50).1 = .reused hash ∧
      AnswersCorrectly plainSender s siblings greeterHeader greeterGetpubkey := by
  have hcomputed : (run (responseStep plainSender) quietNode answeredOnce).any
      (fun s => (handleIncomingGetpubkey plainSender s siblings greeterHeader greeterGetpubkey [] 50).1.isReused) =
        true := by
    decide +kernel
  have hselected : ∀ entry ∈ siblings.entries,
      Selectable plainSender.toHashes siblings greeterHeader greeterGetpubkey entry →
        entry = unlockedGreeter greeterText false := by
    decide +kernel
  obtain ⟨s, hs, hreused⟩ := (Option.any_eq_true _ _).mp hcomputed
  have hcorrect : AnswersCorrectly plainSender s siblings greeterHeader greeterGetpubkey := by
    refine (getpubkey_answers_correctly_iff plainSender hs siblings header_greeterGetpubkey
      ⟨by decide, by decide⟩).mpr ?_
    intro a ha b hb hselect hselect'
    rw [hselected a ha hselect, hselected b hb hselect']
    exact ⟨Iff.rfl, fun _ => ⟨rfl, rfl⟩⟩
  cases hreply : (handleIncomingGetpubkey plainSender s siblings greeterHeader greeterGetpubkey [] 50).1 with
  | reused hash => exact ⟨s, hash, hs, hreply, hcorrect⟩
  | ignored =>
    rw [hreply] at hreused
    cases hreused
  | submitted payload rc =>
    rw [hreply] at hreused
    cases hreused

/-- Both spellings are of one address. With the chan behind, the request is answered, and with the
chan in front it is not. -/
theorem answer_depends_on_order :
    addressDecode plainSender.toHashes greeterText = some (3, 1, greeterRipe) ∧
      addressDecode plainSender.toHashes (greeterText.drop 3) = some (3, 1, greeterRipe) ∧
      ¬ AnswersCorrectly plainSender quietNode chanLast greeterHeader greeterGetpubkey := by
  refine ⟨by decide +kernel, by decide +kernel, ?_⟩
  intro h
  have hsame := congrArg Option.isSome (h.order chanFirst (List.Perm.swap _ _ _))
  revert hsame
  decide +kernel

end Bitmessage
