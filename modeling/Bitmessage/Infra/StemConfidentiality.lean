import Bitmessage.Infra.Propagation

/-! Whether an object of this node stays on the stem. The propagation state learns of an object
with the first decision about it, and the object is in the pool before that. A big
inventory that is built in between takes it for one that is known to everybody. Apart from
this, and from a new stem that is chosen between a decision and the packet that follows
it, the object is announced to nobody but the stem until its time is over. -/

namespace Bitmessage

open Transition

/-- A stem is set, the deadline of the hash has not passed and no plain `inv` for it was received. -/
def Stemming (h : Bytes) (s : Propagation) : Prop :=
  s.dandelion.stem ≠ none ∧
    ∀ e ∈ s.dandelion.entries.find? h, s.clock < e.fluffDeadline ∧ e.learnedViaPlainInv = false

instance (h : Bytes) (s : Propagation) : Decidable (Stemming h s) :=
  inferInstanceAs (Decidable (_ ∧ ∀ e ∈ s.dandelion.entries.find? h, _))

/-- A packet for a peer does not have the hash, or it is a `dinv` and the peer is the stem. -/
def Announcement.KeepsStem (h : Bytes) (stem peer : Option PeerAddress) : Announcement → Prop
  | inv hashes => h ∉ hashes
  | dinv hashes => h ∈ hashes → stem ≠ none ∧ peer = stem

instance (h : Bytes) (stem peer : Option PeerAddress) : ∀ a : Announcement, Decidable (a.KeepsStem h stem peer)
  | .inv hashes => inferInstanceAs (Decidable (h ∉ hashes))
  | .dinv hashes => inferInstanceAs (Decidable (h ∈ hashes → stem ≠ none ∧ peer = stem))

/-- The packets of a step with the hash go to the stem only, as `dinv`. -/
def ToStemOnly (h : Bytes) (s : Propagation) (e : PropagationEvent) : Prop :=
  ∀ q ∈ queuedBy s e, q.2.KeepsStem h s.dandelion.stem ((s.conn? q.1).map PeerConn.peer)

instance (h : Bytes) (s : Propagation) (e : PropagationEvent) : Decidable (ToStemOnly h s e) :=
  inferInstanceAs (Decidable (∀ q ∈ queuedBy s e, _))

/-- Nobody has looked at the hash yet. -/
structure Unseen (h : Bytes) (s : Propagation) : Prop where
  entry : s.dandelion.entries.find? h = none
  pending : ∀ p ∈ s.conns, h ∉ p.pendingInv
  broadcast : ∀ b ∈ s.lock.broadcast?, h ∉ b.fluff ∧ h ∉ b.stem
  bigInv : ∀ v ∈ s.lock.bigInv?, h ∉ v.plain

/-- A big inventory does not look at the hash before the first decision about it, and the stem is
not replaced between a decision for it and the `dinv`. -/
def StemGuard (h : Bytes) (s : Propagation) : PropagationEvent → Prop
  | .checkBigInv => ∀ v ∈ s.lock.bigInv?, v.unchecked.head? = some h → (s.dandelion.entries.find? h).isSome
  | .setStem => ∀ b ∈ s.lock.broadcast?, h ∈ b.stem → s.connector = .picked s.dandelion.stem
  | _ => True

instance (h : Bytes) (s : Propagation) : ∀ e : PropagationEvent, Decidable (StemGuard h s e)
  | .checkBigInv => inferInstanceAs (Decidable (∀ v ∈ s.lock.bigInv?, _))
  | .setStem => inferInstanceAs (Decidable (∀ b ∈ s.lock.broadcast?, _))
  | .tick _ | .add _ _ | .remove _ | .services _ _ | .verack _ _ | .insert _ | .gc _ | .note _ _ _ _ | .make _ | .look _
  | .store _ | .announce _ | .broadcast _ _ | .decide _ _ | .queue _ _ | .endBroadcast | .reshuffle _ | .pick _
  | .expire _ | .checkRefluff | .refluff | .endRefluff | .beginBigInv _ _ _ | .queueBigInv _ _ | .sweepBigInv _ _ _ =>
    isTrue trivial

/-- What holds of the hash while it is on the stem. -/
structure OnStem (h : Bytes) (s : Propagation) : Prop where
  entry : ∀ e ∈ s.dandelion.entries.find? h, e.fluffedAt = 0
  pending : ∀ p ∈ s.conns, h ∉ p.pendingInv
  fluff : ∀ b ∈ s.lock.broadcast?, h ∉ b.fluff
  stem : ∀ b ∈ s.lock.broadcast?, h ∈ b.stem →
    ∃ c p, b.todo.head? = some c ∧ s.conn? c = some p ∧ s.dandelion.stem = some p.peer
  bigInv : ∀ v ∈ s.lock.bigInv?, h ∉ v.plain

section

variable {h : Bytes} {s t : Propagation} {e : PropagationEvent}

theorem Unseen.onStem (hs : Unseen h s) : OnStem h s where
  entry e he := by rw [hs.entry] at he; cases he
  pending := hs.pending
  fluff b hb := (hs.broadcast b hb).1
  stem b hb hmem := absurd hmem (hs.broadcast b hb).2
  bigInv := hs.bigInv

/-- While the hash is on the stem, a step queues it to the stem only. -/
theorem OnStem.toStemOnly (hs : OnStem h s) (e : PropagationEvent) : ToStemOnly h s e := by
  rintro ⟨c, a⟩ hmem
  rcases mem_queuedBy hmem with ⟨b, hb, hc, ha | ha⟩ | ⟨v, hv, ha⟩ | ⟨p, hp, ha⟩
  · rw [ha]
    exact hs.fluff b hb
  · rw [ha]
    intro hin
    obtain ⟨c', p, hc', hp, hstem⟩ := hs.stem b hb hin
    cases hc.symm.trans hc'
    rw [hp, hstem]
    exact ⟨Option.some_ne_none _, rfl⟩
  · rw [ha]
    exact fun hin => hs.bigInv v hv (List.mem_of_mem_take hin)
  · rw [ha]
    exact fun hin => hs.pending p (conn?_eq_some hp).1 (List.mem_of_mem_take hin)

/-- A change of one connection that keeps its number and its peer, and queues none of the hash. -/
theorem OnStem.setConn (hs : OnStem h s) {c : ℕ} {f : PeerConn → PeerConn}
    (hf : ∀ p, (f p).generation = p.generation ∧ (f p).peer = p.peer) (hpending : ∀ p ∈ s.conns, h ∉ (f p).pendingInv) :
    OnStem h (s.setConn c f) where
  entry := hs.entry
  pending q hq := by
    obtain ⟨p, hp, rfl | rfl⟩ := mem_setConn hq
    · exact hs.pending _ hp
    · exact hpending p hp
  fluff := hs.fluff
  stem b hb hmem := by
    obtain ⟨c', p, hc, hp, hstem⟩ := hs.stem b hb hmem
    refine ⟨c', if p.generation = c then f p else p, hc, ?_, ?_⟩
    · rw [conn?_setConn fun p => (hf p).1, hp, Option.map_some]
    · split_ifs
      · rw [(hf p).2]
        exact hstem
      · exact hstem
  bigInv := hs.bigInv

/-- With the lock of the registry free, or taken for nothing that has the hash, only the entry and
the connections matter. -/
theorem OnStem.unlocked (hs : OnStem h s) (hentries : t.dandelion.entries = s.dandelion.entries)
    (hpending : ∀ p ∈ t.conns, h ∉ p.pendingInv) (hbroadcast : ∀ b ∈ t.lock.broadcast?, h ∉ b.fluff ∧ h ∉ b.stem)
    (hbigInv : ∀ v ∈ t.lock.bigInv?, h ∉ v.plain) : OnStem h t where
  entry e he := hs.entry e (by rwa [← hentries])
  pending := hpending
  fluff b hb := (hbroadcast b hb).1
  stem b hb hmem := absurd hmem (hbroadcast b hb).2
  bigInv := hbigInv

/-- On the stem the decision is to pass the hash on to the stem. -/
theorem OnStem.decision (hs : OnStem h s) (hstemming : Stemming h s) {now : ℤ} (hnow : s.Past now) (delay : ℕ) :
    (s.dandelion.entry h now delay).fluffedAt = 0 ∧
      ¬ FluffsAt s.dandelion.stem (s.dandelion.entry h now delay) now := by
  have hle := hnow.2
  rcases hfind : s.dandelion.entries.find? h with _ | e
  · have hnew : s.dandelion.entry h now delay = DandelionEntry.new h now delay := by rw [Dandelion.entry, hfind]; rfl
    rw [hnew]
    refine ⟨rfl, ?_⟩
    rintro (hf | hd | hstem | hl)
    · exact hf rfl
    · simp only [DandelionEntry.new, dandelionTimeoutBaseSeconds] at hd
      omega
    · exact hstemming.1 hstem
    · cases hl
  · rw [Dandelion.entry_of_some hfind]
    have hfluffed := hs.entry e hfind
    obtain ⟨hdeadline, hlearned⟩ := hstemming.2 e hfind
    refine ⟨hfluffed, ?_⟩
    rintro (hf | hd | hstem | hl)
    · exact hf hfluffed
    · omega
    · exact hstemming.1 hstem
    · rw [hlearned] at hl
      cases hl

theorem OnStem.note (hs : OnStem h s) (hash : Bytes) (isDinv : Bool) (now : ℤ) (delay : ℕ) :
    OnStem h { s with dandelion := dandelionNoteSource s.dandelion hash isDinv now delay } where
  entry e he := by
    by_cases hhash : h = hash
    · subst hhash
      cases isDinv with
      | true => exact hs.entry e he
      | false =>
        rw [find?_noteSource_self] at he
        cases he
        rcases hfind : s.dandelion.entries.find? h with _ | e
        · rw [Dandelion.entry, hfind]
          rfl
        · rw [Dandelion.entry_of_some hfind]
          exact hs.entry e hfind
    · rw [find?_noteSource hhash] at he
      exact hs.entry e he
  pending := hs.pending
  fluff := hs.fluff
  stem b hb hmem := by
    rw [stem_dandelionNoteSource]
    exact hs.stem b hb hmem
  bigInv := hs.bigInv

theorem OnStem.setStem (hs : OnStem h s) {stem : Option PeerAddress} (hconnector : s.connector = .picked stem)
    (hguard : StemGuard h s .setStem) :
    OnStem h { s with dandelion := { s.dandelion with stem := stem }, connector := .idle } where
  entry := hs.entry
  pending := hs.pending
  fluff := hs.fluff
  stem b hb hmem := by
    have hsame := hguard b hb hmem
    rw [hconnector] at hsame
    cases hsame
    exact hs.stem b hb hmem
  bigInv := hs.bigInv

theorem OnStem.expire (hs : OnStem h s) (hstemming : Stemming h s) {now : ℤ} (hnow : s.Past now) :
    OnStem h { s with
      dandelion := dandelionExpire s.dandelion now
      connector := .refluffing (expiredHashes s.dandelion now) } where
  entry e he := by
    have hle := hnow.2
    have hexpired : h ∉ expiredHashes s.dandelion now := by
      intro hmem
      obtain ⟨e', hfind, -, hdeadline⟩ := mem_expiredHashes hmem
      have := (hstemming.2 e' hfind).1
      omega
    rw [find?_dandelionExpire] at he
    obtain ⟨hmap, -⟩ := Option.filter_eq_some_iff.mp he
    obtain ⟨e', hfind, rfl⟩ := Option.map_eq_some_iff.mp hmap
    rw [if_neg hexpired]
    exact hs.entry e' hfind
  pending := hs.pending
  fluff := hs.fluff
  stem := hs.stem
  bigInv := hs.bigInv

theorem OnStem.decide (hs : OnStem h s) (hstemming : Stemming h s) {b : InvBroadcast} {c : ℕ} {todo : List ℕ}
    {hash : Bytes} {rest : List Bytes} {now : ℤ} {delay : ℕ} (hlock : s.lock = .broadcast b)
    (htodo : b.todo = c :: todo) (hnow : s.Past now) :
    OnStem h { s with
      dandelion := (dandelionDecide s.dandelion hash ((s.conn? c).map PeerConn.peer) now delay).1
      lock := .broadcast (b.decided hash rest
        (dandelionDecide s.dandelion hash ((s.conn? c).map PeerConn.peer) now delay).2) } := by
  have hb : b ∈ s.lock.broadcast? := by rw [hlock]; rfl
  have hfluff := hs.fluff b hb
  have hstem := hs.stem b hb
  obtain ⟨hmode, hfind⟩ := @dandelionDecide_eq s.dandelion hash now delay ((s.conn? c).map PeerConn.peer)
  by_cases hhash : hash = h
  · -- the decision is about the hash: it goes to the stem or is skipped
    subst hhash
    obtain ⟨hzero, hnot⟩ := hs.decision hstemming hnow delay
    rw [if_neg hnot] at hmode
    refine ⟨?_, hs.pending, ?_, ?_, ?_⟩
    · intro e he
      rw [hfind hash, if_pos rfl, if_neg hnot] at he
      cases he
      exact hzero
    · intro b' hb'
      cases hb'
      rw [hmode]
      split_ifs <;> exact hfluff
    · intro b' hb' hmem
      cases hb'
      rw [hmode] at hmem ⊢
      rw [stem_dandelionDecide]
      split_ifs at hmem ⊢ with htarget
      · rcases hconn : s.conn? c with _ | p
        · rw [hconn] at htarget
          exact absurd htarget.symm hstemming.1
        · rw [hconn] at htarget
          exact ⟨c, p, by rw [InvBroadcast.decided, htodo]; rfl, hconn, htarget.symm⟩
      · exact hstem hmem
    · intro v hv
      cases hv
  · refine ⟨?_, hs.pending, ?_, ?_, ?_⟩
    · intro e he
      rw [hfind h, if_neg (Ne.symm hhash)] at he
      exact hs.entry e he
    · intro b' hb'
      cases hb'
      cases (dandelionDecide s.dandelion hash ((s.conn? c).map PeerConn.peer) now delay).2 with
      | fluff => simpa [InvBroadcast.decided, Ne.symm hhash] using hfluff
      | stem => exact hfluff
      | skip => exact hfluff
    · intro b' hb' hmem
      cases hb'
      rw [stem_dandelionDecide]
      revert hmem
      cases (dandelionDecide s.dandelion hash ((s.conn? c).map PeerConn.peer) now delay).2 with
      | fluff => exact hstem
      | stem =>
        intro hmem
        exact hstem (by simpa [InvBroadcast.decided, Ne.symm hhash] using hmem)
      | skip => exact hstem
    · intro v hv
      cases hv

/-- A broadcast starts with nothing decided. -/
theorem OnStem.start (hs : OnStem h s) (hconns : t.conns = s.conns) (hdandelion : t.dandelion = s.dandelion)
    {hashes : List Bytes} (hne : hashes ≠ []) (except : Option ℕ) : OnStem h (t.startBroadcast hashes except) := by
  unfold Propagation.startBroadcast
  rw [if_neg hne]
  refine hs.unlocked (by rw [← hdandelion]) ?_ ?_ nofun
  · show ∀ p ∈ t.conns, _
    rw [hconns]
    exact hs.pending
  · intro b hb
    cases hb
    exact ⟨List.not_mem_nil, List.not_mem_nil⟩

/-- The packets of one connection are queued, and the broadcast goes on to the next. -/
theorem OnStem.queue (hs : OnStem h s) (b : InvBroadcast) (c : ℕ) (rest : List ℕ) (failed : PeerConn → Bool) :
    OnStem h { s.setConn c (fun p => { p with pendingEviction := failed p }) with lock := .broadcast (b.next c rest) } := by
  refine hs.unlocked rfl ?_ ?_ nofun
  · intro q hq
    obtain ⟨p, hp, rfl | rfl⟩ := mem_setConn hq
    · exact hs.pending _ hp
    · exact hs.pending p hp
  · intro b' hb'
    cases hb'
    exact ⟨List.not_mem_nil, List.not_mem_nil⟩

/-- The hash has an entry when it is checked for a big `inv`, and the entry is not fluffed. -/
theorem OnStem.checkBigInv (hs : OnStem h s) {v : BigInv} {hash : Bytes} {rest : List Bytes} (hlock : s.lock = .bigInv v)
    (hunchecked : v.unchecked = hash :: rest) (hguard : StemGuard h s .checkBigInv) :
    OnStem h { s with lock := .bigInv { v with
      unchecked := rest
      plain := if dandelionIsStemming s.dandelion hash then v.plain else v.plain ++ [hash] } } := by
  have hv : v ∈ s.lock.bigInv? := by rw [hlock]; rfl
  refine hs.unlocked rfl hs.pending nofun ?_
  intro v' hv'
  cases hv'
  show h ∉ (if dandelionIsStemming s.dandelion hash then v.plain else v.plain ++ [hash])
  split_ifs with hstemmed
  · exact hs.bigInv v hv
  · intro hmem
    rcases List.mem_append.mp hmem with hmem | hmem
    · exact hs.bigInv v hv hmem
    · cases List.mem_singleton.mp hmem
      have hsome := hguard v hv (by rw [hunchecked]; rfl)
      obtain ⟨e, he⟩ := Option.isSome_iff_exists.mp hsome
      apply hstemmed
      unfold dandelionIsStemming
      rw [he]
      exact decide_eq_true (hs.entry e he)

theorem sendInvChunk_conn (hashes : List Bytes) (now : ℤ) (ok : Bool) (p : PeerConn) :
    (sendInvChunk hashes now ok p).generation = p.generation ∧ (sendInvChunk hashes now ok p).peer = p.peer := by
  unfold sendInvChunk
  split_ifs <;> exact ⟨rfl, rfl⟩

/-- What waits behind a chunk was announced with it. -/
theorem not_mem_sendInvChunk {hashes : List Bytes} (hnot : h ∉ hashes) (now : ℤ) (ok : Bool) (p : PeerConn) :
    h ∉ (sendInvChunk hashes now ok p).pendingInv := by
  unfold sendInvChunk
  split_ifs
  · exact fun hmem => hnot (List.mem_of_mem_drop hmem)
  · exact List.not_mem_nil

theorem OnStem.queueBigInv (hs : OnStem h s) {v : BigInv} (hlock : s.lock = .bigInv v) (now : ℤ) (ok : Bool) :
    OnStem h { s.setConn v.conn (v.finish now ok) with lock := .free } := by
  have hv : v ∈ s.lock.bigInv? := by rw [hlock]; rfl
  have hpending : ∀ p ∈ s.conns, h ∉ (v.finish now ok p).pendingInv := by
    intro p hp
    unfold BigInv.finish
    split_ifs
    · exact hs.pending p hp
    · exact not_mem_sendInvChunk (hs.bigInv v hv) now ok p
  have hconn : ∀ p : PeerConn, (v.finish now ok p).generation = p.generation ∧ (v.finish now ok p).peer = p.peer := by
    intro p
    unfold BigInv.finish
    split_ifs
    · exact ⟨rfl, rfl⟩
    · exact sendInvChunk_conn v.plain now ok p
  exact hs.unlocked rfl (hs.setConn hconn hpending).pending nofun nofun

/-- Every step that meets the condition keeps the hash on the stem. -/
theorem OnStem.step (hs : OnStem h s) (hstemming : Stemming h s) (hguard : StemGuard h s e)
    (hstep : propagationStep s e = some t) : OnStem h t := by
  cases propagationStep_effect hstep with
  | quiet hqueued hlock hconns hstem hentries hhashes =>
    refine ⟨?_, ?_, ?_, ?_, ?_⟩
    · rw [hentries]
      exact hs.entry
    · rw [hconns]
      exact hs.pending
    · rw [hlock]
      exact hs.fluff
    · rw [hlock, hstem]
      unfold Propagation.conn?
      rw [hconns]
      exact hs.stem
    · rw [hlock]
      exact hs.bigInv
  | touch c f hqueued hf =>
    refine hs.setConn (fun p => ⟨(hf p).generation, (hf p).peer⟩) fun p hp => ?_
    rw [(hf p).pendingInv]
    exact hs.pending p hp
  | note hash isDinv now delay hnow => exact hs.note hash isDinv now delay
  | setStem stem hconnector => exact hs.setStem hconnector hguard
  | expire now hconnector hnow => exact hs.expire hstemming hnow
  | add p hqueued hlock hp ht =>
    rw [ht]
    refine hs.unlocked rfl (fun q hq => ?_) ?_ hs.bigInv
    · rcases List.mem_append.mp hq with hq | hq
      · exact hs.pending q hq
      · rw [List.mem_singleton.mp hq, hp]
        exact List.not_mem_nil
    · show ∀ b ∈ s.lock.broadcast?, _
      rw [hlock]
      nofun
  | remove c hlock =>
    refine hs.unlocked rfl (fun q hq => hs.pending q (mem_registryRemove hq)) ?_ hs.bigInv
    show ∀ b ∈ s.lock.broadcast?, _
    rw [hlock]
    nofun
  | start hashes except hqueued hlock hne hconns hdandelion hhashes => exact hs.start hconns hdandelion hne except
  | decide b c todo hash rest now delay hlock htodo hundecided hnow => exact hs.decide hstemming hlock htodo hnow
  | queue b c rest invOk dinvOk hlock htodo hundecided => exact hs.queue b c rest _
  | endBroadcast b hlock htodo => exact hs.unlocked rfl hs.pending nofun nofun
  | beginBigInv v hqueued hlock hplain =>
    refine hs.unlocked rfl hs.pending nofun fun v' hv' => ?_
    cases hv'
    rw [hplain]
    exact List.not_mem_nil
  | checkBigInv v hash rest hlock hunchecked => exact hs.checkBigInv hlock hunchecked hguard
  | queueBigInv v now ok hlock => exact hs.queueBigInv hlock now ok
  | sweepBigInv c p now ok hp =>
    have hpending := hs.pending p (conn?_eq_some hp).1
    exact hs.setConn (sendInvChunk_conn p.pendingInv now ok) fun q _ => not_mem_sendInvChunk hpending now ok q

theorem along_toStemOnly {es : List PropagationEvent} (hs : OnStem h s)
    (hstemming : Along propagationStep (fun s _ => Stemming h s) s es)
    (hguard : Along propagationStep (StemGuard h) s es) : Along propagationStep (ToStemOnly h) s es := by
  induction es generalizing s with
  | nil => trivial
  | cons e es ih =>
    refine ⟨hs.toStemOnly e, fun t ht => ?_⟩
    exact ih (hs.step hstemming.1 hguard.1 ht) (hstemming.2 t ht) (hguard.2 t ht)

end

/-- In every run from a state in which nobody has looked at the hash: as long as a stem is set, the
deadline of the hash has not passed and no plain `inv` for it came in, and every step meets the
condition, no plain `inv` with the hash is queued, and a `dinv` with it to the stem only. -/
theorem stem_confidential {h : Bytes} {s : Propagation} {es : List PropagationEvent} (hs : Unseen h s)
    (hstemming : Along propagationStep (fun s _ => Stemming h s) s es)
    (hguard : Along propagationStep (StemGuard h) s es) : Along propagationStep (ToStemOnly h) s es :=
  along_toStemOnly hs.onStem hstemming hguard

/-! ### Two peers, one of them the stem -/

/-- A node that has just started. -/
def newPropagation : Propagation where
  clock := 100
  dandelion := ⟨none, 0, KeyedTable.empty⟩
  pool := KeyedTable.empty
  conns := []
  nextGeneration := 1
  lock := .free
  connector := .idle
  own := []

/-- An outbound connection becomes the stem, an inbound one has completed its handshake. -/
def twoPeers : List PropagationEvent :=
  [.add .clientSocket ⟨[1], 8444⟩, .services 1 true, .add .serverSocket ⟨[2], 8444⟩, .verack 2 105,
    .reshuffle 100, .pick (some 1), .setStem]

/-- An object of this node. -/
def ownRow : PoolObject := ⟨List.replicate 32 7, 2, 1, [], 1000, 100⟩

/-- The object is inserted; before the thread announces it, the reply to the `verack` is due. -/
def leak : List PropagationEvent :=
  [.make ownRow, .look 0, .store 0, .tick 105, .beginBigInv 2 105 105, .checkBigInv, .queueBigInv 105 true, .announce 0]

/-- The object is announced first. -/
def noLeak : List PropagationEvent :=
  [.make ownRow, .look 0, .store 0, .announce 0, .decide 100 0, .queue true true, .decide 100 0, .queue true true,
    .endBroadcast, .tick 105, .beginBigInv 2 105 105, .checkBigInv, .queueBigInv 105 true]

theorem twoPeers_isSome : (run propagationStep newPropagation twoPeers).isSome = true := by decide

/-- The two peers, before the object. -/
def stemmedPropagation : Propagation := (run propagationStep newPropagation twoPeers).get twoPeers_isSome

theorem run_twoPeers : run propagationStep newPropagation twoPeers = some stemmedPropagation :=
  (Option.some_get twoPeers_isSome).symm

theorem stemmedPropagation_unseen : Unseen ownRow.hash stemmedPropagation where
  entry := by decide
  pending := by decide
  broadcast := by decide
  bigInv := by decide

theorem noLeak_confidential : (run propagationStep stemmedPropagation noLeak).isSome ∧
    Along propagationStep (ToStemOnly ownRow.hash) stemmedPropagation noLeak :=
  ⟨by decide, stem_confidential stemmedPropagation_unseen (by decide) (by decide)⟩

/-- The big inventory announces an object of this node to everybody while it should be on the stem. -/
theorem own_object_leaks : ∃ s, run propagationStep newPropagation twoPeers = some s ∧ Unseen ownRow.hash s ∧
    (run propagationStep s leak).isSome ∧ Along propagationStep (fun s _ => Stemming ownRow.hash s) s leak ∧
    ¬ Along propagationStep (ToStemOnly ownRow.hash) s leak :=
  ⟨stemmedPropagation, run_twoPeers, stemmedPropagation_unseen, by decide, by decide, by decide⟩

end Bitmessage
