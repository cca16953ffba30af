import Bitmessage.Infra.StemConfidentiality

/-! Whether a fluffed hash reaches every connection. The mark that ends the stem phase is set
in one of two places. The sweep sets it and then announces the hash to everybody. A
broadcast sets it in the decision for one connection, and goes on with the connections
that follow: if the deadline passes or the stem is lost in the middle of the loop, the
connections before that one are left without an `inv`, and the sweep, which looks for
hashes without the mark, never comes back to them. -/

namespace Bitmessage

open Transition

/-- The entry of the hash is marked fluffed. -/
def Fluffed (h : Bytes) (s : Propagation) : Prop := ∃ e ∈ s.dandelion.entries.find? h, e.fluffedAt ≠ 0

instance (h : Bytes) (s : Propagation) : Decidable (Fluffed h s) :=
  inferInstanceAs (Decidable (∃ e ∈ s.dandelion.entries.find? h, _))

/-- The connection is in the registry, and is not about to be closed after a failed write. -/
def Registered (c : ℕ) (s : Propagation) : Prop :=
  ∃ p ∈ s.conns, p.generation = c ∧ p.type ≠ .listenSocket ∧ p.pendingEviction = false

instance (c : ℕ) (s : Propagation) : Decidable (Registered c s) := inferInstanceAs (Decidable (∃ p ∈ s.conns, _))

/-- The connection is registered, and the object is in the pool. -/
def Concerns (h : Bytes) (c : ℕ) (s : Propagation) : Prop := Registered c s ∧ objectStoreHas s.pool h = true

instance (h : Bytes) (c : ℕ) (s : Propagation) : Decidable (Concerns h c s) := inferInstanceAs (Decidable (_ ∧ _))

/-- The connection that the broadcast of a step leaves out. -/
def exceptedBy (s : Propagation) : PropagationEvent → Option ℕ
  | .decide _ _ => s.lock.broadcast?.bind InvBroadcast.except
  | _ => none

/-- The packets of a run, with their connections. -/
def queuedIn : Propagation → List PropagationEvent → List (ℕ × Announcement)
  | _, [] => []
  | s, e :: es => queuedBy s e ++ (propagationStep s e).toList.flatMap fun t => queuedIn t es

/-- A plain `inv` with the hash. -/
def Announcement.isInvOf (h : Bytes) : Announcement → Bool
  | inv hashes => decide (h ∈ hashes)
  | dinv _ => false

/-- The connection is queued a plain `inv` with the hash in the run. -/
def Announced (h : Bytes) (c : ℕ) (s : Propagation) (es : List PropagationEvent) : Prop :=
  ∃ q ∈ queuedIn s es, q.1 = c ∧ q.2.isInvOf h = true

instance (h : Bytes) (c : ℕ) (s : Propagation) (es : List PropagationEvent) : Decidable (Announced h c s es) :=
  inferInstanceAs (Decidable (∃ q ∈ queuedIn s es, _))

/-- The broadcast has a decision about the hash for the connection before it. -/
def InvBroadcast.Awaits (h : Bytes) (c : ℕ) (b : InvBroadcast) : Prop :=
  h ∈ b.hashes ∧ ((b.todo.head? = some c ∧ h ∈ b.undecided) ∨ c ∈ b.todo.tail)

instance (h : Bytes) (c : ℕ) (b : InvBroadcast) : Decidable (b.Awaits h c) := inferInstanceAs (Decidable (_ ∧ _))

/-- The broadcast is at the connection, and the hash is in its `inv`. -/
def InvBroadcast.Ready (h : Bytes) (c : ℕ) (b : InvBroadcast) : Prop := b.todo.head? = some c ∧ h ∈ b.fluff

instance (h : Bytes) (c : ℕ) (b : InvBroadcast) : Decidable (b.Ready h c) := inferInstanceAs (Decidable (_ ∧ _))

/-- An `inv` is still to come: from the broadcast in progress, or from one that the sweep has yet to
make. -/
def Coming (h : Bytes) (c : ℕ) (s : Propagation) : Prop :=
  h ∈ s.connector.hashes ∨ ∃ b ∈ s.lock.broadcast?, b.Awaits h c ∨ b.Ready h c

instance (h : Bytes) (c : ℕ) (s : Propagation) : Decidable (Coming h c s) :=
  inferInstanceAs (Decidable (_ ∨ ∃ b ∈ s.lock.broadcast?, _))

/-- Whenever a step of the run marks the hash, every connection of that moment but the excepted one,
as long as it stays registered and the object in the pool, has been queued a plain `inv` since,
or is queued one by the broadcast in progress or by the sweep. -/
def NoConnectionSkipped (h : Bytes) (s : Propagation) (es : List PropagationEvent) : Prop :=
  ∀ before e later u v t, es = before ++ e :: later → run propagationStep s before = some u →
    propagationStep u e = some v → ¬ Fluffed h u → Fluffed h v → run propagationStep v later = some t →
      ∀ c, Concerns h c u → exceptedBy u e ≠ some c → Always propagationStep (Concerns h c) v later →
        Announced h c v later ∨ Coming h c t

/-- A decision marks the hash only before the loop has passed a connection that it concerns, and a
sweep does not drop the entry of the hash while a broadcast has such a connection before it. -/
def CoverGuard (h : Bytes) (s : Propagation) : PropagationEvent → Prop
  | .decide now delay => ∀ b ∈ s.lock.broadcast?, b.undecided.head? = some h →
    (s.dandelion.entry h now delay).fluffedAt = 0 → FluffsAt s.dandelion.stem (s.dandelion.entry h now delay) now →
      ∀ c ∈ b.passed, ¬ Concerns h c s
  | .expire now => ∀ b ∈ s.lock.broadcast?, ∀ c ∈ b.todo, b.Awaits h c → Concerns h c s →
    ∀ e ∈ s.dandelion.entries.find? h, e.stale now = false
  | _ => True

instance (h : Bytes) (s : Propagation) : ∀ e : PropagationEvent, Decidable (CoverGuard h s e)
  | .decide _ _ => inferInstanceAs (Decidable (∀ b ∈ s.lock.broadcast?, _))
  | .expire _ => inferInstanceAs (Decidable (∀ b ∈ s.lock.broadcast?, _))
  | .tick _ | .add _ _ | .remove _ | .services _ _ | .verack _ _ | .insert _ | .gc _ | .note _ _ _ _ | .make _ | .look _
  | .store _ | .announce _ | .broadcast _ _ | .queue _ _ | .endBroadcast | .reshuffle _ | .pick _ | .setStem
  | .checkRefluff | .refluff | .endRefluff | .beginBigInv _ _ _ | .checkBigInv | .queueBigInv _ _ | .sweepBigInv _ _ _ =>
    isTrue trivial

/-- A broadcast has passed every connection that it turns to, or has it before it. -/
structure Covers (s : Propagation) (b : InvBroadcast) : Prop where
  conns : ∀ p ∈ s.conns, p.announced b.except = true → p.generation ∈ b.passed ∨ p.generation ∈ b.todo
  undecided : b.undecided ⊆ b.hashes

section

variable {h : Bytes} {c : ℕ} {s t : Propagation} {e : PropagationEvent}

theorem mem_head_or_tail {α : Type} {a : α} {l : List α} (ha : a ∈ l) : l.head? = some a ∨ a ∈ l.tail := by
  cases l with
  | nil => cases ha
  | cons b l =>
    rcases List.mem_cons.mp ha with rfl | ha
    · exact .inl rfl
    · exact .inr ha

theorem Covers.setConn {b : InvBroadcast} (hs : Covers s b) {f : PeerConn → PeerConn}
    (hf : ∀ p, (f p).generation = p.generation ∧ (f p).type = p.type) : Covers (s.setConn c f) b where
  conns q hq hannounced := by
    obtain ⟨p, hp, rfl | rfl⟩ := mem_setConn hq
    · exact hs.conns _ hp hannounced
    · rw [(hf p).1]
      refine hs.conns p hp ?_
      unfold PeerConn.announced at hannounced ⊢
      rwa [(hf p).1, (hf p).2] at hannounced
  undecided := hs.undecided

theorem sendInvChunk_same (hashes : List Bytes) (now : ℤ) (ok : Bool) (p : PeerConn) :
    (sendInvChunk hashes now ok p).generation = p.generation ∧ (sendInvChunk hashes now ok p).type = p.type := by
  unfold sendInvChunk
  split_ifs <;> exact ⟨rfl, rfl⟩

/-- The connections of the registry do not change under a broadcast. -/
theorem covers_step (hs : ∀ b ∈ s.lock.broadcast?, Covers s b) (hstep : propagationStep s e = some t) :
    ∀ b ∈ t.lock.broadcast?, Covers t b := by
  cases propagationStep_effect hstep with
  | quiet hqueued hlock hconns hstem hentries hhashes =>
    rw [hlock]
    intro b hb
    exact ⟨by rw [hconns]; exact (hs b hb).conns, (hs b hb).undecided⟩
  | touch c f hqueued hf => exact fun b hb => (hs b hb).setConn fun p => ⟨(hf p).generation, (hf p).type⟩
  | note hash isDinv now delay hnow => exact fun b hb => ⟨(hs b hb).conns, (hs b hb).undecided⟩
  | setStem stem hconnector => exact fun b hb => ⟨(hs b hb).conns, (hs b hb).undecided⟩
  | expire now hconnector hnow => exact fun b hb => ⟨(hs b hb).conns, (hs b hb).undecided⟩
  | add p hqueued hlock hp ht =>
    rw [ht]
    show ∀ b ∈ s.lock.broadcast?, _
    rw [hlock]
    exact fun b hb => by cases hb
  | remove c hlock =>
    show ∀ b ∈ s.lock.broadcast?, _
    rw [hlock]
    exact fun b hb => by cases hb
  | @start _ u hashes except hqueued hlock hne hconns hdandelion hhashes =>
    unfold Propagation.startBroadcast
    rw [if_neg hne]
    intro b hb
    cases hb
    refine ⟨fun p hp hannounced => .inr ?_, fun x hx => hx⟩
    exact List.mem_map_of_mem (List.mem_filter.mpr ⟨hp, hannounced⟩)
  | decide b c todo hash rest now delay hlock htodo hundecided hnow =>
    obtain ⟨hconns, hsub⟩ := hs b (by rw [hlock]; rfl)
    intro b' hb'
    cases hb'
    rw [hundecided] at hsub
    have hrest : rest ⊆ b.hashes := fun x hx => hsub (List.mem_cons_of_mem hash hx)
    cases (dandelionDecide s.dandelion hash ((s.conn? c).map PeerConn.peer) now delay).2 <;> exact ⟨hconns, hrest⟩
  | queue b c rest invOk dinvOk hlock htodo hundecided =>
    have hcovers := hs b (by rw [hlock]; rfl)
    intro b' hb'
    cases hb'
    refine ⟨fun q hq hannounced => ?_, fun x hx => hx⟩
    have hpassed : q.generation ∈ b.passed ∨ q.generation ∈ b.todo := by
      obtain ⟨p, hp, rfl | rfl⟩ := mem_setConn hq
      · exact hcovers.conns _ hp hannounced
      · exact hcovers.conns p hp hannounced
    rw [htodo, List.mem_cons] at hpassed
    show q.generation ∈ b.passed ++ [c] ∨ q.generation ∈ rest
    rw [List.mem_append, List.mem_singleton]
    tauto
  | endBroadcast b hlock htodo => exact fun b' hb' => by cases hb'
  | beginBigInv v hqueued hlock hplain => exact fun b' hb' => by cases hb'
  | checkBigInv v hash rest hlock hunchecked => exact fun b' hb' => by cases hb'
  | queueBigInv v now ok hlock => exact fun b' hb' => by cases hb'
  | sweepBigInv c p now ok hp => exact fun b hb => (hs b hb).setConn (sendInvChunk_same p.pendingInv now ok)

/-! ### The mark -/

theorem fluffed_congr (hentries : t.dandelion.entries = s.dandelion.entries) : Fluffed h t ↔ Fluffed h s := by
  unfold Fluffed
  rw [hentries]

theorem fluffed_note {hash : Bytes} {isDinv : Bool} {now : ℤ} {delay : ℕ} :
    Fluffed h { s with dandelion := dandelionNoteSource s.dandelion hash isDinv now delay } ↔ Fluffed h s := by
  by_cases hhash : h = hash
  · subst hhash
    cases isDinv with
    | true => exact Iff.rfl
    | false =>
      unfold Fluffed
      rw [find?_noteSource_self]
      rcases hfind : s.dandelion.entries.find? h with _ | e
      · simp [Dandelion.entry, hfind, DandelionEntry.new]
      · simp [Dandelion.entry_of_some hfind]
  · unfold Fluffed
    rw [find?_noteSource hhash]

/-- A decision keeps the mark, and sets it for the hash that it finds to be fluffed. -/
theorem fluffed_decide {hash : Bytes} {target : Option PeerAddress} {now : ℤ} {delay : ℕ} (hnow : s.Past now)
    (ht : t.dandelion = (dandelionDecide s.dandelion hash target now delay).1) :
    Fluffed h t ↔ Fluffed h s ∨ (h = hash ∧ FluffsAt s.dandelion.stem (s.dandelion.entry hash now delay) now) := by
  unfold Fluffed
  rw [ht, (@dandelionDecide_eq s.dandelion hash now delay target).2 h]
  by_cases hhash : h = hash
  · subst hhash
    have hpos := hnow.1
    rw [if_pos rfl]
    by_cases hfluffs : FluffsAt s.dandelion.stem (s.dandelion.entry h now delay) now
    · have hmark : ((s.dandelion.entry h now delay).fluffed now).fluffedAt ≠ 0 := by
        unfold DandelionEntry.fluffed
        split_ifs with hzero
        · exact hpos.ne'
        · exact hzero
      simp [hfluffs, hmark]
    · rw [if_neg hfluffs]
      simp only [hfluffs, and_false, or_false]
      rcases hfind : s.dandelion.entries.find? h with _ | e
      · simp [Dandelion.entry, hfind, DandelionEntry.new]
      · simp [Dandelion.entry_of_some hfind]
  · simp [hhash]

/-- A sweep keeps the mark of an entry that it does not drop. -/
theorem fluffed_expire {now : ℤ} (hs : Fluffed h s) (hstale : ∀ e ∈ s.dandelion.entries.find? h, e.stale now = false)
    (ht : t.dandelion = dandelionExpire s.dandelion now) : Fluffed h t := by
  obtain ⟨e, he, hmark⟩ := hs
  have hnot : h ∉ expiredHashes s.dandelion now := by
    intro hmem
    obtain ⟨e', he', hzero, -⟩ := mem_expiredHashes hmem
    rw [Option.mem_def.mp he] at he'
    cases he'
    exact hmark hzero
  refine ⟨e, ?_, hmark⟩
  rw [ht, find?_dandelionExpire, Option.mem_def.mp he, Option.map_some, if_neg hnot]
  simp [hstale e he]

/-- A sweep marks only what it goes on to announce. -/
theorem expired_of_fluffed {now : ℤ} (hs : ¬ Fluffed h s) (hfluffed : Fluffed h t)
    (ht : t.dandelion = dandelionExpire s.dandelion now) : h ∈ expiredHashes s.dandelion now := by
  by_contra hnot
  obtain ⟨e, he, hmark⟩ := hfluffed
  rw [ht, find?_dandelionExpire] at he
  obtain ⟨hmap, -⟩ := Option.filter_eq_some_iff.mp he
  obtain ⟨e', hfind, rfl⟩ := Option.map_eq_some_iff.mp hmap
  rw [if_neg hnot] at hmark
  exact hs ⟨e', hfind, hmark⟩

/-- The mark goes only with the entry. -/
theorem fluffed_step (hs : Fluffed h s)
    (hstale : ∀ now, e = .expire now → ∀ x ∈ s.dandelion.entries.find? h, x.stale now = false)
    (hstep : propagationStep s e = some t) : Fluffed h t := by
  cases propagationStep_effect hstep with
  | expire now hconnector hnow => exact fluffed_expire hs (hstale now rfl) rfl
  | decide b c todo hash rest now delay hlock htodo hundecided hnow => exact (fluffed_decide hnow rfl).mpr (.inl hs)
  | quiet hqueued hlock hconns hstem hentries hhashes => exact (fluffed_congr hentries).mpr hs
  | note hash isDinv now delay hnow => exact fluffed_note.mpr hs
  | add p hqueued hlock hp ht =>
    rw [ht]
    exact hs
  | @start _ u hashes except hqueued hlock hne hconns hdandelion hhashes =>
    refine (fluffed_congr ?_).mpr hs
    unfold Propagation.startBroadcast
    rw [if_neg hne, hdandelion]
  | touch c f hqueued hf => exact hs
  | setStem stem hconnector => exact hs
  | remove c hlock => exact hs
  | queue b c rest invOk dinvOk hlock htodo hundecided => exact hs
  | endBroadcast b hlock htodo => exact hs
  | beginBigInv v hqueued hlock hplain => exact hs
  | checkBigInv v hash rest hlock hunchecked => exact hs
  | queueBigInv v now ok hlock => exact hs
  | sweepBigInv c p now ok hp => exact hs

/-! ### A step with a broadcast in progress -/

/-- What a step makes of the broadcast `b` in progress. -/
inductive UnderBroadcast (s : Propagation) (b : InvBroadcast) : PropagationEvent → Propagation → Prop
  | kept {e : PropagationEvent} {t : Propagation} (hlock : t.lock = .broadcast b) : UnderBroadcast s b e t
  | decided (c : ℕ) (todo : List ℕ) (hash : Bytes) (rest : List Bytes) (now : ℤ) (delay : ℕ) {t : Propagation}
      (htodo : b.todo = c :: todo) (hundecided : b.undecided = hash :: rest) (hnow : s.Past now)
      (hdandelion : t.dandelion = (dandelionDecide s.dandelion hash ((s.conn? c).map PeerConn.peer) now delay).1)
      (hlock : t.lock = .broadcast (b.decided hash rest
        (dandelionDecide s.dandelion hash ((s.conn? c).map PeerConn.peer) now delay).2)) :
      UnderBroadcast s b (.decide now delay) t
  | queued (c : ℕ) (rest : List ℕ) (invOk dinvOk : Bool) {t : Propagation} (htodo : b.todo = c :: rest)
      (hundecided : b.undecided = []) (hdandelion : t.dandelion = s.dandelion) (hlock : t.lock = .broadcast (b.next c rest))
      (hconns : t.conns = (s.setConn c fun p =>
        { p with pendingEviction := p.pendingEviction || b.failed invOk dinvOk }).conns) :
      UnderBroadcast s b (.queue invOk dinvOk) t
  | ended {t : Propagation} (htodo : b.todo = []) : UnderBroadcast s b .endBroadcast t

theorem underBroadcast_step {b : InvBroadcast} (hb : s.lock = .broadcast b) (hstep : propagationStep s e = some t) :
    UnderBroadcast s b e t := by
  cases propagationStep_effect hstep with
  | quiet hqueued hlock hconns hstem hentries hhashes => exact .kept (hlock.trans hb)
  | touch c f hqueued hf => exact .kept hb
  | note hash isDinv now delay hnow => exact .kept hb
  | setStem stem hconnector => exact .kept hb
  | expire now hconnector hnow => exact .kept hb
  | sweepBigInv c p now ok hp => exact .kept hb
  | decide b' c todo hash rest now delay hlock htodo hundecided hnow =>
    cases hb.symm.trans hlock
    exact .decided c todo hash rest now delay htodo hundecided hnow rfl rfl
  | queue b' c rest invOk dinvOk hlock htodo hundecided =>
    cases hb.symm.trans hlock
    exact .queued c rest invOk dinvOk htodo hundecided rfl rfl rfl
  | endBroadcast b' hlock htodo =>
    cases hb.symm.trans hlock
    exact .ended htodo
  | add p hqueued hlock hp ht => cases hb.symm.trans hlock
  | remove c hlock => cases hb.symm.trans hlock
  | start hashes except hqueued hlock hne hconns hdandelion hhashes => cases hb.symm.trans hlock
  | beginBigInv v hqueued hlock hplain => cases hb.symm.trans hlock
  | checkBigInv v hash rest hlock hunchecked => cases hb.symm.trans hlock
  | queueBigInv v now ok hlock => cases hb.symm.trans hlock

/-! ### An announcement that is due -/

/-- The announcement of a marked hash to a connection is due: from a broadcast that the sweep has yet
to make, from a decision to come, which will find the mark, or from the `inv` in preparation. -/
inductive Due (h : Bytes) (c : ℕ) (s : Propagation) : Prop
  | swept (hmark : Fluffed h s) (hmem : h ∈ s.connector.hashes)
  | awaited (hmark : Fluffed h s) (b : InvBroadcast) (hlock : s.lock = .broadcast b) (hb : b.Awaits h c)
  | ready (b : InvBroadcast) (hlock : s.lock = .broadcast b) (hb : b.Ready h c)

theorem Due.coming (hdue : Due h c s) : Coming h c s := by
  cases hdue with
  | swept hmark hmem => exact .inl hmem
  | awaited hmark b hlock hb => exact .inr ⟨b, by rw [hlock]; rfl, .inl hb⟩
  | ready b hlock hb => exact .inr ⟨b, by rw [hlock]; rfl, .inr hb⟩

/-- A decision leaves the hash to be decided for the connection, or has put it into the `inv`. -/
theorem InvBroadcast.Awaits.decided {b : InvBroadcast} {hash : Bytes} {rest : List Bytes} {mode : PropagationMode}
    (hb : b.Awaits h c) (hundecided : b.undecided = hash :: rest) (hmode : h = hash → mode = .fluff) :
    (b.decided hash rest mode).Awaits h c ∨ (b.decided hash rest mode).Ready h c := by
  have hhashes : (b.decided hash rest mode).hashes = b.hashes := by cases mode <;> rfl
  have htodo : (b.decided hash rest mode).todo = b.todo := by cases mode <;> rfl
  have hrest : (b.decided hash rest mode).undecided = rest := by cases mode <;> rfl
  obtain ⟨hmem, ⟨hhead, hin⟩ | htail⟩ := hb
  · rw [hundecided, List.mem_cons] at hin
    rcases hin with hhash | hin
    · rw [hmode hhash]
      exact .inr ⟨hhead, List.mem_append_right b.fluff (List.mem_singleton.mpr hhash)⟩
    · exact .inl ⟨by rwa [hhashes], .inl ⟨by rwa [htodo], by rwa [hrest]⟩⟩
  · exact .inl ⟨by rwa [hhashes], .inr (by rwa [htodo])⟩

theorem InvBroadcast.Ready.decided {b : InvBroadcast} {hash : Bytes} {rest : List Bytes} {mode : PropagationMode}
    (hb : b.Ready h c) : (b.decided hash rest mode).Ready h c := by
  obtain ⟨hhead, hmem⟩ := hb
  cases mode with
  | fluff => exact ⟨hhead, List.mem_append_left [hash] hmem⟩
  | stem => exact ⟨hhead, hmem⟩
  | skip => exact ⟨hhead, hmem⟩

/-- A connection that is to come is the next one, or comes later. -/
theorem InvBroadcast.awaits_of_mem {b : InvBroadcast} (hmem : h ∈ b.hashes) (hundecided : h ∈ b.undecided)
    (hc : c ∈ b.todo) : b.Awaits h c :=
  ⟨hmem, (mem_head_or_tail hc).imp (fun hhead => ⟨hhead, hundecided⟩) id⟩

/-- The `inv` of a connection has the hashes that are fluffed, and a connection that it cannot be queued
to is about to be closed. -/
theorem InvBroadcast.Ready.queued {b : InvBroadcast} {rest : List ℕ} {invOk dinvOk : Bool} (hb : b.Ready h c)
    (hlock : s.lock = .broadcast b) (htodo : b.todo = c :: rest)
    (hconns : t.conns = (s.setConn c fun p =>
      { p with pendingEviction := p.pendingEviction || b.failed invOk dinvOk }).conns)
    (ht : Registered c t) : ∃ q ∈ queuedBy s (.queue invOk dinvOk), q.1 = c ∧ q.2.isInvOf h = true := by
  have hne : b.fluff ≠ [] := List.ne_nil_of_mem hb.2
  have hok : invOk = true := by
    by_contra hfail
    obtain ⟨q, hq, hgen, -, hlive⟩ := ht
    rw [hconns] at hq
    obtain ⟨p, hp, rfl⟩ := List.mem_map.mp hq
    have hpgen : p.generation = c := by
      by_contra hother
      rw [if_neg hother] at hgen
      exact hother hgen
    rw [if_pos hpgen] at hlive
    simp [InvBroadcast.failed, hne, hfail] at hlive
  refine ⟨(c, .inv b.fluff), ?_, rfl, decide_eq_true hb.2⟩
  simp [queuedBy, hlock, htodo, InvBroadcast.packets, hne, hok]

/-- The sweep goes on to announce a hash whose object is in the pool. -/
theorem Due.step_swept (hmark : Fluffed h s) (hmem : h ∈ s.connector.hashes)
    (hstep : propagationStep s e = some t) (hs : Concerns h c s) : Due h c t := by
  cases propagationStep_effect hstep with
  | quiet hqueued hlock hconns hstem hentries hhashes =>
    rcases hhashes h hmem with hmem | hgone
    · exact .swept ((fluffed_congr hentries).mpr hmark) hmem
    · rw [hs.2] at hgone
      cases hgone
  | touch c' f hqueued hf => exact .swept hmark hmem
  | note hash isDinv now delay hnow => exact .swept (fluffed_note.mpr hmark) hmem
  | setStem stem hconnector =>
    rw [hconnector] at hmem
    cases hmem
  | expire now hconnector hnow =>
    rw [hconnector] at hmem
    cases hmem
  | add p hqueued hlock hp ht =>
    rw [ht]
    exact .swept hmark hmem
  | remove c' hlock => exact .swept hmark hmem
  | @start _ u hashes except hqueued hlock hne hconns hdandelion hhashes =>
    have hmark : Fluffed h u := (fluffed_congr (by rw [hdandelion])).mpr hmark
    unfold Propagation.startBroadcast
    rw [if_neg hne]
    rcases hhashes h hmem with hmem | ⟨hmem, rfl⟩
    · exact .swept hmark hmem
    · obtain ⟨⟨p, hp, hgen, htype, -⟩, -⟩ := hs
      refine .awaited hmark _ rfl (InvBroadcast.awaits_of_mem hmem hmem ?_)
      rw [hconns, ← hgen]
      refine List.mem_map_of_mem (List.mem_filter.mpr ⟨hp, ?_⟩)
      simp [PeerConn.announced, htype]
  | decide b c' todo hash rest now delay hlock htodo hundecided hnow =>
    exact .swept ((fluffed_decide hnow rfl).mpr (.inl hmark)) hmem
  | queue b c' rest invOk dinvOk hlock htodo hundecided => exact .swept hmark hmem
  | endBroadcast b hlock htodo =>
    refine .swept hmark ?_
    show h ∈ s.connector.released.hashes
    cases hconnector : s.connector with
    | announcing rest =>
      rw [hconnector] at hmem
      exact hmem
    | _ =>
      rw [hconnector] at hmem
      exact hmem
  | beginBigInv v hqueued hlock hplain => exact .swept hmark hmem
  | checkBigInv v hash rest hlock hunchecked => exact .swept hmark hmem
  | queueBigInv v now ok hlock => exact .swept hmark hmem
  | sweepBigInv c' p now ok hp => exact .swept hmark hmem

/-- A decision to come finds the mark, for which the sweep must not drop the entry. -/
theorem Due.step_awaited {b : InvBroadcast} (hmark : Fluffed h s) (hlock : s.lock = .broadcast b) (hb : b.Awaits h c)
    (hguard : CoverGuard h s e) (hstep : propagationStep s e = some t) (hs : Concerns h c s) : Due h c t := by
  have hmarked : Fluffed h t := fluffed_step hmark (fun now he => ?_) hstep
  · cases underBroadcast_step hlock hstep with
    | kept hlock => exact .awaited hmarked b hlock hb
    | decided c' todo hash rest now delay htodo hundecided hnow hdandelion hlock =>
      have hmode : h = hash →
          (dandelionDecide s.dandelion hash ((s.conn? c').map PeerConn.peer) now delay).2 = .fluff := by
        rintro rfl
        obtain ⟨x, hx, hzero⟩ := hmark
        rw [dandelionDecide_eq.1, if_pos]
        rw [Dandelion.entry_of_some hx]
        exact .inl hzero
      rcases hb.decided hundecided hmode with hb | hb
      · exact .awaited hmarked _ hlock hb
      · exact .ready _ hlock hb
    | queued c' rest invOk dinvOk htodo hundecided hdandelion hlock hconns =>
      have hc : c ∈ rest := by
        rcases hb.2 with ⟨-, hmem⟩ | htail
        · rw [hundecided] at hmem
          cases hmem
        · rwa [htodo] at htail
      exact .awaited hmarked _ hlock (InvBroadcast.awaits_of_mem hb.1 hb.1 hc)
    | ended htodo =>
      rcases hb.2 with ⟨hhead, -⟩ | htail
      · rw [htodo] at hhead
        cases hhead
      · rw [htodo] at htail
        cases htail
  · subst he
    have hc : c ∈ b.todo := hb.2.elim (fun hhead => List.mem_of_head? hhead.1) List.mem_of_mem_tail
    exact hguard b (by rw [hlock]; rfl) c hc hb hs

/-- The `inv` in preparation is queued, or the connection is about to be closed. -/
theorem Due.step_ready {b : InvBroadcast} (hlock : s.lock = .broadcast b) (hb : b.Ready h c)
    (hstep : propagationStep s e = some t) (ht : Registered c t) :
    (∃ q ∈ queuedBy s e, q.1 = c ∧ q.2.isInvOf h = true) ∨ Due h c t := by
  cases underBroadcast_step hlock hstep with
  | kept hlock => exact .inr (.ready b hlock hb)
  | decided c' todo hash rest now delay htodo hundecided hnow hdandelion hlock => exact .inr (.ready _ hlock hb.decided)
  | queued c' rest invOk dinvOk htodo hundecided hdandelion hlock' hconns =>
    have hc : c' = c := by
      have hhead := hb.1
      rw [htodo] at hhead
      cases hhead
      rfl
    subst hc
    exact .inl (hb.queued hlock htodo hconns ht)
  | ended htodo =>
    have hhead := hb.1
    rw [htodo] at hhead
    cases hhead

/-- A step that meets the condition makes the announcement that is due, or leaves it due. -/
theorem Due.step (hdue : Due h c s) (hguard : CoverGuard h s e) (hstep : propagationStep s e = some t)
    (hs : Concerns h c s) (ht : Concerns h c t) :
    (∃ q ∈ queuedBy s e, q.1 = c ∧ q.2.isInvOf h = true) ∨ Due h c t := by
  cases hdue with
  | swept hmark hmem => exact .inr (Due.step_swept hmark hmem hstep hs)
  | awaited hmark b hlock hb => exact .inr (Due.step_awaited hmark hlock hb hguard hstep hs)
  | ready b hlock hb => exact Due.step_ready hlock hb hstep ht.1

/-- A step that meets the condition and marks the hash makes the announcement due for every connection
that it concerns, but the excepted one. -/
theorem due_of_mark (hcovers : ∀ b ∈ s.lock.broadcast?, Covers s b) (hguard : CoverGuard h s e)
    (hstep : propagationStep s e = some t) (hs : ¬ Fluffed h s) (ht : Fluffed h t) (hc : Concerns h c s)
    (hexcept : exceptedBy s e ≠ some c) : Due h c t := by
  cases propagationStep_effect hstep with
  | expire now hconnector hnow => exact .swept ht (expired_of_fluffed hs ht rfl)
  | decide b c' todo hash rest now delay hlock htodo hundecided hnow =>
    rcases (fluffed_decide hnow rfl).mp ht with hmark | ⟨rfl, hfluffs⟩
    · exact absurd hmark hs
    · have hb : b ∈ s.lock.broadcast? := by rw [hlock]; rfl
      obtain ⟨⟨p, hp, hgen, htype, hlive⟩, hpool⟩ := hc
      have hannounced : p.announced b.except = true := by
        refine decide_eq_true ⟨?_, htype⟩
        rw [hgen]
        simpa [exceptedBy, RegistryLock.broadcast?, hlock] using hexcept
      have hzero : (s.dandelion.entry h now delay).fluffedAt = 0 := by
        rcases hfind : s.dandelion.entries.find? h with _ | x
        · rw [Dandelion.entry, hfind]
          rfl
        · rw [Dandelion.entry_of_some hfind]
          by_contra hne
          exact hs ⟨x, hfind, hne⟩
      have hpassed : c ∉ b.passed := fun hmem =>
        hguard b hb (by rw [hundecided]; rfl) hzero hfluffs c hmem ⟨⟨p, hp, hgen, htype, hlive⟩, hpool⟩
      have hc : c ∈ b.todo := by
        have hmem := (hcovers b hb).conns p hp hannounced
        rw [hgen] at hmem
        exact hmem.resolve_left hpassed
      have hundec : h ∈ b.undecided := by rw [hundecided]; exact List.mem_cons_self
      have hawaits := InvBroadcast.awaits_of_mem ((hcovers b hb).undecided hundec) hundec hc
      have hmode : (dandelionDecide s.dandelion h ((s.conn? c').map PeerConn.peer) now delay).2 = .fluff := by
        rw [dandelionDecide_eq.1, if_pos hfluffs]
      rcases hawaits.decided hundecided fun _ => hmode with hb | hb
      · exact .awaited ht _ rfl hb
      · exact .ready _ rfl hb
  | quiet hqueued hlock hconns hstem hentries hhashes => exact absurd ((fluffed_congr hentries).mp ht) hs
  | note hash isDinv now delay hnow => exact absurd (fluffed_note.mp ht) hs
  | add p hqueued hlock hp heq =>
    rw [heq] at ht
    exact absurd ht hs
  | @start _ u hashes except hqueued hlock hne hconns hdandelion hhashes =>
    refine absurd ((fluffed_congr ?_).mp ht) hs
    unfold Propagation.startBroadcast
    rw [if_neg hne, hdandelion]
  | touch c' f hqueued hf => exact absurd ht hs
  | setStem stem hconnector => exact absurd ht hs
  | remove c' hlock => exact absurd ht hs
  | queue b c' rest invOk dinvOk hlock htodo hundecided => exact absurd ht hs
  | endBroadcast b hlock htodo => exact absurd ht hs
  | beginBigInv v hqueued hlock hplain => exact absurd ht hs
  | checkBigInv v hash rest hlock hunchecked => exact absurd ht hs
  | queueBigInv v now ok hlock => exact absurd ht hs
  | sweepBigInv c' p now ok hp => exact absurd ht hs

/-! ### Runs -/

/-- What is due stays due until it is announced. -/
theorem Due.run {es : List PropagationEvent} (hdue : Due h c s) (hguard : Along propagationStep (CoverGuard h) s es)
    (hconcerns : Always propagationStep (Concerns h c) s es) (hrun : run propagationStep s es = some t) :
    Announced h c s es ∨ Due h c t := by
  induction es generalizing s with
  | nil =>
    cases hrun
    exact .inr hdue
  | cons e es ih =>
    obtain ⟨u, hu, hrun⟩ := run_cons hrun
    have hmem : ∀ q, (q ∈ queuedBy s e ∨ q ∈ queuedIn u es) → q ∈ queuedIn s (e :: es) := by
      intro q hq
      rw [queuedIn, hu]
      simpa using hq
    rcases hdue.step hguard.1 hu hconcerns.1 (hconcerns.2 u hu).start with ⟨q, hq, hinv⟩ | hdue
    · exact .inl ⟨q, hmem q (.inl hq), hinv⟩
    · rcases ih hdue (hguard.2 u hu) (hconcerns.2 u hu) hrun with ⟨q, hq, hinv⟩ | hdue
      · exact .inl ⟨q, hmem q (.inr hq), hinv⟩
      · exact .inr hdue

end

/-- In every run from a state with the lock of the registry free, all of whose steps meet the condition,
no connection is skipped. -/
theorem no_connection_skipped {h : Bytes} {s : Propagation} {es : List PropagationEvent} (hs : s.lock = .free)
    (hguard : Along propagationStep (CoverGuard h) s es) : NoConnectionSkipped h s es := by
  rintro before e later u v t rfl hu hv hnot hmark ht c hc hexcept hconcerns
  have hcovers : ∀ b ∈ u.lock.broadcast?, Covers u b := by
    refine run_invariant (fun _ _ _ => covers_step) ?_ hu
    rw [hs]
    exact fun b hb => by cases hb
  have hguard := hguard.right hu
  have hdue : Due h c v := due_of_mark hcovers hguard.1 hv hnot hmark hc hexcept
  exact (hdue.run (hguard.2 v hv) hconcerns ht).imp id Due.coming

/-! ### The deadline passes between two peers -/

/-- An inbound connection, and an outbound one that becomes the stem. The object of this node is
announced to the first, for which it is skipped. -/
def firstPeerSkipped : List PropagationEvent :=
  [.add .serverSocket ⟨[1], 8444⟩, .add .clientSocket ⟨[2], 8444⟩, .services 2 true, .reshuffle 100, .pick (some 2),
    .setStem, .make ownRow, .look 0, .store 0, .announce 0, .decide 100 0, .queue true true, .tick 110]

/-- The deadline of the hash has passed when the second is decided. Then the sweep has nothing to do. -/
def secondPeerFluffs : List PropagationEvent := [.queue true true, .endBroadcast, .expire 110, .endRefluff]

/-- The sweep marks the hash, and announces it to both. -/
def sweepFluffs : List PropagationEvent :=
  [.decide 100 0, .queue true true, .endBroadcast, .expire 110, .checkRefluff, .refluff, .decide 110 0, .queue true true,
    .decide 110 0, .queue true true, .endBroadcast, .endRefluff]

theorem sweepFluffs_covers : (run propagationStep newPropagation (firstPeerSkipped ++ sweepFluffs)).isSome ∧
    NoConnectionSkipped ownRow.hash newPropagation (firstPeerSkipped ++ sweepFluffs) :=
  ⟨by decide, no_connection_skipped rfl (by decide)⟩

theorem firstPeerSkipped_isSome : (run propagationStep newPropagation firstPeerSkipped).isSome = true := by
  decide

/-- The lock is held, and the second peer is about to be decided. -/
def skippedPropagation : Propagation := (run propagationStep newPropagation firstPeerSkipped).get firstPeerSkipped_isSome

theorem decide_isSome : (propagationStep skippedPropagation (.decide 110 0)).isSome = true := by decide

/-- The decision for the second peer has marked the hash. -/
def markedPropagation : Propagation := (propagationStep skippedPropagation (.decide 110 0)).get decide_isSome

theorem secondPeerFluffs_isSome : (run propagationStep markedPropagation secondPeerFluffs).isSome = true := by
  decide

/-- The first peer, connected all the time, gets no `inv`: the hash is marked after it was skipped. -/
theorem first_peer_skipped : ¬ NoConnectionSkipped ownRow.hash newPropagation
    (firstPeerSkipped ++ .decide 110 0 :: secondPeerFluffs) := by
  intro hall
  have hskipped := hall firstPeerSkipped (.decide 110 0) secondPeerFluffs skippedPropagation markedPropagation _ rfl
    (Option.some_get firstPeerSkipped_isSome).symm (Option.some_get decide_isSome).symm (by decide)
    (by decide) (Option.some_get secondPeerFluffs_isSome).symm 1 (by decide) (by decide)
    (by decide)
  revert hskipped
  decide

end Bitmessage
