import Bitmessage.Infra.Handshake

/-! The announcement of the pool to a new peer, in chunks. The first chunk is sent at once, and each
sweep sends one more if the last one is old enough and nothing is queued for the connection. A list
that is handed over while another one is under way takes its place, and the hashes of the other that
were still to come are not announced. -/

namespace Bitmessage

open Transition

/-- `pending_inv_hashes`, `pending_inv_total`, `pending_inv_sent` and `pending_inv_last_chunk_time` of
`struct bm_fd_data`. -/
structure PendingInv where
  hashes : Option (List Bytes)
  total : ℕ
  sent : ℕ
  lastChunkTime : ℤ

/-- What becomes of an `inv` packet: `bm_create_inventory_message` has no memory, or it is sent. -/
abbrev InvResult := Option SendResult

/-- The packet is in the queue and its sending has not failed. -/
def InvResult.ok (result : InvResult) : Bool := result.any SendResult.ok

/-- The packet is in the queue. -/
def InvResult.queues (result : InvResult) : Bool := result.any SendResult.queues

namespace PendingInv

/-- `bm_fd_data_new`. -/
def new : PendingInv := ⟨none, 0, 0, 0⟩

/-- The hashes that are still to come. -/
def waiting (p : PendingInv) : List Bytes := (p.hashes.getD []).drop p.sent

/-- The number of hashes in the next chunk. -/
def chunkLength (p : PendingInv) (size : ℕ) : ℕ := if p.total - p.sent < size then p.total - p.sent else size

/-- `send_inv_chunk`, with the packet that is queued. -/
def sendInvChunk (p : PendingInv) (size : ℕ) (now : ℤ) (result : InvResult) : PendingInv × List (List Bytes) :=
  let n := p.chunkLength size
  let tried := { p with lastChunkTime := now }
  let sent := { tried with sent := p.sent + n }
  (if !result.ok then { tried with hashes := none }
    else if sent.total ≤ sent.sent then { sent with hashes := none }
    else sent,
    if result.queues then [p.waiting.take n] else [])

/-- `bm_network_begin_big_inv`. -/
def beginBigInv (p : PendingInv) (size : ℕ) (hashes : List Bytes) (now : ℤ) (result : InvResult) :
    PendingInv × List (List Bytes) :=
  { p with hashes := some hashes, total := hashes.length, sent := 0 }.sendInvChunk size now result

/-- The part of `idle_sweep_one` that sends a chunk. -/
def sweep (p : PendingInv) (size : ℕ) (now : ℤ) (queuedBytes : ℕ) (result : InvResult) :
    PendingInv × List (List Bytes) :=
  if p.hashes ≠ none ∧ bigInvChunkIntervalSeconds ≤ now - p.lastChunkTime ∧ queuedBytes = 0 then
    p.sendInvChunk size now result
  else (p, [])

end PendingInv

inductive PacingLabel where
  | begin (hashes : List Bytes) (now : ℤ) (result : InvResult)
  | sweep (now : ℤ) (queuedBytes : ℕ) (result : InvResult)

/-- No packet of the step is lost. -/
def PacingLabel.ok : PacingLabel → Bool
  | .begin _ _ result => result.ok
  | .sweep _ _ result => result.ok

/-- A connection with its past: the `inv` packets queued, and the hashes handed over. -/
structure PacingRun where
  pending : PendingInv
  packets : List (List Bytes)
  handed : List Bytes

def pacingInit : PacingRun := ⟨.new, [], []⟩

def pacingStep (size : ℕ) (r : PacingRun) : PacingLabel → Option PacingRun
  | .begin hashes now result =>
    let sent := r.pending.beginBigInv size hashes now result
    some ⟨sent.1, r.packets ++ sent.2, r.handed ++ hashes⟩
  | .sweep now queuedBytes result =>
    let sent := r.pending.sweep size now queuedBytes result
    some ⟨sent.1, r.packets ++ sent.2, r.handed⟩

/-! ### One chunk -/

namespace PendingInv

/-- A list is kept only while some of it is to come. -/
def Paced (p : PendingInv) : Prop := ∀ hashes ∈ p.hashes, p.total = hashes.length ∧ p.sent < hashes.length

variable {p : PendingInv}

theorem InvResult.queues_of_ok {result : InvResult} (h : result.ok = true) : result.queues = true := by
  rcases result with _ | r
  · cases h
  · cases r <;> first | rfl | cases h

theorem waiting_eq_nil (h : p.Paced) : p.waiting = [] ↔ p.hashes = none := by
  rcases hp : p.hashes with _ | hashes
  · simp [waiting, hp]
  · have hlt := (h hashes hp).2
    simp only [waiting, hp, Option.getD_some, List.drop_eq_nil_iff]
    exact iff_of_false (by omega) (by simp)

theorem take_chunkLength (htotal : p.waiting.length = p.total - p.sent) (size : ℕ) :
    p.waiting.take (p.chunkLength size) = p.waiting.take size := by
  unfold chunkLength
  split_ifs with hshort
  · rw [List.take_of_length_le (by omega), List.take_of_length_le (by omega)]
  · rfl

theorem length_waiting {hashes : List Bytes} (hp : p.hashes = some hashes) (htotal : p.total = hashes.length) :
    p.waiting.length = p.total - p.sent := by
  rw [waiting, hp, Option.getD_some, List.length_drop, htotal]

/-- A chunk that is queued is what comes next, and the rest keeps waiting. -/
theorem sendInvChunk_spec {hashes : List Bytes} (hp : p.hashes = some hashes) (htotal : p.total = hashes.length)
    {size : ℕ} {now : ℤ} {result : InvResult} (hok : result.ok = true) :
    (p.sendInvChunk size now result).2 = [p.waiting.take size] ∧
      (p.sendInvChunk size now result).1.waiting = p.waiting.drop size ∧
      (p.sendInvChunk size now result).1.Paced ∧ (p.sendInvChunk size now result).1.lastChunkTime = now := by
  have hlength := length_waiting hp htotal
  have hwaiting : p.waiting = hashes.drop p.sent := by rw [waiting, hp, Option.getD_some]
  unfold sendInvChunk
  simp only [hok, InvResult.queues_of_ok hok, if_true, take_chunkLength hlength, Bool.not_true, Bool.false_eq_true,
    if_false]
  refine ⟨trivial, ?_⟩
  by_cases hdone : p.total ≤ p.sent + p.chunkLength size
  · have hall : p.waiting.length ≤ size := by
      unfold chunkLength at hdone
      split_ifs at hdone <;> omega
    rw [if_pos hdone]
    refine ⟨?_, ?_, rfl⟩
    · rw [List.drop_of_length_le hall]
      simp [waiting]
    · intro hashes' hh
      cases hh
  · have hn : p.chunkLength size = size := by
      unfold chunkLength at hdone ⊢
      split_ifs at hdone ⊢
      · omega
      · rfl
    rw [if_neg hdone, hn]
    refine ⟨?_, ?_, rfl⟩
    · rw [hwaiting, List.drop_drop]
      simp [waiting, hp]
    · intro hashes' hh
      obtain rfl := Option.some.inj (hp.symm.trans hh)
      exact ⟨htotal, by simp only; omega⟩

/-- The chunk leaves what the connection has pending. -/
theorem sendInvChunk_refines {hashes : List Bytes} (hp : p.hashes = some hashes) (htotal : p.total = hashes.length)
    {conn : HandshakeConn} (hconn : conn.pendingInv = p.waiting) (now : ℤ) (result : SendResult) :
    (conn.sendInvChunk now result).pendingInv = (p.sendInvChunk bigInvChunkSize now (some result)).1.waiting := by
  unfold HandshakeConn.sendInvChunk
  by_cases hok : result.ok = true
  · rw [(@sendInvChunk_spec p hashes hp htotal bigInvChunkSize now (some result) hok).2.1, ← hconn]
    simp only [hok, if_true]
  · rw [Bool.not_eq_true] at hok
    have hok' : InvResult.ok (some result) = false := hok
    simp [sendInvChunk, hok, hok', waiting]

end PendingInv

/-! ### One list -/

/-- The sweeps with nothing queued, so long after every such one before and after the first chunk as
the chunks are to be apart. -/
def spacedSweeps : ℤ → List PacingLabel → ℕ
  | _, [] => 0
  | latest, .sweep now 0 _ :: ls =>
    (if latest + bigInvChunkIntervalSeconds ≤ now then 1 else 0) + spacedSweeps (max latest now) ls
  | latest, _ :: ls => spacedSweeps latest ls

def PacingLabel.isSweep : PacingLabel → Bool
  | .begin _ _ _ => false
  | .sweep _ _ _ => true

/-- So many chunks of a list have been sent, the last one not after a time. -/
structure UnderWay (size : ℕ) (hashes base : List Bytes) (r : PacingRun) (chunks : ℕ) (latest : ℤ) : Prop where
  packets : r.packets.flatten = base ++ hashes.take (size * chunks)
  waiting : r.pending.waiting = hashes.drop (size * chunks)
  paced : r.pending.Paced
  last : r.pending.lastChunkTime ≤ latest

section

variable {size : ℕ} {hashes base : List Bytes} {r r' : PacingRun} {latest : ℤ}

theorem underWay_begin {now : ℤ} {result : InvResult} (hok : result.ok = true)
    (h : pacingStep size r (.begin hashes now result) = some r') :
    UnderWay size hashes r.packets.flatten r' 1 now ∧ r'.handed = r.handed ++ hashes := by
  let begun : PendingInv := ⟨some hashes, hashes.length, 0, r.pending.lastChunkTime⟩
  obtain ⟨hpackets, hwaiting, hpaced, hlast⟩ := @PendingInv.sendInvChunk_spec begun hashes rfl rfl size now _ hok
  have hr' : r' = ⟨(r.pending.beginBigInv size hashes now result).1,
      r.packets ++ (r.pending.beginBigInv size hashes now result).2, r.handed ++ hashes⟩ := (Option.some.inj h).symm
  subst hr'
  refine ⟨⟨?_, ?_, hpaced, hlast.le⟩, rfl⟩
  · have hfirst : (r.pending.beginBigInv size hashes now result).2 = [hashes.take size] := hpackets
    simp [hfirst]
  · rw [Nat.mul_one]
    exact hwaiting

theorem underWay_sweep {chunks : ℕ} (h : UnderWay size hashes base r chunks latest) {now : ℤ} {queuedBytes : ℕ}
    {result : InvResult} (hok : result.ok = true) (hr' : pacingStep size r (.sweep now queuedBytes result) = some r') :
    (UnderWay size hashes base r' chunks latest ∧
      (queuedBytes = 0 → latest + bigInvChunkIntervalSeconds ≤ now → hashes.length ≤ size * chunks)) ∨
    queuedBytes = 0 ∧ UnderWay size hashes base r' (chunks + 1) (max latest now) := by
  have hswept : r' = ⟨(r.pending.sweep size now queuedBytes result).1,
      r.packets ++ (r.pending.sweep size now queuedBytes result).2, r.handed⟩ := (Option.some.inj hr').symm
  subst hswept
  unfold PendingInv.sweep
  by_cases hgo : r.pending.hashes ≠ none ∧ bigInvChunkIntervalSeconds ≤ now - r.pending.lastChunkTime ∧ queuedBytes = 0
  · obtain ⟨hashes', hp⟩ := Option.ne_none_iff_exists'.mp hgo.1
    obtain ⟨hpackets, hwaiting, hpaced, hlast⟩ := @PendingInv.sendInvChunk_spec r.pending hashes' hp
      (h.paced hashes' hp).1 size now _ hok
    rw [if_pos hgo]
    refine .inr ⟨hgo.2.2, ?_, ?_, hpaced, hlast.le.trans (le_max_right _ _)⟩
    · rw [Nat.mul_succ, List.take_add]
      simp [hpackets, h.packets, h.waiting]
    · rw [Nat.mul_succ, ← List.drop_drop, ← h.waiting]
      exact hwaiting
  · rw [if_neg hgo]
    refine .inl ⟨⟨by simp [h.packets], h.waiting, h.paced, h.last⟩, fun hqueue hspaced => ?_⟩
    have hlast := h.last
    have hnone : r.pending.hashes = none := by
      by_contra hsome
      exact hgo ⟨hsome, by omega, hqueue⟩
    have hdone := (PendingInv.waiting_eq_nil h.paced).mpr hnone
    rwa [h.waiting, List.drop_eq_nil_iff] at hdone

theorem UnderWay.later {chunks : ℕ} (h : UnderWay size hashes base r chunks latest) (later : ℤ) :
    UnderWay size hashes base r chunks (max latest later) :=
  ⟨h.packets, h.waiting, h.paced, h.last.trans (le_max_left _ _)⟩

/-- Sweeps send the list on, chunk by chunk, one at least for every sweep that is spaced. -/
theorem underWay_sweeps {chunks : ℕ} {sweeps : List PacingLabel} (h : UnderWay size hashes base r chunks latest)
    (hsweeps : ∀ l ∈ sweeps, l.isSweep = true ∧ l.ok = true) (hrun : run (pacingStep size) r sweeps = some r') :
    ∃ chunks' latest', UnderWay size hashes base r' chunks' latest' ∧ chunks ≤ chunks' ∧
      (hashes.length ≤ size * chunks' ∨ chunks + spacedSweeps latest sweeps ≤ chunks') := by
  induction sweeps generalizing r chunks latest with
  | nil =>
    cases hrun
    exact ⟨chunks, latest, h, Nat.le_refl _, .inr (Nat.le_refl _)⟩
  | cons l sweeps ih =>
    obtain ⟨hl, hrest⟩ := List.forall_mem_cons.mp hsweeps
    obtain ⟨u, hu, hr'⟩ := run_cons hrun
    cases l with
    | begin hashes' now result => cases hl.1
    | sweep now queuedBytes result =>
      -- `more` is what the sweep counts for.
      have hcount : ∃ more latest₁, spacedSweeps latest (.sweep now queuedBytes result :: sweeps) =
          more + spacedSweeps latest₁ sweeps ∧ ∃ chunks₁, UnderWay size hashes base u chunks₁ latest₁ ∧
            chunks ≤ chunks₁ ∧ (hashes.length ≤ size * chunks₁ ∨ chunks + more ≤ chunks₁) := by
        rcases Nat.eq_zero_or_pos queuedBytes with rfl | hpos
        · refine ⟨_, _, rfl, ?_⟩
          rcases underWay_sweep h hl.2 hu with ⟨hu', hdone⟩ | ⟨-, hu'⟩
          · refine ⟨chunks, hu'.later now, Nat.le_refl _, ?_⟩
            split_ifs with hspaced
            · exact .inl (hdone rfl hspaced)
            · exact .inr (Nat.le_refl _)
          · refine ⟨chunks + 1, hu', Nat.le_succ _, .inr ?_⟩
            split_ifs <;> omega
        · obtain ⟨n, rfl⟩ := Nat.exists_eq_succ_of_ne_zero hpos.ne'
          refine ⟨0, latest, (Nat.zero_add _).symm, chunks, ?_, Nat.le_refl _, .inr (Nat.le_refl _)⟩
          rcases underWay_sweep h hl.2 hu with ⟨hu', -⟩ | ⟨hqueue, -⟩
          · exact hu'
          · cases hqueue
      obtain ⟨more, latest₁, hspaced, chunks₁, hu', hle, hdone⟩ := hcount
      obtain ⟨chunks', latest', hr'', hle', hdone'⟩ := ih hu' hrest hr'
      refine ⟨chunks', latest', hr'', hle.trans hle', ?_⟩
      rw [hspaced]
      rcases hdone' with hdone' | hcounted
      · exact .inl hdone'
      · rcases hdone with hdone | hmore
        · exact .inl (hdone.trans (Nat.mul_le_mul_left size hle'))
        · exact .inr (by omega)

end

/-! ### A list while another one is under way -/

/-- Every hash handed over has been announced or is still to come. -/
def NoHashLost (r : PacingRun) : Prop := ∀ h ∈ r.handed, h ∈ r.packets.flatten ∨ h ∈ r.pending.waiting

/-- A new list has the hashes of the old one that are still to come, but for those announced before. -/
def TakesOver (r : PacingRun) : PacingLabel → Prop
  | .begin hashes _ _ => ∀ h ∈ r.pending.waiting, h ∈ r.packets.flatten ∨ h ∈ hashes
  | .sweep _ _ _ => True

/-- What holds of every run whose packets are sent. -/
structure Pacing (r : PacingRun) : Prop where
  paced : r.pending.Paced
  handed : ∀ h ∈ r.pending.waiting, h ∈ r.handed

section

variable {size : ℕ} {r r' : PacingRun}

theorem mem_take_or_drop {h : Bytes} (hashes : List Bytes) (n : ℕ) :
    h ∈ hashes.take n ∨ h ∈ hashes.drop n ↔ h ∈ hashes := by
  rw [← List.mem_append, List.take_append_drop]

/-- A sweep announces from the front of what is to come. -/
theorem mem_sweep (h : Pacing r) {now : ℤ} {queuedBytes : ℕ} {result : InvResult} (hok : result.ok = true)
    (hr' : pacingStep size r (.sweep now queuedBytes result) = some r') :
    r'.pending.Paced ∧ r'.handed = r.handed ∧ (∀ k ∈ r'.pending.waiting, k ∈ r.pending.waiting) ∧
      ∀ k, k ∈ r'.packets.flatten ∨ k ∈ r'.pending.waiting ↔ k ∈ r.packets.flatten ∨ k ∈ r.pending.waiting := by
  have hunder : UnderWay size r.pending.waiting r.packets.flatten r 0 r.pending.lastChunkTime :=
    ⟨by simp, by simp, h.paced, le_rfl⟩
  have hhanded : r'.handed = r.handed := by
    cases hr'
    rfl
  rcases underWay_sweep hunder hok hr' with ⟨hr'', -⟩ | ⟨-, hr''⟩
  · refine ⟨hr''.paced, hhanded, ?_, fun k => ?_⟩
    · rw [hr''.waiting]
      simp
    · rw [hr''.packets, hr''.waiting]
      simp
  · refine ⟨hr''.paced, hhanded, ?_, fun k => ?_⟩
    · rw [hr''.waiting]
      exact fun k hk => List.mem_of_mem_drop hk
    · rw [hr''.packets, hr''.waiting, List.mem_append, or_assoc, mem_take_or_drop]

theorem pacing_step {l : PacingLabel} (h : Pacing r) (hok : l.ok = true) (hr' : pacingStep size r l = some r') :
    Pacing r' := by
  cases l with
  | begin hashes now result =>
    obtain ⟨hunder, hhanded⟩ := underWay_begin hok hr'
    refine ⟨hunder.paced, ?_⟩
    rw [hunder.waiting, hhanded]
    exact fun k hk => List.mem_append_right _ (List.mem_of_mem_drop hk)
  | sweep now queuedBytes result =>
    obtain ⟨hpaced, hhanded, hwaiting, -⟩ := mem_sweep h hok hr'
    refine ⟨hpaced, fun k hk => ?_⟩
    rw [hhanded]
    exact h.handed k (hwaiting k hk)

theorem pacing_init : Pacing pacingInit where
  paced := by simp [PendingInv.Paced, pacingInit, PendingInv.new]
  handed := by simp [pacingInit, PendingInv.new, PendingInv.waiting]

theorem noHashLost_init : NoHashLost pacingInit := by simp [NoHashLost, pacingInit]

/-- A step loses nothing exactly when a new list takes the old one over. -/
theorem takesOver_iff {l : PacingLabel} (h : Pacing r) (hr : NoHashLost r) (hok : l.ok = true) :
    TakesOver r l ↔ ∀ r', pacingStep size r l = some r' → NoHashLost r' := by
  cases l with
  | begin hashes now result =>
    obtain ⟨r', hr'⟩ : ∃ r', pacingStep size r (.begin hashes now result) = some r' := ⟨_, rfl⟩
    obtain ⟨hunder, hhanded⟩ := underWay_begin hok hr'
    have hafter (k : Bytes) : k ∈ r'.packets.flatten ∨ k ∈ r'.pending.waiting ↔ k ∈ r.packets.flatten ∨ k ∈ hashes := by
      rw [hunder.packets, hunder.waiting, List.mem_append, or_assoc, mem_take_or_drop]
    have honly : (∀ r₁, pacingStep size r (.begin hashes now result) = some r₁ → NoHashLost r₁) ↔ NoHashLost r' := by
      constructor
      · exact fun hall => hall r' hr'
      · intro hlost r₁ hr₁
        obtain rfl := Option.some.inj (hr'.symm.trans hr₁)
        exact hlost
    rw [honly]
    constructor
    · intro htakes k hk
      rw [hafter]
      rw [hhanded, List.mem_append] at hk
      rcases hk with hold | hnew
      · rcases hr k hold with hsent | hwaits
        · exact .inl hsent
        · exact htakes k hwaits
      · exact .inr hnew
    · intro hlost k hk
      rw [← hafter]
      refine hlost k ?_
      rw [hhanded]
      exact List.mem_append_left _ (h.handed k hk)
  | sweep now queuedBytes result =>
    refine iff_of_true trivial fun r' hr' k hk => ?_
    obtain ⟨-, hhanded, -, hmem⟩ := mem_sweep h hok hr'
    rw [hhanded] at hk
    exact (hmem k).mpr (hr k hk)

end

/-- In every run whose packets are sent, the hashes handed over are announced or still to come at every
moment exactly when each new list takes over what is to come of the one before. And a list that is not
replaced is announced in order, no hash twice, and all of it after so many spaced sweeps. -/
theorem big_inv_delivers_iff {size : ℕ} {ls : List PacingLabel} (hok : ∀ l ∈ ls, l.ok = true) :
    (Always (pacingStep size) NoHashLost pacingInit ls ↔ Along (pacingStep size) TakesOver pacingInit ls) ∧
    ∀ r, run (pacingStep size) pacingInit ls = some r → ∀ hashes now result sweeps r', result.ok = true →
      (∀ l ∈ sweeps, l.isSweep = true ∧ l.ok = true) →
      run (pacingStep size) r (.begin hashes now result :: sweeps) = some r' →
        ∃ sent, r'.packets.flatten = r.packets.flatten ++ sent ∧ sent <+: hashes ∧ (hashes.Nodup → sent.Nodup) ∧
          (hashes.length ≤ size * (1 + spacedSweeps now sweeps) → sent = hashes) := by
  constructor
  · have hsteps : Along (pacingStep size) (fun _ l => l.ok = true) pacingInit ls := along_of_mem pacingInit hok
    exact always_iff_along_of (fun r l r' hr hl hr' => pacing_step hr hl hr')
      (fun r l hr hlost hl => takesOver_iff hr hlost hl) pacing_init noHashLost_init hsteps
  · intro r hr hashes now result sweeps r' hresult hsweeps hrun
    obtain ⟨u, hu, hr'⟩ := run_cons hrun
    obtain ⟨hunder, -⟩ := underWay_begin hresult hu
    obtain ⟨chunks, latest, hunder', -, hdone⟩ := underWay_sweeps hunder hsweeps hr'
    refine ⟨_, hunder'.packets, List.take_prefix _ _, fun hnodup => hnodup.sublist (List.take_sublist _ _),
      fun henough => ?_⟩
    refine List.take_of_length_le ?_
    rcases hdone with hdone | hcounted
    · exact hdone
    · exact henough.trans (Nat.mul_le_mul_left size hcounted)

def poolHash (i : ℕ) : Bytes := UInt8.ofNat (i / 256) :: UInt8.ofNat i :: List.replicate 30 0

def poolList (n : ℕ) : List Bytes := (List.range n).map poolHash

theorem poolList_subset {m n : ℕ} (h : m ≤ n) : poolList m ⊆ poolList n := by
  intro k hk
  obtain ⟨i, hi, rfl⟩ := List.mem_map.mp hk
  exact List.mem_map_of_mem (List.mem_range.mpr (lt_of_lt_of_le (List.mem_range.mp hi) h))

/-- A list of 1001 hashes is under way when one of 2001 takes it over, and two sweeps follow: nothing is
lost, and the whole second list is announced. -/
theorem longer_list_delivered :
    Always (pacingStep bigInvChunkSize) NoHashLost pacingInit
      [.begin (poolList 1001) 100 (some .flushed), .begin (poolList 2001) 105 (some .flushed),
        .sweep 106 0 (some .flushed), .sweep 107 0 (some .flushed)] ∧
      ∃ r r', run (pacingStep bigInvChunkSize) pacingInit [.begin (poolList 1001) 100 (some .flushed)] = some r ∧
        run (pacingStep bigInvChunkSize) r [.begin (poolList 2001) 105 (some .flushed), .sweep 106 0 (some .flushed),
          .sweep 107 0 (some .flushed)] = some r' ∧
        r'.packets.flatten = r.packets.flatten ++ poolList 2001 := by
  obtain ⟨r, hr⟩ : ∃ r, pacingStep bigInvChunkSize pacingInit (.begin (poolList 1001) 100 (some .flushed)) = some r :=
    ⟨_, rfl⟩
  have hwaiting : r.pending.waiting ⊆ poolList 1001 := by
    rw [(underWay_begin rfl hr).1.waiting]
    exact List.drop_subset _ _
  constructor
  · refine (big_inv_delivers_iff ?_).1.mpr ⟨?_, fun u hu => ?_⟩
    · simp [PacingLabel.ok, InvResult.ok, SendResult.ok]
    · simp [TakesOver, pacingInit, PendingInv.new, PendingInv.waiting]
    · cases hr.symm.trans hu
      exact ⟨fun k hk => .inr (poolList_subset (by decide) (hwaiting hk)), fun _ _ => ⟨trivial, fun _ _ => ⟨trivial,
        fun _ _ => trivial⟩⟩⟩
  · obtain ⟨r', hr'⟩ : ∃ r', run (pacingStep bigInvChunkSize) r [.begin (poolList 2001) 105 (some .flushed),
        .sweep 106 0 (some .flushed), .sweep 107 0 (some .flushed)] = some r' := ⟨_, rfl⟩
    have hok : ∀ l ∈ [PacingLabel.begin (poolList 1001) 100 (some .flushed)], l.ok = true := by
      simp [PacingLabel.ok, InvResult.ok, SendResult.ok]
    obtain ⟨sent, hpackets, -, -, hall⟩ := (big_inv_delivers_iff hok).2 r (by rw [run_cons_of hr, run_nil])
      (poolList 2001) 105 (some .flushed) [.sweep 106 0 (some .flushed), .sweep 107 0 (some .flushed)] r' rfl
      (by decide) hr'
    refine ⟨r, r', by rw [run_cons_of hr, run_nil], hr', ?_⟩
    rw [hpackets, hall]
    rw [poolList, List.length_map, List.length_range]
    decide

/-- A list of 1001 hashes is under way when a shorter one is handed over: the last hash has been handed
over, it has not been announced, and nothing is still to come. -/
theorem last_hash_lost : (run (pacingStep bigInvChunkSize) pacingInit
    [.begin ((List.range 1001).map poolHash) 100 (some .flushed), .begin [poolHash 0] 105 (some .flushed),
      .sweep 106 0 (some .flushed)]).map (fun r =>
        (decide (poolHash 1000 ∈ r.handed), decide (poolHash 1000 ∈ r.packets.flatten), r.pending.waiting)) =
      some (true, false, []) := by
  decide +kernel

end Bitmessage
