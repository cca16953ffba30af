import Bitmessage.Infra.SendRefinement

/-! Acknowledgements. A message that has been acknowledged is never submitted again, and
stays acknowledged until a send of it that was already under way completes: that send
writes its row over the status. The row holds the acknowledgement of the last
completed send only, and the arrival of that one is recognised. -/

namespace Bitmessage.SendSys

open Transition

variable {H : Hashes} {s t : SendSys}

/-- The message has been acknowledged. -/
def Acked (s : SendSys) (m : Bytes) : Prop := s.outbox.Acked m

/-- The step does not complete a send of an acknowledged message. -/
def CompletesUnacked (m : Bytes) (s : SendSys) (l : SendLabel) : Prop :=
  ∀ job, s.completing l = some job → job.msgId = m → ¬ s.Acked m

/-- The step does not mark the message while a send of it is under way. -/
def MarksQuiet (m : Bytes) (s : SendSys) (l : SendLabel) : Prop :=
  l = .markAck → ∀ row, s.sent.find? m = some row → s.net = .marking row.ackData →
    ∀ job ∈ s.outbox.pending, job.msgId ≠ m

/-- The step does not submit a resend of an acknowledged message. -/
def ResendsUnacked (s : SendSys) (l : SendLabel) : Prop :=
  ∀ c job, s.resending l = some (c, job) → ¬ s.Acked job.msgId

/-- One step keeps an acknowledged message acknowledged exactly when it completes no send of it. -/
theorem Sound.step_acked_iff (hs : Sound H s) (m : Bytes) (l : SendLabel) :
    (s.Acked m → ∀ t, s.step H l = some t → t.Acked m) ↔ CompletesUnacked m s l := by
  constructor
  · rintro hkeep job hjob rfl hacked
    obtain ⟨t, ht⟩ := exists_step_of_completing (H := H) hjob
    have hstep := (hs.inv.step ht).2
    rw [effect_of_completing hjob] at hstep
    exact hstep.not_acked_of_completes (hkeep hacked t ht)
  · intro hC hacked t ht
    refine (hs.inv.step ht).2.acked ?_ hacked
    exact fun job he hm => hC job (completing_of_effect he) hm hacked

/-- What the resend check submits was listed as not acknowledged, and nothing is acknowledged
while the network thread is busy with the check. -/
theorem Sound.resendsUnacked (hs : Sound H s) (l : SendLabel) : ResendsUnacked s l := by
  intro c job h hacked
  unfold resending at h
  split at h
  · split at h
    · next now c' cs hnet =>
      obtain ⟨⟨job', pow⟩, hacc, ⟨⟩⟩ := Option.map_eq_some_iff.mp h
      obtain ⟨hreq, -⟩ := hs.inv.accepted hacc (c.now_le now)
      have hmsg : job'.msgId = c.msgId := congrArg SendRequest.msgId hreq
      obtain ⟨row, hl⟩ := hs.outbox.listed now _ hnet c List.mem_cons_self
      obtain ⟨row', hrow', hstatus⟩ := hacked
      rw [hmsg] at hrow'
      have := hl.find_eq.symm.trans hrow'
      cases this
      exact hl.status_ne hstatus
    · cases h
  · cases h

/-- Only marking ends marking. -/
theorem Inv.eq_markAck (inv : Inv H s) {l : SendLabel} {ackData : Bytes} (h : s.step H l = some t)
    (hnet : s.net = .marking ackData)
    (hidle : t.net = .idle) : l = .markAck := by
  have hkeep : t.net = s.net → l = .markAck := by
    intro he
    rw [he, hnet] at hidle
    cases hidle
  cases l with
  | markAck => rfl
  | sendNew thread request recipient built =>
    simp only [SendSys.step] at h
    split at h
    · cases h
      unfold send at hkeep
      split at hkeep <;> exact hkeep rfl
    · cases h
  | trash | rename =>
    cases h
    exact hkeep rfl
  | ackPowDone payload =>
    simp only [SendSys.step] at h
    split at h
    · obtain ⟨p, -, rfl⟩ := Option.map_eq_some_iff.mp h
      exact hkeep rfl
    · cases h
      exact hkeep rfl
    · cases h
  | msgPowDone stored now =>
    simp only [SendSys.step] at h
    split at h
    · split at h <;> cases h <;> exact hkeep rfl
    · cases h
  | sendDone | otherDone =>
    simp only [SendSys.step] at h
    split at h <;> cases h <;> exact hkeep rfl
  | pow l => exact hkeep (congrArg Outbox.net (inv.frame_powStep h).outbox_eq)
  | _ => simp [SendSys.step, hnet] at h

/-- When the acknowledgement is marked while no send of the message is under way, none completes
after it. -/
theorem Sound.completesUnacked_of_quiet {m : Bytes} {ls : List SendLabel} (hs : Sound H s)
    (hq : s.Acked m → ∀ job ∈ s.outbox.pending, job.msgId ≠ m) (hC : Along (step H) (MarksQuiet m) s ls) :
    Along (step H) (CompletesUnacked m) s ls := by
  induction ls generalizing s with
  | nil => trivial
  | cons l ls ih =>
    refine ⟨?_, fun t ht => ih (step_sound s l t hs ht) ?_ (hC.2 t ht)⟩
    · rintro job hjob rfl hacked
      obtain ⟨t, ht⟩ := exists_step_of_completing (H := H) hjob
      have hstep := (hs.inv.step ht).2
      rw [effect_of_completing hjob] at hstep
      exact hq hacked job hstep.mem_pending rfl
    · refine (hs.inv.step ht).2.quiet hs.outbox (fun row hrow hnet hidle => ?_) hq
      exact hC.1 (hs.inv.eq_markAck ht hnet hidle) row hrow hnet

/-- In every run: once a message is acknowledged it stays so exactly when no send of it completes
after that; no resend check submits an acknowledged message; and no send of it completes after
that when the acknowledgement is marked while none is under way. -/
theorem ackreceived_persistent_iff (H : Hashes) (maxPending : ℕ) (hm : maxPending < wordSize) (ls : List SendLabel)
    (m : Bytes) :
    (Persistent (step H) (fun s => s.Acked m) (init maxPending hm) ls ↔
      Along (step H) (CompletesUnacked m) (init maxPending hm) ls) ∧
    Along (step H) ResendsUnacked (init maxPending hm) ls ∧
    (Along (step H) (MarksQuiet m) (init maxPending hm) ls →
      Along (step H) (CompletesUnacked m) (init maxPending hm) ls) := by
  have hinit : Sound H (init maxPending hm) := init_sound maxPending hm
  refine ⟨?_, ?_, hinit.completesUnacked_of_quiet ?_⟩
  · rw [persistent_iff_along]
    exact along_congr (fun s l t hs _ => step_sound s l t hs) (fun s l hs => hs.step_acked_iff m l) hinit ls
  · refine (along_congr (fun s l t hs _ => step_sound s l t hs) (fun s l hs => ?_) hinit ls).mp
      (along_of_forall (fun _ _ => trivial) _ ls)
    exact iff_of_true trivial (hs.resendsUnacked l)
  · rintro ⟨row, hrow, -⟩
    cases hrow

/-! ### Two sends and one acknowledgement -/

/-- The identifier of the message. -/
def exampleId : Bytes := List.replicate 32 7

/-- The message, sent at time zero to live for two days. -/
def exampleRequest : SendRequest := ⟨[1], [2], [], [], 172800, 1, exampleId, 0, 0⟩

/-- Somebody else. -/
def stranger : Recipient := ⟨false, 1, 1000, 1000, one_lt_wordSize⟩

/-- Both stages of a send. -/
def mineBoth (now : ℤ) : List SendLabel :=
  [.pow .take, .pow (.mined 0), .ackPowDone (some [1]), .pow .finish, .pow .take, .pow (.mined 0),
    .msgPowDone true now, .sendDone, .pow .finish]

def firstSend : List SendLabel := .sendNew 0 exampleRequest (some stranger) (some (List.replicate 32 1)) :: mineBoth 5

/-- A resend check that submits the message again. -/
def resendCheck : List SendLabel :=
  [.listCandidates 14400, .submitCandidate (some stranger) (some (List.replicate 32 2)), .checkReturn]

/-- The acknowledgement in the first transmission. -/
def firstAck : Buf :=
  Buf.ofBytes (buildObject (buildAckPayload ((newRequest exampleRequest).job stranger none) (List.replicate 32 1)) 0)
    (by decide)

def start : SendSys := init 256 (by decide)

/-- The columns of the message that the runs below look at. -/
def statusAfter (ls : List SendLabel) : Option SentStatus :=
  (run (step prefixHashes) start ls).bind fun s => (s.sent.find? exampleId).map SentRow.status

theorem statusAfter_eq_some (ls : List SendLabel) (status : SentStatus) (h : statusAfter ls = some status) :
    ∃ s row, run (step prefixHashes) start ls = some s ∧ s.sent.find? exampleId = some row ∧ row.status = status := by
  simp only [statusAfter, Option.bind_eq_some_iff, Option.map_eq_some_iff] at h
  obtain ⟨s, hs, row, hrow, hstatus⟩ := h
  exact ⟨s, row, hs, hrow, hstatus⟩

/-- The first acknowledgement arrives while the resend is under way. -/
def ackDuringResend : List SendLabel := firstSend ++ (resendCheck ++ [.arrive firstAck 14401, .markAck])

/-- The resend then completes. -/
theorem not_persistent_ackDuringResend :
    ¬ Persistent (step prefixHashes) (fun s => s.Acked exampleId) start (ackDuringResend ++ (mineBoth 14402 ++ [])) := by
  intro h
  obtain ⟨u, row, hu, hrow, hstatus⟩ := statusAfter_eq_some ackDuringResend .ackreceived
    (by decide)
  obtain ⟨v, row', hv, hrow', hstatus'⟩ := statusAfter_eq_some (ackDuringResend ++ mineBoth 14402) .sent
    (by decide)
  obtain ⟨u', hu', hv'⟩ := run_append_some hv
  cases hu.symm.trans hu'
  obtain ⟨row'', hrow'', hstatus''⟩ := h _ _ _ u v rfl hu hv' ⟨row, hrow, hstatus⟩
  cases hrow'.symm.trans hrow''
  rw [hstatus'] at hstatus''
  cases hstatus''

theorem ackreceived_overwritten :
    ¬ Persistent (step prefixHashes) (fun s => s.Acked exampleId) (init 256 (by decide))
      (ackDuringResend ++ mineBoth 14402) := by
  have h := not_persistent_ackDuringResend
  rwa [List.append_nil] at h

theorem ackreceived_overwritten_completes :
    ¬ Along (step prefixHashes) (CompletesUnacked exampleId) start (ackDuringResend ++ (mineBoth 14402 ++ [])) := by
  intro h
  refine not_persistent_ackDuringResend ?_
  exact ((ackreceived_persistent_iff prefixHashes 256 (by decide) _ exampleId).1).mpr h

/-! ### The acknowledgement of the last send -/

/-- The acknowledgement of the job has not expired for longer than the grace period, and the clock
has not gone back behind the submission. -/
structure AckWindow (job : SendMsgJob) (now : ℤ) : Prop where
  now_nonneg : 0 ≤ job.now
  expires_lt : job.now + job.ttlSeconds < 2 ^ 63
  le_now : job.now ≤ now
  now_le : now ≤ job.now + job.ttlSeconds + objectExpireGracePeriod

/-- The step completes no send of the message. -/
def CompletesNone (m : Bytes) (s : SendSys) (l : SendLabel) : Prop := ∀ job, s.completing l = some job → job.msgId ≠ m

theorem completesNone_of {m : Bytes} {l : SendLabel} (h : s.completing l = none) : CompletesNone m s l := by
  intro job hjob
  rw [h] at hjob
  cases hjob

/-- The message has been acknowledged, or the network thread is about to mark it. -/
def AckSeen (m ack : Bytes) (s : SendSys) : Prop :=
  s.Acked m ∨ (s.net = .marking ack ∧ ∃ row, s.sent.find? m = some row ∧ row.ackData = ack)

theorem Inv.step_ackSeen (inv : Inv H s) {m ack : Bytes} {l : SendLabel} (hseen : AckSeen m ack s)
    (hC : CompletesNone m s l) (h : s.step H l = some t) : AckSeen m ack t := by
  have hstep := (inv.step h).2
  have hne : ∀ job, s.effect l = .completes job → job.msgId ≠ m := fun job he => hC job (completing_of_effect he)
  rcases hseen with hacked | ⟨hnet, row, hrow, rfl⟩
  · exact .inl (hstep.acked hne hacked)
  · rcases hstep.marking hnet with hnet' | hsent
    · obtain ⟨f, hf, he⟩ := hstep.find?_eq hne
      exact .inr ⟨hnet', f row, he.trans (congrArg (Option.map f) hrow), (hf row).ackData_eq⟩
    · refine .inl ⟨{ row with status := .ackreceived }, ?_, rfl⟩
      have hrow' : s.outbox.sent.find? m = some row := hrow
      rw [hsent, messagesStoreUpdateAck, KeyedTable.find?_update, hrow', Option.map_some, if_pos rfl]

/-- The last completed send to somebody else has left a mined acknowledgement in the row. -/
theorem Sound.lastCompletion (hs : Sound H s) {m : Bytes} {job : SendMsgJob}
    (hlast : s.outbox.lastCompletion m = some job) (hself : job.isSelf = false) :
    ∃ ack row, job.ackData = some ack ∧ MinedAck H job ack ∧ s.sent.find? m = some row ∧ row.ackData = ack := by
  have hmem : job ∈ s.completions := List.mem_of_mem_filter (List.mem_of_getLast? hlast)
  obtain ⟨ack, hack, hmined⟩ := hs.outbox.completed_ack job hmem hself
  obtain ⟨row, hrow, he⟩ := hs.outbox.completed m job hlast
  exact ⟨ack, row, hack, hmined, hrow, by rw [he, hack, Option.getD_some]⟩

/-- The arrival of an acknowledgement that a row waits for is seen, unless its hash collides with
that of another row's. -/
theorem ackSeen_arrive {m : Bytes} {row : SentRow} {object : Buf} {now : ℤ} (hnet : s.net = .idle)
    (hrow : s.sent.find? m = some row) (hobject : object.bytes = row.ackData) (hne : row.ackData ≠ [])
    (haccept : (objectAccept H object now).isSome = true)
    (hcollision : ∀ r ∈ s.sent.rows, inventoryHash H r.ackData = inventoryHash H row.ackData → r.ackData = row.ackData) :
    ∃ t, s.step H (.arrive object now) = some t ∧ (t.net = .idle ∨ t.net = .marking row.ackData) ∧
      AckSeen m row.ackData t := by
  obtain ⟨hdr, hhdr⟩ := Option.isSome_iff_exists.mp haccept
  refine ⟨{ s with net := matchAck H s.sent object now }, by simp only [step, hnet], ?_⟩
  rw [matchAck, hhdr, hobject]
  rcases hsel : messagesStoreSelectAck H s.sent (inventoryHash H row.ackData) with _ | ackData
  · have hstatus := selectAck_eq_none hsel (KeyedTable.find?_eq_some.mp hrow).1 hne rfl
    exact ⟨.inl rfl, .inl ⟨row, hrow, hstatus⟩⟩
  · obtain ⟨r, hr, rfl, hhash⟩ := selectAck_eq_some hsel
    rw [hcollision r hr hhash]
    exact ⟨.inr rfl, .inr ⟨rfl, row, hrow, rfl⟩⟩

/-- The row keeps the acknowledgement of the last completed send of a message to somebody else, and this
acknowledgement is recognised: it can arrive whenever the network thread is free, and once its arrival is
handled, with no other send of the message completing meanwhile, the message is acknowledged. -/
theorem lastAck_acknowledges {maxPending : ℕ} {hm : maxPending < wordSize} {ls : List SendLabel}
    (hrun : run (step H) (init maxPending hm) ls = some s) {m : Bytes} {job : SendMsgJob}
    (hlast : s.outbox.lastCompletion m = some job) (hself : job.isSelf = false) {object : Buf} {now : ℤ}
    (hobject : job.ackData = some object.bytes) (hwindow : AckWindow job now)
    (hcollision : ∀ r ∈ s.sent.rows, inventoryHash H r.ackData = inventoryHash H object.bytes →
      r.ackData = object.bytes) :
    (∃ row, s.sent.find? m = some row ∧ row.ackData = object.bytes) ∧
    (s.net = .idle → ∃ ks t, ks ⊆ [.markAck] ∧ run (step H) s (.arrive object now :: ks) = some t ∧ t.net = .idle) ∧
    ∀ ks t, run (step H) s (.arrive object now :: ks) = some t →
      Along (step H) (CompletesNone m) s (.arrive object now :: ks) →
      (∀ ackData, t.net ≠ .marking ackData) → t.Acked m := by
  have hs := run_sound hrun
  obtain ⟨ack, row, hack, hmined, hrow, rfl⟩ := hs.lastCompletion hlast hself
  have he : object.bytes = row.ackData := by
    rw [hack] at hobject
    exact (Option.some.inj hobject).symm
  rw [he] at hcollision
  have haccept := hmined.accepted hwindow.now_nonneg hwindow.expires_lt he hwindow.le_now hwindow.now_le
  refine ⟨⟨row, hrow, he.symm⟩, ?_, ?_⟩
  · intro hnet
    obtain ⟨u, hu, hidle | hmarking, -⟩ := ackSeen_arrive hnet hrow he hmined.ne_nil haccept hcollision
    · exact ⟨[], u, List.nil_subset _, by rw [run_cons_of hu, run_nil], hidle⟩
    · refine ⟨[.markAck], { u with net := .idle, sent := messagesStoreUpdateAck u.sent row.ackData },
        List.Subset.refl _, ?_, rfl⟩
      rw [run_cons_of hu]
      simp only [run, step, hmarking, Option.bind_some]
  · intro ks t hr hC hhandled
    obtain ⟨u, hu, hr⟩ := run_cons hr
    have hnet : s.net = .idle := by
      simp only [step] at hu
      split at hu
      · assumption
      · cases hu
    obtain ⟨u', hu', -, hseen⟩ := ackSeen_arrive hnet hrow he hmined.ne_nil haccept hcollision
    cases hu.symm.trans hu'
    have hfinal : Inv H t ∧ AckSeen m row.ackData t := by
      refine run_invariant_along (I := fun v => Inv H v ∧ AckSeen m row.ackData v) (fun v l w hv hC hw => ?_)
        ⟨(hs.inv.step hu).1, hseen⟩ (hC.2 u hu) hr
      exact ⟨(hv.1.step hw).1, hv.1.step_ackSeen hv.2 hC hw⟩
    exact hfinal.2.resolve_right fun h => hhandled _ h.1

/-- The resend completes before the first acknowledgement arrives, and the arrival goes unnoticed. -/
theorem firstAck_unrecognised :
    ∃ s t, run (step prefixHashes) (init 256 (by decide)) (firstSend ++ (resendCheck ++ mineBoth 14402)) = some s ∧
      (∃ tr ∈ s.transmissions, tr.job.msgId = exampleId ∧ tr.job.isSelf = false ∧
        tr.job.ackData = some firstAck.bytes) ∧
      s.step prefixHashes (.arrive firstAck 14403) = some t ∧ (∀ ackData, t.net ≠ .marking ackData) ∧
      ¬ t.Acked exampleId := by
  have hcomputed : ((run (step prefixHashes) (init 256 (by decide)) (firstSend ++ (resendCheck ++ mineBoth 14402))).bind
      fun s => (s.step prefixHashes (.arrive firstAck 14403)).map fun t =>
        (s.transmissions.any fun tr => decide (tr.job.msgId = exampleId) && !tr.job.isSelf &&
          decide (tr.job.ackData = some firstAck.bytes), t.net.isIdle,
          (t.sent.find? exampleId).map SentRow.status)) = some (true, true, some .sent) := by
    decide
  obtain ⟨s, hs, hcomputed⟩ := Option.bind_eq_some_iff.mp hcomputed
  obtain ⟨t, ht, hcomputed⟩ := Option.map_eq_some_iff.mp hcomputed
  simp only [Prod.mk.injEq, List.any_eq_true, Bool.and_eq_true, Bool.not_eq_true', decide_eq_true_eq] at hcomputed
  obtain ⟨⟨tr, htr, ⟨hid, hself⟩, hack⟩, hidle, hstatus⟩ := hcomputed
  refine ⟨s, t, hs, ⟨tr, htr, hid, hself, hack⟩, ht, ?_, ?_⟩
  · intro ackData hnet
    rw [hnet] at hidle
    cases hidle
  · rintro ⟨row, hrow, hacked⟩
    rw [show t.sent.find? exampleId = some row from hrow, Option.map_some, hacked] at hstatus
    cases hstatus

/-- The acknowledgement in the resend. -/
def resentAck : Bytes :=
  buildObject (buildAckPayload (SendRequest.job { newRequest exampleRequest with now := 14400 } stranger none)
    (List.replicate 32 2)) 0

theorem length_resentAck : resentAck.length < 2 ^ 63 := by decide

/-- The message is sent, and sent again; both sends complete. -/
def sentTwice : List SendLabel := firstSend ++ (resendCheck ++ mineBoth 14402)

/-- The acknowledgement of the resend arrives after that of the first send was missed. -/
theorem lastAck_acknowledges_resent :
    ∃ s t row, run (step prefixHashes) start (sentTwice ++ [.arrive firstAck 14403]) = some s ∧
      s.sent.find? exampleId = some row ∧ row.ackData = resentAck ∧
      run (step prefixHashes) s [.arrive (Buf.ofBytes resentAck length_resentAck) 14404, .markAck] = some t ∧
      t.Acked exampleId := by
  have hcomputed : ((run (step prefixHashes) start (sentTwice ++ [.arrive firstAck 14403])).bind fun s =>
      (run (step prefixHashes) s [.arrive (Buf.ofBytes resentAck length_resentAck) 14404, .markAck]).map fun t =>
        ((s.outbox.lastCompletion exampleId).any fun job => !job.isSelf && decide (job.ackData = some resentAck) &&
          decide (job.now = 14400) && decide (job.ttlSeconds = 172800),
        s.sent.rows.all fun r => decide (r.ackData = resentAck), t.net.isIdle)) = some (true, true, true) := by
    decide +kernel
  obtain ⟨s, hs, hcomputed⟩ := Option.bind_eq_some_iff.mp hcomputed
  obtain ⟨t, ht, hcomputed⟩ := Option.map_eq_some_iff.mp hcomputed
  simp only [Prod.mk.injEq, Option.any_eq_true, List.all_eq_true, Bool.and_eq_true, Bool.not_eq_true',
    decide_eq_true_eq] at hcomputed
  obtain ⟨⟨job, hjob, ⟨⟨hself, hack⟩, hnow⟩, httl⟩, hrows, hidle⟩ := hcomputed
  have hbytes : (Buf.ofBytes resentAck length_resentAck).bytes = resentAck := Buf.bytes_ofBytes _ length_resentAck
  have hwindow : AckWindow job 14404 := by
    constructor <;> simp only [hnow, httl, objectExpireGracePeriod] <;> norm_num
  have hnone : Along (step prefixHashes) (CompletesNone exampleId) s
      [.arrive (Buf.ofBytes resentAck length_resentAck) 14404, .markAck] :=
    ⟨completesNone_of rfl, fun _ _ => ⟨completesNone_of rfl, fun _ _ => trivial⟩⟩
  obtain ⟨⟨row, hrow, hkept⟩, -, hacked⟩ := lastAck_acknowledges hs hjob hself (hack.trans (congrArg some hbytes.symm))
    hwindow fun r hr _ => (hrows r hr).trans hbytes.symm
  refine ⟨s, t, row, hs, hrow, hkept.trans hbytes, ht, hacked [.markAck] t ht hnone ?_⟩
  intro ackData hnet
  rw [hnet] at hidle
  cases hidle

end Bitmessage.SendSys
