import Bitmessage.Infra.AckReceipt

/-! How often a message is sent. The number of resends, the time of the next one and the
folder are looked at when the candidates are listed and not again when a candidate is
submitted, and the folder is not looked at even then. As long as every resend that the
queue accepts is one whose row has not been resent since it was listed and is not in
the trash, and no message is moved there while a send of it is under way, the counter
stays within its bound, no message is sent twice in one period, and what is in the
trash is not sent. -/

namespace Bitmessage

namespace Outbox

variable {H : Hashes} {o o' : Outbox} {e : SendEffect}

/-- Two transmissions of one message: when the later was submitted, the time until which the
earlier one put off the next had passed, and so had the one that its row noted. -/
def Spaced (t u : Transmission) : Prop :=
  t.job.msgId = u.job.msgId → t.job.nextResendTime ≤ u.job.now ∧
    ∃ row, u.job.row = some row ∧ row.nextResendTime ≤ u.job.now

/-- The message is in the trash. -/
def Trashed (o : Outbox) (m : Bytes) : Prop := ∃ row, o.sent.find? m = some row ∧ row.folder = .trash

structure Bounded (o : Outbox) : Prop where
  count_le : ∀ m row, o.sent.find? m = some row → row.resendCount ≤ resendMaxAttempts
  pending_row : ∀ x ∈ o.pending, ∀ r, x.row = some r → r.resendCount < resendMaxAttempts ∧
    ∃ row, o.sent.find? x.msgId = some row ∧ row.resendCount = r.resendCount ∧
      row.nextResendTime = r.nextResendTime
  live_due : ∀ x ∈ o.live, ∀ r, x.row = some r → r.nextResendTime ≤ x.now
  live_next : ∀ x ∈ o.live, x.now ≤ x.nextResendTime
  stored_row : ∀ x, o.stored = some x → ∃ row, o.sent.find? x.msgId = some row ∧
    row.nextResendTime = x.nextResendTime
  stored_after : ∀ x, o.stored = some x → ∀ t ∈ o.transmissions, t.job.msgId = x.msgId →
    t.job.nextResendTime ≤ x.now
  period : ∀ t ∈ o.transmissions, ∀ row, o.sent.find? t.job.msgId = some row →
    t.job.nextResendTime ≤ row.nextResendTime
  trashed : ∀ m, o.Trashed m → ∀ x ∈ o.live, x.msgId ≠ m
  spaced : o.transmissions.Pairwise Spaced

theorem Bounded.setNet (hb : o.Bounded) (net : NetPc) : Bounded { o with net := net } := { hb with }

theorem Bounded.submit (hb : o.Bounded) {job : SendMsgJob} (hjob : o.Submittable job)
    (hrow : ∀ r, job.row = some r → r.resendCount < resendMaxAttempts ∧ r.nextResendTime ≤ job.now ∧
      r.folder ≠ .trash) : Bounded (o.submit job) := by
  have hlive : ∀ {P : SendMsgJob → Prop}, (∀ x ∈ o.live, P x) → P job → ∀ x ∈ (o.submit job).live, P x := by
    intro P h hP x hx
    have hx : x ∈ o.live ++ [job] := by rwa [live, List.append_assoc]
    rcases List.mem_append.mp hx with hx | hx
    · exact h x hx
    · exact List.mem_singleton.mp hx ▸ hP
  exact { hb with
    pending_row := by
      intro x hx r hr
      rcases List.mem_append.mp hx with hx | hx
      · exact hb.pending_row x hx r hr
      · obtain rfl := List.mem_singleton.mp hx
        exact ⟨(hrow r hr).1, r, hjob.row_eq ▸ hr, rfl, rfl⟩
    live_due := hlive hb.live_due fun r hr => (hrow r hr).2.1
    live_next := hlive hb.live_next hjob.now_le
    trashed := by
      intro m hm
      refine hlive (hb.trashed m hm) ?_
      obtain ⟨row, hfind, hfolder⟩ := hm
      rintro rfl
      exact (hrow row (hjob.row_eq.trans hfind)).2.2 hfolder }

theorem Bounded.update (hb : o.Bounded) {f : SentRow → SentRow} {hf : ∀ r, (f r).msgId = r.msgId}
    (hsame : ∀ r, SameSend r (f r))
    (htrash : ∀ m row, o.sent.find? m = some row → (f row).folder = .trash → ∀ x ∈ o.live, x.msgId ≠ m) :
    Bounded { o with sent := o.sent.update f hf } := by
  have hfind : ∀ {m row}, o.sent.find? m = some row → (o.sent.update f hf).find? m = some (f row) := by
    intro m row h
    rw [KeyedTable.find?_update, h, Option.map_some]
  exact { hb with
    count_le := by
      intro m row' h
      obtain ⟨row, hrow, rfl⟩ := find?_edit hf h
      rw [(hsame row).resendCount_eq]
      exact hb.count_le m row hrow
    pending_row := by
      intro x hx r hr
      obtain ⟨hlt, row, hrow, hcount, hnext⟩ := hb.pending_row x hx r hr
      exact ⟨hlt, f row, hfind hrow, (hsame row).resendCount_eq.trans hcount,
        (hsame row).nextResendTime_eq.trans hnext⟩
    stored_row := by
      intro x hx
      obtain ⟨row, hrow, hnext⟩ := hb.stored_row x hx
      exact ⟨f row, hfind hrow, (hsame row).nextResendTime_eq.trans hnext⟩
    period := by
      intro t ht row' h
      obtain ⟨row, hrow, rfl⟩ := find?_edit hf h
      rw [(hsame row).nextResendTime_eq]
      exact hb.period t ht row hrow
    trashed := by
      rintro m ⟨row', h, hfolder⟩
      obtain ⟨row, hrow, rfl⟩ := find?_edit hf h
      exact htrash m row hrow hfolder }

theorem Bounded.setPending (hb : o.Bounded) {pending : List SendMsgJob}
    (hmem : ∀ x ∈ pending, ∃ y ∈ o.pending, y.toSendRequest = x.toSendRequest ∧ y.row = x.row) :
    Bounded { o with pending := pending } := by
  have hlive : ∀ x ∈ o.stored.toList ++ pending, ∃ y ∈ o.live, y.toSendRequest = x.toSendRequest ∧ y.row = x.row := by
    intro x hx
    rcases List.mem_append.mp hx with hx | hx
    · exact ⟨x, List.mem_append_left _ hx, rfl, rfl⟩
    · obtain ⟨y, hy, he⟩ := hmem x hx
      exact ⟨y, mem_live_of_pending hy, he⟩
  exact { hb with
    pending_row := by
      intro x hx r hr
      obtain ⟨y, hy, he, hrow⟩ := hmem x hx
      exact he ▸ hb.pending_row y hy r (hrow.trans hr)
    live_due := by
      intro x hx r hr
      obtain ⟨y, hy, he, hrow⟩ := hlive x hx
      exact he ▸ hb.live_due y hy r (hrow.trans hr)
    live_next := by
      intro x hx
      obtain ⟨y, hy, he, -⟩ := hlive x hx
      exact he ▸ hb.live_next y hy
    trashed := by
      intro m hm x hx
      obtain ⟨y, hy, he, -⟩ := hlive x hx
      exact he ▸ hb.trashed m hm y hy }

/-- The row of a send in progress is the one that was there at the submission, and the send was due. -/
theorem Bounded.row_due (hb : o.Bounded) (inv : Inv H o) {job : SendMsgJob} (hjob : job ∈ o.pending) {row : SentRow}
    (hrow : o.sent.find? job.msgId = some row) :
    row.resendCount < resendMaxAttempts ∧ row.nextResendTime ≤ job.now := by
  rcases hr : job.row with _ | r
  · rw [inv.first_row job hjob hr] at hrow
    cases hrow
  · obtain ⟨hlt, row', hrow', hcount, hnext⟩ := hb.pending_row job hjob r hr
    cases hrow.symm.trans hrow'
    exact ⟨hcount ▸ hlt, hnext ▸ hb.live_due job (mem_live_of_pending hjob) r hr⟩

/-- What has been transmitted of the message was due before the submission. -/
theorem Bounded.transmitted_due (hb : o.Bounded) (inv : Inv H o) {job : SendMsgJob} (hjob : job ∈ o.pending) :
    ∀ t ∈ o.transmissions, t.job.msgId = job.msgId → t.job.nextResendTime ≤ job.now := by
  intro t ht he
  rcases ho : o.sent.find? job.msgId with _ | row
  · rcases hr : job.row with _ | r
    · exact absurd he (inv.first_transmission job (mem_live_of_pending hjob) hr t ht)
    · obtain ⟨-, row', hrow', -⟩ := hb.pending_row job hjob r hr
      rw [ho] at hrow'
      cases hrow'
  · exact (hb.period t ht row (he ▸ ho)).trans (hb.row_due inv hjob ho).2

theorem Bounded.complete (hb : o.Bounded) (inv : Inv H o) {job : SendMsgJob} {rest : List SendMsgJob} {now : ℤ}
    (hp : o.pending = job :: rest) (hs : o.stored = none) :
    Bounded { o with
      pending := rest
      stored := some job
      sent := messagesStoreInsertSent o.sent (job.sentRow now)
      completions := o.completions ++ [job] } := by
  have hlive : [job] ++ rest = o.live := by rw [live, hs, hp]; rfl
  have hjob : job ∈ o.pending := hp ▸ List.mem_cons_self
  have hself : (messagesStoreInsertSent o.sent (job.sentRow now)).find? job.msgId =
      some ((o.sent.find? job.msgId).elim (job.sentRow now).fresh fun r => r.resent (job.sentRow now)) :=
    find?_insertSent_self _ _
  have hother : ∀ {m}, m ≠ job.msgId →
      (messagesStoreInsertSent o.sent (job.sentRow now)).find? m = o.sent.find? m :=
    fun h => find?_insertSent_of_ne _ h
  have hnext : ∃ row, (messagesStoreInsertSent o.sent (job.sentRow now)).find? job.msgId = some row ∧
      row.nextResendTime = job.nextResendTime := by
    refine ⟨_, hself, ?_⟩
    cases o.sent.find? job.msgId <;> rfl
  have hafter := hb.transmitted_due inv hjob
  exact { hb with
    count_le := by
      intro m row h
      by_cases hm : m = job.msgId
      · subst hm
        cases hself.symm.trans h
        rcases ho : o.sent.find? job.msgId with _ | r
        · exact Nat.zero_le _
        · exact (hb.row_due inv hjob ho).1
      · exact hb.count_le m row (hother hm ▸ h)
    pending_row := by
      intro x hx r hr
      rw [hother (inv.head_ne hp x hx)]
      exact hb.pending_row x (hp ▸ List.mem_cons_of_mem _ hx) r hr
    live_due := by
      rw [live, Option.toList_some, hlive]
      exact hb.live_due
    live_next := by
      rw [live, Option.toList_some, hlive]
      exact hb.live_next
    stored_row := by
      rintro x ⟨⟩
      exact hnext
    stored_after := by
      rintro x ⟨⟩
      exact hafter
    period := by
      intro t ht row h
      by_cases hm : t.job.msgId = job.msgId
      · obtain ⟨row', hrow', he⟩ := hnext
        rw [hm] at h
        cases h.symm.trans hrow'
        rw [he]
        exact (hafter t ht hm).trans (hb.live_next job (mem_live_of_pending hjob))
      · exact hb.period t ht row (hother hm ▸ h)
    trashed := by
      rintro m ⟨row, h, hfolder⟩ x hx
      rw [live, Option.toList_some, hlive] at hx
      by_cases hm : m = job.msgId
      · subst hm
        cases hself.symm.trans h
        rcases ho : o.sent.find? job.msgId with _ | r
        · rw [ho] at hfolder
          cases hfolder
        · rw [ho] at hfolder
          exact hb.trashed _ ⟨r, ho, hfolder⟩ x hx
      · exact hb.trashed m ⟨row, hother hm ▸ h, hfolder⟩ x hx }

theorem Bounded.transmit (hb : o.Bounded) (inv : Inv H o) {job : SendMsgJob} {object : Bytes}
    (hs : o.stored = some job) :
    Bounded { o with stored := none, transmissions := o.transmissions ++ [⟨job, object⟩] } := by
  have hjob : job ∈ o.live := mem_live_of_stored hs
  exact { hb with
    live_due := fun x hx => hb.live_due x (mem_live_of_pending hx)
    live_next := fun x hx => hb.live_next x (mem_live_of_pending hx)
    stored_row := by
      intro x hx
      cases hx
    stored_after := by
      intro x hx
      cases hx
    period := by
      intro t ht row h
      rcases List.mem_append.mp ht with ht | ht
      · exact hb.period t ht row h
      · obtain rfl := List.mem_singleton.mp ht
        obtain ⟨row', hrow', he⟩ := hb.stored_row job hs
        cases h.symm.trans hrow'
        exact he.ge
    trashed := fun m hm x hx => hb.trashed m hm x (mem_live_of_pending hx)
    spaced := by
      rw [List.pairwise_append]
      refine ⟨hb.spaced, List.pairwise_singleton _ _, ?_⟩
      intro t ht u hu he
      obtain rfl := List.mem_singleton.mp hu
      refine ⟨hb.stored_after job hs t ht he, ?_⟩
      rcases hr : job.row with _ | r
      · exact absurd he (inv.first_transmission job hjob hr t ht)
      · exact ⟨r, rfl, hb.live_due job hjob r hr⟩ }

/-- One step, if it submits no resend of a row that has been resent since it was listed or is in
the trash, and moves no message there that is being sent. -/
theorem Step.bounded (h : Step H o e o') (inv : Inv H o) (hb : o.Bounded)
    (hresend : ∀ c job, e = .resends c job → ∀ row, job.row = some row → row.resendCount = c.resendCount ∧
      row.folder ≠ .trash)
    (htrash : ∀ m, e = .trashes m → ∀ x ∈ o.live, x.msgId ≠ m) : o'.Bounded := by
  cases h with
  | stutter => exact hb
  | new job hid hjob =>
    refine hb.submit hjob fun r hr => ?_
    rw [hjob.row_eq] at hr
    exact absurd (inv.row_known _ r hr) hid
  | resend now c cs job hnet hreq hjob =>
    refine (hb.submit hjob fun r hr => ?_).setNet _
    obtain ⟨hcount, hfolder⟩ := hresend c job rfl r hr
    obtain ⟨row, hl⟩ := inv.listed now _ hnet c List.mem_cons_self
    have hmsg : job.msgId = c.msgId := congrArg SendRequest.msgId hreq
    have hnow : job.now = now := congrArg SendRequest.now hreq
    rw [hjob.row_eq, hmsg] at hr
    cases hl.find_eq.symm.trans hr
    obtain ⟨hdue, hlt⟩ := hl.due hcount
    exact ⟨hcount ▸ hlt, hnow ▸ hdue, hfolder⟩
  | skip | list | checked | arrive => exact hb.setNet _
  | mark ackData hnet =>
    refine (hb.setNet .idle).update (sameSend_acked ackData) fun m row hrow hfolder => ?_
    refine hb.trashed m ⟨row, hrow, ?_⟩
    split at hfolder <;> exact hfolder
  | edit _ f hf he hsame hstatus hfolder =>
    refine hb.update hsame fun m row hrow hf' => ?_
    rcases hfolder row with hkept | ⟨heff, -⟩
    · exact hb.trashed m ⟨row, hrow, hkept ▸ hf'⟩
    · have hm : row.msgId = m := (KeyedTable.find?_eq_some.mp hrow).2
      exact htrash m (hm ▸ heff)
  | handOver job rest ack hp =>
    refine hb.setPending fun x hx => ?_
    rw [hp]
    rcases List.mem_append.mp hx with hx | hx
    · exact ⟨x, List.mem_cons_of_mem _ hx, rfl, rfl⟩
    · obtain rfl := List.mem_singleton.mp hx
      exact ⟨job, List.mem_cons_self, rfl, rfl⟩
  | complete job rest now hp hs hack => exact hb.complete inv hp hs
  | transmit job object hs => exact hb.transmit inv hs
  | drop pending h => exact hb.setPending fun x hx => ⟨x, h.subset hx, rfl, rfl⟩

/-- The transmissions of one message. -/
def transmissionsOf (o : Outbox) (m : Bytes) : List Transmission :=
  o.transmissions.filter fun t => decide (t.job.msgId = m)

/-- What is in the trash stays there and is not transmitted. -/
theorem Step.trashed (h : Step H o e o') (hb : o.Bounded) {m : Bytes} (hm : o.Trashed m) :
    o'.Trashed m ∧ o'.transmissionsOf m = o.transmissionsOf m := by
  constructor
  · obtain ⟨row, hrow, hfolder⟩ := hm
    have hne : ∀ job, e = .completes job → job.msgId ≠ m := by
      rintro job rfl
      exact hb.trashed m ⟨row, hrow, hfolder⟩ job (mem_live_of_pending h.mem_pending)
    obtain ⟨f, hf, he⟩ := h.find?_eq hne
    refine ⟨f row, by rw [he, hrow, Option.map_some], ?_⟩
    rcases (hf row).folder_eq with hkept | ⟨-, htrash⟩
    · exact hkept.trans hfolder
    · exact htrash
  · cases h with
    | transmit job object hs =>
      have hne := hb.trashed m hm job (mem_live_of_stored hs)
      simp [transmissionsOf, hne]
    | _ => rfl

end Outbox

namespace SendSys

open Transition

variable {H : Hashes} {s t : SendSys}

/-- A resend that the step submits is of a row that has not been resent since it was listed and is
not in the trash, and a message that the step moves there is not being sent. -/
def resendCurrent (s : SendSys) (l : SendLabel) : Bool :=
  (match s.resending l with
    | some (c, job) => job.row.all fun row => decide (row.resendCount = c.resendCount) && decide (row.folder ≠ .trash)
    | none => true) &&
  (match l with
    | .trash m => s.outbox.live.all fun job => decide (job.msgId ≠ m)
    | _ => true)

theorem trash_of_effect {l : SendLabel} {m : Bytes} (h : s.effect l = .trashes m) : l = .trash m := by
  unfold effect at h
  split at h <;> simp_all

theorem Sound.step_bounded (hs : Sound H s) (hb : s.outbox.Bounded) {l : SendLabel} (hC : s.resendCurrent l = true)
    (h : s.step H l = some t) : t.outbox.Bounded := by
  simp only [resendCurrent, Bool.and_eq_true] at hC
  refine (hs.inv.step h).2.bounded hs.outbox hb ?_ ?_
  · intro c job he row hrow
    have hcurrent := hC.1
    rw [resending_of_effect he] at hcurrent
    simpa [hrow] using hcurrent
  · intro m he
    have hidle := hC.2
    rw [trash_of_effect he] at hidle
    simpa using hidle

/-- The message is in the trash. -/
def Trashed (s : SendSys) (m : Bytes) : Prop := s.outbox.Trashed m

/-- In every run all of whose steps are current: no message is resent more often than allowed, no
message is transmitted again before its time, and none after it has been moved to the trash. -/
theorem resend_bounded {maxPending : ℕ} {hm : maxPending < wordSize} {ls : List SendLabel}
    (hrun : run (step H) (init maxPending hm) ls = some t)
    (hC : Along (step H) (fun s l => s.resendCurrent l = true) (init maxPending hm) ls) :
    (∀ m row, t.sent.find? m = some row → row.resendCount ≤ resendMaxAttempts) ∧
    t.transmissions.Pairwise Outbox.Spaced ∧
    ∀ as bs s m, ls = as ++ bs → run (step H) (init maxPending hm) as = some s → s.Trashed m →
      t.outbox.transmissionsOf m = s.outbox.transmissionsOf m := by
  have hstep : ∀ u l v, (Sound H u ∧ u.outbox.Bounded) → u.resendCurrent l = true → u.step H l = some v →
      Sound H v ∧ v.outbox.Bounded :=
    fun u l v hu hC hv => ⟨step_sound u l v hu.1 hv, hu.1.step_bounded hu.2 hC hv⟩
  have hinit : Sound H (init maxPending hm) ∧ (init maxPending hm).outbox.Bounded := by
    refine ⟨init_sound maxPending hm, ?_⟩
    constructor <;>
      simp [outbox, init, PowSys.init, powQueueInit, workerPending, stored?, Outbox.live, Outbox.Trashed]
  have hfinal := run_invariant_along hstep hinit hC hrun
  refine ⟨hfinal.2.count_le, hfinal.2.spaced, ?_⟩
  rintro as bs s m rfl has htrash
  obtain ⟨s', hs', hbs⟩ := run_append_some hrun
  cases has.symm.trans hs'
  have hmid := run_invariant_along hstep hinit hC.left has
  have hrest := run_invariant_along
    (I := fun u => (Sound H u ∧ u.outbox.Bounded) ∧ u.Trashed m ∧
      u.outbox.transmissionsOf m = s.outbox.transmissionsOf m)
    (fun u l v hu hC hv => ?_) ⟨hmid, htrash, rfl⟩ (hC.right has) hbs
  · exact hrest.2.2
  · obtain ⟨hkept, heq⟩ := (hu.1.1.inv.step hv).2.trashed hu.1.2 hu.2.1
    exact ⟨hstep u l v hu.1 hC hv, hkept, heq.trans hu.2.2⟩

/-- A resend that is submitted as soon as it is listed, and a message that is moved to the trash
after it. -/
theorem resend_bounded_once :
    ∃ t, run (step prefixHashes) start (firstSend ++ (resendCheck ++ (mineBoth 14402 ++ [.trash exampleId]))) = some t ∧
      t.transmissions.length = 2 ∧ t.transmissions.Pairwise Outbox.Spaced := by
  have hcomputed : (run (step prefixHashes) start (firstSend ++ (resendCheck ++ (mineBoth 14402 ++
      [.trash exampleId])))).map (fun t => t.transmissions.length) = some 2 := by
    decide
  obtain ⟨t, ht, hlength⟩ := Option.map_eq_some_iff.mp hcomputed
  exact ⟨t, ht, hlength, (resend_bounded ht (by decide)).2.1⟩

/-- A check lists the message while a resend of it is under way, and submits it when that resend
has completed; and a check lists a message in the trash. -/
theorem resend_stale_or_trashed :
    (∃ t, run (step prefixHashes) (init 256 (by decide)) (firstSend ++ (resendCheck ++ (.listCandidates 14700 ::
        (mineBoth 14800 ++ (.submitCandidate (some stranger) (some (List.replicate 32 3)) :: mineBoth 14900))))) = some t ∧
      ¬ t.transmissions.Pairwise Outbox.Spaced) ∧
    ∃ s t, run (step prefixHashes) (init 256 (by decide)) (firstSend ++ [.trash exampleId]) = some s ∧
      s.Trashed exampleId ∧ run (step prefixHashes) s (resendCheck ++ mineBoth 14402) = some t ∧
      t.outbox.transmissionsOf exampleId ≠ s.outbox.transmissionsOf exampleId := by
  constructor
  · have hcomputed : (run (step prefixHashes) (init 256 (by decide)) (firstSend ++ (resendCheck ++
        (.listCandidates 14700 :: (mineBoth 14800 ++ (.submitCandidate (some stranger) (some (List.replicate 32 3)) ::
        mineBoth 14900)))))).map (fun t => t.transmissions.map fun tr =>
          (tr.job.msgId, tr.job.now, tr.job.nextResendTime)) =
        some [(exampleId, 0, 14400), (exampleId, 14400, 43200), (exampleId, 14700, 43500)] := by
      decide
    obtain ⟨t, ht, hmap⟩ := Option.map_eq_some_iff.mp hcomputed
    refine ⟨t, ht, fun hspaced => ?_⟩
    have hperiods := List.pairwise_map (f := fun tr : Transmission => (tr.job.msgId, tr.job.now, tr.job.nextResendTime))
      (R := fun a b => a.1 = b.1 → a.2.2 ≤ b.2.1) |>.mpr (hspaced.imp fun h he => (h he).1)
    rw [hmap] at hperiods
    exact absurd hperiods (by decide)
  · have hcomputed : ((run (step prefixHashes) (init 256 (by decide)) (firstSend ++ [.trash exampleId])).bind fun s =>
        (run (step prefixHashes) s (resendCheck ++ mineBoth 14402)).map fun t =>
          ((s.sent.find? exampleId).map SentRow.folder, (s.outbox.transmissionsOf exampleId).length,
            (t.outbox.transmissionsOf exampleId).length)) = some (some .trash, 1, 2) := by
      decide
    obtain ⟨s, hs, hcomputed⟩ := Option.bind_eq_some_iff.mp hcomputed
    obtain ⟨t, ht, hcomputed⟩ := Option.map_eq_some_iff.mp hcomputed
    simp only [Prod.mk.injEq] at hcomputed
    obtain ⟨hfolder, hbefore, hafter⟩ := hcomputed
    refine ⟨s, t, hs, Option.map_eq_some_iff.mp hfolder, ht, fun he => ?_⟩
    rw [he, hbefore] at hafter
    cases hafter

end SendSys

end Bitmessage
