import Bitmessage.Infra.SendSystem

/-! What sending does to the messages, without the queue and the threads. The sends that
are under way are a list: a send enters it when the queue accepts it, its first stage
hands over to its second, it writes its row, it transmits, and it can be dropped before
that. The step relation says everything that can happen to the rows and to the
history; `Infra.SendRefinement` shows that the threads do nothing else. -/

namespace Bitmessage

/-- The sends under way, the state of the network thread, the rows and the history. `stored` has
written its row and is about to be transmitted. -/
structure Outbox where
  pending : List SendMsgJob
  stored : Option SendMsgJob
  net : NetPc
  sent : SentTable
  submissions : List SendMsgJob
  completions : List SendMsgJob
  transmissions : List Transmission

/-- What a step does that the results about runs depend on. -/
inductive SendEffect where
  | internal
  | completes (job : SendMsgJob)
  | resends (candidate : ResendCandidate) (job : SendMsgJob)
  | trashes (msgId : Bytes)

namespace Outbox

/-- The sends that may still transmit. -/
def live (o : Outbox) : List SendMsgJob := o.stored.toList ++ o.pending

/-- The identifiers in use. -/
def known (o : Outbox) : List Bytes := o.submissions.map fun job => job.msgId

/-- No send of the same message is under way, and the job has noted the row of its message. -/
structure Submittable (o : Outbox) (job : SendMsgJob) : Prop where
  fresh : ∀ x ∈ o.live, x.msgId ≠ job.msgId
  row_eq : job.row = o.sent.find? job.msgId
  now_le : job.now ≤ job.nextResendTime

def submit (o : Outbox) (job : SendMsgJob) : Outbox :=
  { o with pending := o.pending ++ [job], submissions := o.submissions ++ [job] }

/-- The columns that only a send writes are the same in both rows. -/
structure SameSend (r r' : SentRow) : Prop where
  msgId_eq : r'.msgId = r.msgId
  ackData_eq : r'.ackData = r.ackData
  resendCount_eq : r'.resendCount = r.resendCount
  nextResendTime_eq : r'.nextResendTime = r.nextResendTime

inductive Step (H : Hashes) (o : Outbox) : SendEffect → Outbox → Prop
  | stutter : Step H o .internal o
  | new (job : SendMsgJob) (hid : job.msgId ∉ o.known) (hjob : o.Submittable job) :
    Step H o .internal (o.submit job)
  | resend (now : ℤ) (c : ResendCandidate) (cs : List ResendCandidate) (job : SendMsgJob)
    (hnet : o.net = .resending now (c :: cs)) (hreq : job.toSendRequest = c.request now) (hjob : o.Submittable job) :
    Step H o (.resends c job) { o.submit job with net := .resending now cs }
  | skip (now : ℤ) (c : ResendCandidate) (cs : List ResendCandidate) (hnet : o.net = .resending now (c :: cs)) :
    Step H o .internal { o with net := .resending now cs }
  | list (now : ℤ) (hnet : o.net = .idle) :
    Step H o .internal { o with
      net := .resending now (messagesStoreListResendCandidates o.sent now resendMaxAttempts) }
  | checked (now : ℤ) (hnet : o.net = .resending now []) : Step H o .internal { o with net := .idle }
  | arrive (object : Buf) (now : ℤ) (hnet : o.net = .idle) :
    Step H o .internal { o with net := matchAck H o.sent object now }
  | mark (ackData : Bytes) (hnet : o.net = .marking ackData) :
    Step H o .internal { o with net := .idle, sent := messagesStoreUpdateAck o.sent ackData }
  | edit (e : SendEffect) (f : SentRow → SentRow) (hf : ∀ r, (f r).msgId = r.msgId)
    (he : e = .internal ∨ ∃ m, e = .trashes m)
    (hsame : ∀ r, SameSend r (f r)) (hstatus : ∀ r, (f r).status = r.status)
    (hfolder : ∀ r, (f r).folder = r.folder ∨ e = .trashes r.msgId ∧ (f r).folder = .trash) :
    Step H o e { o with sent := o.sent.update f hf }
  | handOver (job : SendMsgJob) (rest : List SendMsgJob) (ack : Bytes) (hp : o.pending = job :: rest) :
    Step H o .internal { o with pending := rest ++ [{ job with ackData := some ack }] }
  | complete (job : SendMsgJob) (rest : List SendMsgJob) (now : ℤ) (hp : o.pending = job :: rest)
    (hs : o.stored = none) (hack : job.isSelf = false → ∃ ack, job.ackData = some ack ∧ MinedAck H job ack) :
    Step H o (.completes job) { o with
      pending := rest
      stored := some job
      sent := messagesStoreInsertSent o.sent (job.sentRow now)
      completions := o.completions ++ [job] }
  | transmit (job : SendMsgJob) (object : Bytes) (hs : o.stored = some job) :
    Step H o .internal { o with stored := none, transmissions := o.transmissions ++ [⟨job, object⟩] }
  | drop (pending : List SendMsgJob) (h : pending.Sublist o.pending) :
    Step H o .internal { o with pending := pending }

/-! ### What every step keeps -/

/-- The last send of a message that has written its row. -/
def lastCompletion (o : Outbox) (msgId : Bytes) : Option SendMsgJob :=
  (o.completions.filter fun job => decide (job.msgId = msgId)).getLast?

/-- The row of a listed candidate: it is not acknowledged and counts no fewer resends, and as long
as it counts no more it is due. -/
structure Listed (sent : SentTable) (now : ℤ) (c : ResendCandidate) (row : SentRow) : Prop where
  find_eq : sent.find? c.msgId = some row
  status_ne : row.status ≠ .ackreceived
  count_le : c.resendCount ≤ row.resendCount
  due : row.resendCount = c.resendCount → row.nextResendTime ≤ now ∧ c.resendCount < resendMaxAttempts

structure Inv (H : Hashes) (o : Outbox) : Prop where
  live_nodup : (o.live.map fun job => job.msgId).Nodup
  live_known : ∀ x ∈ o.live, x.msgId ∈ o.known
  row_known : ∀ m row, o.sent.find? m = some row → m ∈ o.known
  transmitted_known : ∀ t ∈ o.transmissions, t.job.msgId ∈ o.known
  first_row : ∀ x ∈ o.pending, x.row = none → o.sent.find? x.msgId = none
  first_transmission : ∀ x ∈ o.live, x.row = none → ∀ t ∈ o.transmissions, t.job.msgId ≠ x.msgId
  listed : ∀ now cs, o.net = .resending now cs → ∀ c ∈ cs, ∃ row, Listed o.sent now c row
  completed : ∀ m job, o.lastCompletion m = some job → ∃ row, o.sent.find? m = some row ∧
    row.ackData = job.ackData.getD []
  completed_ack : ∀ job ∈ o.completions, job.isSelf = false → ∃ ack, job.ackData = some ack ∧ MinedAck H job ack

variable {H : Hashes} {o o' : Outbox}

theorem mem_live_of_stored {job : SendMsgJob} (h : o.stored = some job) : job ∈ o.live := by
  simp [live, h]

theorem mem_live_of_pending {job : SendMsgJob} (h : job ∈ o.pending) : job ∈ o.live :=
  List.mem_append_right _ h

/-- A row after an edit comes from one that a send wrote the same. -/
theorem find?_edit {f : SentRow → SentRow} (hf : ∀ r, (f r).msgId = r.msgId) {m : Bytes} {row' : SentRow}
    (h : (o.sent.update f hf).find? m = some row') : ∃ row, o.sent.find? m = some row ∧ row' = f row := by
  rw [KeyedTable.find?_update, Option.map_eq_some_iff] at h
  obtain ⟨row, hrow, rfl⟩ := h
  exact ⟨row, hrow, rfl⟩

/-- What marking does to a row. -/
def acked (ackData : Bytes) (r : SentRow) : SentRow :=
  if r.ackData = ackData then { r with status := .ackreceived } else r

theorem sameSend_acked (ackData : Bytes) (r : SentRow) : SameSend r (acked ackData r) := by
  unfold acked
  split <;> constructor <;> rfl

theorem lastCompletion_concat (o : Outbox) (job : SendMsgJob) (m : Bytes) :
    ((o.completions ++ [job]).filter fun x => decide (x.msgId = m)).getLast? =
      if job.msgId = m then some job else o.lastCompletion m := by
  rw [List.filter_append]
  split_ifs with h <;> simp [h, lastCompletion]

theorem Inv.setNet (inv : Inv H o) {net : NetPc}
    (h : ∀ now cs, net = .resending now cs → ∀ c ∈ cs, ∃ row, Listed o.sent now c row) :
    Inv H { o with net := net } := { inv with listed := h }

theorem Inv.submit (inv : Inv H o) {job : SendMsgJob} (hjob : o.Submittable job)
    (hfirst : job.row = none → job.msgId ∉ o.known) : Inv H (o.submit job) := by
  have hlive : (o.submit job).live = o.live ++ [job] := (List.append_assoc _ _ _).symm
  have hknown : (o.submit job).known = o.known ++ [job.msgId] := by simp [Outbox.submit, known]
  have hmono : ∀ {m}, m ∈ o.known → m ∈ (o.submit job).known := fun h => hknown ▸ List.mem_append_left _ h
  have hself : job.msgId ∈ (o.submit job).known := hknown ▸ List.mem_append_right _ (List.mem_singleton.mpr rfl)
  exact { inv with
    live_nodup := by
      rw [hlive, List.map_append, List.map_singleton]
      refine inv.live_nodup.append (List.nodup_singleton _) ?_
      rw [List.disjoint_singleton]
      intro hmem
      obtain ⟨x, hx, he⟩ := List.mem_map.mp hmem
      exact hjob.fresh x hx he
    live_known := by
      intro x hx
      rw [hlive, List.mem_append, List.mem_singleton] at hx
      rcases hx with hx | rfl
      · exact hmono (inv.live_known x hx)
      · exact hself
    row_known := fun m row h => hmono (inv.row_known m row h)
    transmitted_known := fun t ht => hmono (inv.transmitted_known t ht)
    first_row := by
      intro x hx hrow
      rcases List.mem_append.mp hx with hx | hx
      · exact inv.first_row x hx hrow
      · obtain rfl := List.mem_singleton.mp hx
        exact hjob.row_eq ▸ hrow
    first_transmission := by
      intro x hx hrow t ht
      rw [hlive, List.mem_append, List.mem_singleton] at hx
      rcases hx with hx | rfl
      · exact inv.first_transmission x hx hrow t ht
      · exact fun he => hfirst hrow (he ▸ inv.transmitted_known t ht) }

/-- An edit of the rows that leaves alone what the sends write, and the status of a listed row. -/
theorem Inv.update (inv : Inv H o) {f : SentRow → SentRow} {hf : ∀ r, (f r).msgId = r.msgId}
    (hsame : ∀ r, SameSend r (f r)) (hstatus : ∀ now cs, o.net = .resending now cs → ∀ r, (f r).status = r.status) :
    Inv H { o with sent := o.sent.update f hf } :=
  { inv with
    row_known := by
      intro m row' h
      obtain ⟨row, hrow, -⟩ := find?_edit hf h
      exact inv.row_known m row hrow
    first_row := by
      intro x hx hrow
      change (o.sent.update f hf).find? x.msgId = none
      rw [KeyedTable.find?_update, inv.first_row x hx hrow, Option.map_none]
    listed := by
      intro now cs hnet c hc
      obtain ⟨row, hl⟩ := inv.listed now cs hnet c hc
      have hs := hsame row
      refine ⟨f row, ?_, ?_, ?_, ?_⟩
      · rw [KeyedTable.find?_update, hl.find_eq, Option.map_some]
      · rw [hstatus now cs hnet row]
        exact hl.status_ne
      · rw [hs.resendCount_eq]
        exact hl.count_le
      · rw [hs.resendCount_eq, hs.nextResendTime_eq]
        exact hl.due
    completed := by
      intro m job h
      obtain ⟨row, hrow, hack⟩ := inv.completed m job h
      refine ⟨f row, ?_, (hsame row).ackData_eq.trans hack⟩
      change (o.sent.update f hf).find? m = some (f row)
      rw [KeyedTable.find?_update, hrow, Option.map_some] }

/-- The pending sends may lose members, change their order and be replaced by their second stage. -/
theorem Inv.setPending (inv : Inv H o) {pending : List SendMsgJob}
    (hsub : (pending.map fun x => x.msgId).Subperm (o.pending.map fun x => x.msgId))
    (hmem : ∀ x ∈ pending, ∃ y ∈ o.pending, y.msgId = x.msgId ∧ y.row = x.row) :
    Inv H { o with pending := pending } := by
  have hlive : ∀ x ∈ o.stored.toList ++ pending, ∃ y ∈ o.live, y.msgId = x.msgId ∧ y.row = x.row := by
    intro x hx
    rcases List.mem_append.mp hx with hx | hx
    · exact ⟨x, List.mem_append_left _ hx, rfl, rfl⟩
    · obtain ⟨y, hy, he⟩ := hmem x hx
      exact ⟨y, mem_live_of_pending hy, he⟩
  exact { inv with
    live_nodup := by
      have hnodup := inv.live_nodup
      simp only [live, List.map_append] at hnodup ⊢
      obtain ⟨l, hperm, hl⟩ := (List.subperm_append_left (o.stored.toList.map fun x => x.msgId)).mpr hsub
      exact hperm.nodup_iff.mp (hnodup.sublist hl)
    live_known := by
      intro x hx
      obtain ⟨y, hy, he, -⟩ := hlive x hx
      exact he ▸ inv.live_known y hy
    first_row := by
      intro x hx hrow
      obtain ⟨y, hy, he, hr⟩ := hmem x hx
      exact he ▸ inv.first_row y hy (hr.trans hrow)
    first_transmission := by
      intro x hx hrow t ht
      obtain ⟨y, hy, he, hr⟩ := hlive x hx
      exact he ▸ inv.first_transmission y hy (hr.trans hrow) t ht }

/-- A send that heads the pending ones is the only one of its message. -/
theorem Inv.head_ne (inv : Inv H o) {job : SendMsgJob} {rest : List SendMsgJob} (hp : o.pending = job :: rest) :
    ∀ x ∈ rest, x.msgId ≠ job.msgId := by
  have := inv.live_nodup
  rw [live, hp, List.map_append, List.map_cons] at this
  have := List.nodup_cons.mp (List.Nodup.of_append_right this)
  exact fun x hx he => this.1 (List.mem_map.mpr ⟨x, hx, he⟩)

/-- A stored send is the only one of its message. -/
theorem Inv.stored_ne (inv : Inv H o) {job : SendMsgJob} (hs : o.stored = some job) :
    ∀ x ∈ o.pending, x.msgId ≠ job.msgId := by
  have := inv.live_nodup
  rw [live, hs, Option.toList_some, List.map_append, List.map_singleton, List.singleton_append] at this
  have := List.nodup_cons.mp this
  exact fun x hx he => this.1 (List.mem_map.mpr ⟨x, hx, he⟩)

theorem Inv.complete (inv : Inv H o) {job : SendMsgJob} {rest : List SendMsgJob} {now : ℤ}
    (hp : o.pending = job :: rest) (hs : o.stored = none)
    (hack : job.isSelf = false → ∃ ack, job.ackData = some ack ∧ MinedAck H job ack) :
    Inv H { o with
      pending := rest
      stored := some job
      sent := messagesStoreInsertSent o.sent (job.sentRow now)
      completions := o.completions ++ [job] } := by
  have hlive : [job] ++ rest = o.live := by rw [live, hs, hp]; rfl
  have hjob : job ∈ o.pending := hp ▸ List.mem_cons_self
  have hself : (messagesStoreInsertSent o.sent (job.sentRow now)).find? job.msgId =
      some ((o.sent.find? job.msgId).elim (job.sentRow now).fresh fun r => r.resent (job.sentRow now)) :=
    find?_insertSent_self _ _
  have hother : ∀ {m}, m ≠ job.msgId →
      (messagesStoreInsertSent o.sent (job.sentRow now)).find? m = o.sent.find? m :=
    fun h => find?_insertSent_of_ne _ h
  exact { inv with
    live_nodup := by rw [live, Option.toList_some, hlive]; exact inv.live_nodup
    live_known := by
      intro x hx
      rw [live, Option.toList_some, hlive] at hx
      exact inv.live_known x hx
    row_known := by
      intro m row h
      by_cases hm : m = job.msgId
      · rw [hm]
        exact inv.live_known job (mem_live_of_pending hjob)
      · exact inv.row_known m row (hother hm ▸ h)
    first_row := by
      intro x hx hrow
      rw [hother (inv.head_ne hp x hx)]
      exact inv.first_row x (hp ▸ List.mem_cons_of_mem _ hx) hrow
    first_transmission := by
      intro x hx
      rw [live, Option.toList_some, hlive] at hx
      exact inv.first_transmission x hx
    listed := by
      intro now' cs hnet c hc
      obtain ⟨row, hl⟩ := inv.listed now' cs hnet c hc
      by_cases hm : c.msgId = job.msgId
      · -- the candidate is out of date: its row now counts one resend more
        rw [← hm, hl.find_eq, Option.elim_some] at hself
        refine ⟨row.resent (job.sentRow now), hself, ?_, ?_, ?_⟩
        · simp only [SentRow.resent, SendMsgJob.sentRow]
          split <;> simp
        · exact le_trans hl.count_le (Nat.le_succ _)
        · intro he
          have := hl.count_le
          simp only [SentRow.resent] at he
          omega
      · exact ⟨row, (hother hm).trans hl.find_eq, hl.status_ne, hl.count_le, hl.due⟩
    completed := by
      intro m x h
      rw [lastCompletion, lastCompletion_concat] at h
      split_ifs at h with hm
      · cases h
        subst hm
        refine ⟨_, hself, ?_⟩
        rcases o.sent.find? job.msgId with _ | row <;> rfl
      · obtain ⟨row, hrow, he⟩ := inv.completed m x h
        exact ⟨row, (hother (Ne.symm hm)).trans hrow, he⟩
    completed_ack := by
      intro x hx hx'
      rcases List.mem_append.mp hx with hx | hx
      · exact inv.completed_ack x hx hx'
      · obtain rfl := List.mem_singleton.mp hx
        exact hack hx' }

theorem Inv.transmit (inv : Inv H o) {job : SendMsgJob} {object : Bytes} (hs : o.stored = some job) :
    Inv H { o with stored := none, transmissions := o.transmissions ++ [⟨job, object⟩] } := by
  have hmem : ∀ x ∈ o.pending, x ∈ o.live := fun x hx => mem_live_of_pending hx
  exact { inv with
    live_nodup := List.Nodup.sublist ((List.sublist_append_right _ _).map _) inv.live_nodup
    live_known := fun x hx => inv.live_known x (hmem x hx)
    transmitted_known := by
      intro t ht
      rcases List.mem_append.mp ht with ht | ht
      · exact inv.transmitted_known t ht
      · obtain rfl := List.mem_singleton.mp ht
        exact inv.live_known job (mem_live_of_stored hs)
    first_transmission := by
      intro x hx hrow t ht
      rcases List.mem_append.mp ht with ht | ht
      · exact inv.first_transmission x (hmem x hx) hrow t ht
      · obtain rfl := List.mem_singleton.mp ht
        exact Ne.symm (inv.stored_ne hs x hx) }

/-- What a send lists is listed. -/
theorem listed_of_mem {sent : SentTable} {now : ℤ} {c : ResendCandidate}
    (hc : c ∈ messagesStoreListResendCandidates sent now resendMaxAttempts) : ∃ row, Listed sent now c row := by
  obtain ⟨row, hrow, hdue, rfl⟩ := mem_listResendCandidates hc
  simp only [SentRow.resendDue, Bool.and_eq_true, decide_eq_true_eq] at hdue
  exact ⟨row, hrow, hdue.1.1.1, le_rfl, fun _ => ⟨hdue.1.2, hdue.2⟩⟩

theorem Step.inv {e : SendEffect} (h : Step H o e o') (inv : Inv H o) : Inv H o' := by
  cases h with
  | stutter => exact inv
  | new job hid hjob => exact inv.submit hjob fun _ => hid
  | resend now c cs job hnet hreq hjob =>
    have hmsg : job.msgId = c.msgId := congrArg SendRequest.msgId hreq
    obtain ⟨row, hl⟩ := inv.listed now _ hnet c List.mem_cons_self
    have hrow : job.row = some row := by rw [hjob.row_eq, hmsg, hl.find_eq]
    refine (inv.submit hjob fun h => by rw [hrow] at h; cases h).setNet ?_
    rintro _ _ ⟨⟩ c' hc'
    exact inv.listed now _ hnet c' (List.mem_cons_of_mem _ hc')
  | skip now c cs hnet =>
    refine inv.setNet ?_
    rintro _ _ ⟨⟩ c' hc'
    exact inv.listed now _ hnet c' (List.mem_cons_of_mem _ hc')
  | list now =>
    refine inv.setNet ?_
    rintro _ _ ⟨⟩ c hc
    exact listed_of_mem hc
  | checked => exact inv.setNet nofun
  | arrive object now =>
    refine inv.setNet ?_
    intro _ _ he
    unfold matchAck at he
    split at he <;> cases he
  | mark ackData hnet =>
    have hidle : Inv H { o with net := .idle } := inv.setNet nofun
    exact hidle.update (sameSend_acked ackData) nofun
  | edit _ f hf he hsame hstatus hfolder => exact inv.update hsame fun _ _ _ => hstatus
  | handOver job rest ack hp =>
    refine inv.setPending ?_ ?_
    · rw [hp, List.map_append, List.map_singleton, List.map_cons]
      exact (List.perm_append_singleton _ _).subperm
    · intro x hx
      rw [hp]
      rcases List.mem_append.mp hx with hx | hx
      · exact ⟨x, List.mem_cons_of_mem _ hx, rfl, rfl⟩
      · obtain rfl := List.mem_singleton.mp hx
        exact ⟨job, List.mem_cons_self, rfl, rfl⟩
  | complete job rest now hp hs hack => exact inv.complete hp hs hack
  | transmit job object hs => exact inv.transmit hs
  | drop pending h =>
    exact inv.setPending (h.map _).subperm fun x hx => ⟨x, h.subset hx, rfl, rfl⟩

/-! ### What a step does to the row of a message -/

/-- What a step can make of a row of which no send completes. -/
structure Edited (o : Outbox) (e : SendEffect) (r r' : SentRow) : Prop extends SameSend r r' where
  status_eq : r'.status = r.status ∨ (r'.status = .ackreceived ∧ ∃ ackData, o.net = .marking ackData ∧
    r.ackData = ackData)
  folder_eq : r'.folder = r.folder ∨ (e = .trashes r.msgId ∧ r'.folder = .trash)

theorem Edited.refl (o : Outbox) (e : SendEffect) (r : SentRow) : Edited o e r r :=
  ⟨⟨rfl, rfl, rfl, rfl⟩, .inl rfl, .inl rfl⟩

/-- A step in which no send of the message completes edits its row, if there is one. -/
theorem Step.find?_eq {e : SendEffect} (h : Step H o e o') {m : Bytes} (hne : ∀ job, e = .completes job → job.msgId ≠ m) :
    ∃ f, (∀ r, Edited o e r (f r)) ∧ o'.sent.find? m = (o.sent.find? m).map f := by
  have hid : ∃ f, (∀ r, Edited o e r (f r)) ∧ o.sent.find? m = (o.sent.find? m).map f :=
    ⟨id, Edited.refl o e, Option.map_id'.symm⟩
  cases h with
  | mark ackData hnet =>
    refine ⟨acked ackData, fun r => ⟨sameSend_acked ackData r, ?_, ?_⟩,
      KeyedTable.find?_update _ _ (fun r => (sameSend_acked ackData r).msgId_eq) m⟩
    · unfold acked
      split
      · next he => exact .inr ⟨rfl, ackData, hnet, he⟩
      · exact .inl rfl
    · unfold acked
      split <;> exact .inl rfl
  | edit _ f hf he hsame hstatus hfolder =>
    exact ⟨f, fun r => ⟨hsame r, .inl (hstatus r), hfolder r⟩, KeyedTable.find?_update _ _ hf m⟩
  | complete job rest now hp hs hack =>
    obtain ⟨f, hf, he⟩ := hid
    exact ⟨f, hf, (find?_insertSent_of_ne _ (Ne.symm (hne job rfl))).trans he⟩
  | _ => exact hid

theorem Step.mem_pending {job : SendMsgJob} (h : Step H o (.completes job) o') : job ∈ o.pending := by
  cases h with
  | edit _ f hf he => rcases he with he | ⟨m, he⟩ <;> cases he
  | complete _ rest now hp hs hack => exact hp ▸ List.mem_cons_self

/-- The row that a completed send leaves. -/
theorem Step.find?_completes {job : SendMsgJob} (h : Step H o (.completes job) o') :
    ∃ now, o'.sent.find? job.msgId =
      some ((o.sent.find? job.msgId).elim (job.sentRow now).fresh fun r => r.resent (job.sentRow now)) := by
  cases h with
  | edit _ f hf he => rcases he with he | ⟨m, he⟩ <;> cases he
  | complete _ rest now hp hs hack => exact ⟨now, find?_insertSent_self _ _⟩

/-- The message has been acknowledged. -/
def Acked (o : Outbox) (m : Bytes) : Prop := ∃ row, o.sent.find? m = some row ∧ row.status = .ackreceived

theorem Step.acked {e : SendEffect} (h : Step H o e o') {m : Bytes}
    (hne : ∀ job, e = .completes job → job.msgId ≠ m) (ha : o.Acked m) : o'.Acked m := by
  obtain ⟨row, hrow, hstatus⟩ := ha
  obtain ⟨f, hf, he⟩ := h.find?_eq hne
  refine ⟨f row, by rw [he, hrow, Option.map_some], ?_⟩
  rcases (hf row).status_eq with hs | ⟨hs, -⟩
  · exact hs.trans hstatus
  · exact hs

/-- A completed send writes its own status over whatever there was. -/
theorem Step.not_acked_of_completes {job : SendMsgJob} (h : Step H o (.completes job) o') : ¬ o'.Acked job.msgId := by
  obtain ⟨now, hfind⟩ := h.find?_completes
  rintro ⟨row, hrow, hstatus⟩
  have hwritten : (job.sentRow now).status ≠ .ackreceived := by
    simp only [SendMsgJob.sentRow]
    split <;> decide
  rw [hfind, Option.some.injEq] at hrow
  rw [← hrow] at hstatus
  cases ho : o.sent.find? job.msgId <;> rw [ho] at hstatus <;> exact hwritten hstatus

/-- The network thread that has selected an acknowledgement marks it before anything else. -/
theorem Step.marking {e : SendEffect} (h : Step H o e o') {ackData : Bytes} (hnet : o.net = .marking ackData) :
    o'.net = .marking ackData ∨ o'.sent = messagesStoreUpdateAck o.sent ackData := by
  cases h with
  | resend now c cs job hnet' | skip now c cs hnet' | list now hnet' | checked now hnet' | arrive object now hnet' =>
    rw [hnet] at hnet'
    cases hnet'
  | mark ackData' hnet' =>
    rw [hnet] at hnet'
    cases hnet'
    exact .inr rfl
  | _ => exact .inl hnet

/-- Sends of a message do not start once it is acknowledged, so when none is under way at that
moment none will be. -/
theorem Step.quiet {e : SendEffect} (h : Step H o e o') (inv : Inv H o) {m : Bytes}
    (hmark : ∀ row, o.sent.find? m = some row → o.net = .marking row.ackData → o'.net = .idle →
      ∀ x ∈ o.pending, x.msgId ≠ m)
    (hq : o.Acked m → ∀ x ∈ o.pending, x.msgId ≠ m) (ha : o'.Acked m) : ∀ x ∈ o'.pending, x.msgId ≠ m := by
  cases h with
  | new job hid hjob =>
    intro x hx
    rcases List.mem_append.mp hx with hx | hx
    · exact hq ha x hx
    · obtain rfl := List.mem_singleton.mp hx
      obtain ⟨row, hrow, -⟩ := ha
      exact fun he => hid (he ▸ inv.row_known m row hrow)
  | resend now c cs job hnet hreq hjob =>
    intro x hx
    rcases List.mem_append.mp hx with hx | hx
    · exact hq ha x hx
    · obtain rfl := List.mem_singleton.mp hx
      have hmsg : x.msgId = c.msgId := congrArg SendRequest.msgId hreq
      obtain ⟨row, hl⟩ := inv.listed now _ hnet c List.mem_cons_self
      obtain ⟨row', hrow', hstatus⟩ := ha
      rintro rfl
      rw [hmsg] at hrow'
      cases hl.find_eq.symm.trans hrow'
      exact hl.status_ne hstatus
  | mark ackData hnet =>
    by_cases hacked : o.Acked m
    · exact hq hacked
    · obtain ⟨row', hrow', hstatus⟩ := ha
      obtain ⟨row, hrow, rfl⟩ := find?_edit (fun r => (sameSend_acked ackData r).msgId_eq) hrow'
      unfold Outbox.acked at hstatus
      by_cases he : row.ackData = ackData
      · exact hmark row hrow (he ▸ hnet) rfl
      · rw [if_neg he] at hstatus
        exact absurd ⟨row, hrow, hstatus⟩ hacked
  | edit _ f hf he hsame hstatus hfolder =>
    obtain ⟨row', hrow', hs⟩ := ha
    obtain ⟨row, hrow, rfl⟩ := find?_edit hf hrow'
    exact hq ⟨row, hrow, hstatus row ▸ hs⟩
  | handOver job rest ack hp =>
    intro x hx
    have := hq ha
    rw [hp] at this
    rcases List.mem_append.mp hx with hx | hx
    · exact this x (List.mem_cons_of_mem _ hx)
    · obtain rfl := List.mem_singleton.mp hx
      exact this job List.mem_cons_self
  | complete job rest now hp hs hack =>
    by_cases hm : m = job.msgId
    · rw [hm]
      exact inv.head_ne hp
    · obtain ⟨row, hrow, hstatus⟩ := ha
      rw [show (messagesStoreInsertSent o.sent (job.sentRow now)).find? m = o.sent.find? m from
        find?_insertSent_of_ne _ hm] at hrow
      exact fun x hx => hq ⟨row, hrow, hstatus⟩ x (hp ▸ List.mem_cons_of_mem _ hx)
  | drop pending h => exact fun x hx => hq ha x (h.subset hx)
  | _ => exact hq ha

end Outbox

end Bitmessage
