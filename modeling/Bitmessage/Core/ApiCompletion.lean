import Bitmessage.Core.ApiServer

/-! Runs of one API request. The count of outstanding sends, the pointers from the slots
to the responses and the one resumption of a suspended connection are invariants; a
measure that every action lowers bounds the runs, and a run that cannot go on has queued
its response. -/

namespace Bitmessage

/-! ### Lists under `modify` -/

section

variable {α : Type*} {f : α → α} {xs : List α} {k : ℕ} {x : α}

theorem countP_modify (p : α → Bool) (h : xs[k]? = some x) :
    (xs.modify k f).countP p + (if p x then 1 else 0) = xs.countP p + if p (f x) then 1 else 0 := by
  induction xs generalizing k with
  | nil => cases h
  | cons y xs ih =>
    cases k with
    | zero =>
      cases h
      simp only [List.modify_zero_cons, List.countP_cons]
      omega
    | succ k =>
      have ih := ih (k := k) h
      simp only [List.modify_succ_cons, List.countP_cons]
      omega

theorem getElem?_modify_self (h : xs[k]? = some x) : (xs.modify k f)[k]? = some (f x) := by
  simp [h]

theorem getElem?_modify_ne {j : ℕ} (h : k ≠ j) : (xs.modify k f)[j]? = xs[j]? := by
  simp [h]

end

/-! ### The slots -/

/-- The send was accepted, and may be completed. -/
def SendSlot.isSubmitted (x : SendSlot) : Bool :=
  match x.phase with
  | .accepted | .done _ _ _ => true
  | .begun | .rejected => false

theorem SendSlot.isSubmitted_of_phase {x : SendSlot} (h : x.phase = .begun) : x.isSubmitted = false := by
  simp [SendSlot.isSubmitted, h]

/-- The slot of the handler that is running. -/
def HttpPc.slot? : HttpPc → Option ℕ
  | .sending _ _ k | .submitted _ _ k => some k
  | _ => none

/-- A send is at its beginning only while its handler is there; those registered were accepted. -/
structure SlotsOk (pc : HttpPc) (slots : List SendSlot) (reg : List ℕ) : Prop where
  begun : ∀ (k : ℕ) x, slots[k]? = some x → x.phase = .begun → ∃ req todo, pc = .sending req todo k
  sending : ∀ req todo k, pc = .sending req todo k → ∃ x, slots[k]? = some x ∧ x.phase = .begun
  submitted : ∀ req todo k, pc = .submitted req todo k →
    (∃ x, slots[k]? = some x ∧ x.isSubmitted = true) ∧ k ∉ reg
  registered : ∀ k ∈ reg, ∃ x, slots[k]? = some x ∧ x.isSubmitted = true
  nodup : reg.Nodup

namespace SlotsOk

variable {pc pc' : HttpPc} {slots : List SendSlot} {reg : List ℕ} {req : Json} {todo : List Json} {k : ℕ}

/-- Outside the handlers of sends it does not matter where the thread is. -/
theorem free (h : SlotsOk pc slots reg) (hpc : pc.slot? = none) (hpc' : pc'.slot? = none) : SlotsOk pc' slots reg where
  begun j x hx hphase := by
    obtain ⟨req, todo, rfl⟩ := h.begun j x hx hphase
    cases hpc
  sending req todo j hj := by
    subst hj
    cases hpc'
  submitted req todo j hj := by
    subst hj
    cases hpc'
  registered := h.registered
  nodup := h.nodup

theorem append (h : SlotsOk pc slots reg) (hpc : pc.slot? = none) (req : Json) (todo : List Json) :
    SlotsOk (.sending req todo slots.length) (slots ++ [⟨.begun, false, none⟩]) reg where
  begun j x hx hphase := by
    rcases lt_trichotomy j slots.length with hlt | rfl | hgt
    · rw [List.getElem?_append_left hlt] at hx
      obtain ⟨req, todo, rfl⟩ := h.begun j x hx hphase
      cases hpc
    · exact ⟨req, todo, rfl⟩
    · rw [List.getElem?_eq_none (by simp; omega)] at hx
      cases hx
  sending req' todo' j hj := by
    cases hj
    exact ⟨⟨.begun, false, none⟩, by simp, rfl⟩
  submitted req todo j hj := by cases hj
  registered j hj := by
    obtain ⟨x, hx, hsub⟩ := h.registered j hj
    refine ⟨x, ?_, hsub⟩
    rw [List.getElem?_append_left (List.getElem?_eq_some_iff.mp hx).1, hx]
  nodup := h.nodup

/-- A slot whose send has begun is not registered. -/
theorem not_mem_registered (h : SlotsOk (.sending req todo k) slots reg) : k ∉ reg := by
  intro hk
  obtain ⟨x, hx, hbegun⟩ := h.sending req todo k rfl
  obtain ⟨y, hy, hsub⟩ := h.registered k hk
  cases hx.symm.trans hy
  rw [SendSlot.isSubmitted_of_phase hbegun] at hsub
  cases hsub

/-- Registered slots other than the one that changes. -/
theorem registered_modify (h : SlotsOk pc slots reg) (f : SendSlot → SendSlot)
    (hf : k ∈ reg → ∀ x, slots[k]? = some x → (f x).isSubmitted = true) :
    ∀ j ∈ reg, ∃ x, (slots.modify k f)[j]? = some x ∧ x.isSubmitted = true := by
  intro j hj
  obtain ⟨x, hx, hsub⟩ := h.registered j hj
  by_cases hkj : k = j
  · subst hkj
    exact ⟨f x, getElem?_modify_self hx, hf hj x hx⟩
  · exact ⟨x, by rw [getElem?_modify_ne hkj, hx], hsub⟩

/-- The only send at its beginning is the one of the handler. -/
theorem not_begun_modify (h : SlotsOk (.sending req todo k) slots reg) {f : SendSlot → SendSlot}
    (hf : ∀ x, (f x).phase ≠ .begun) {j : ℕ} {x : SendSlot} (hx : (slots.modify k f)[j]? = some x) :
    x.phase ≠ .begun := by
  intro hphase
  obtain ⟨y, hy, -⟩ := h.sending req todo k rfl
  by_cases hkj : k = j
  · subst hkj
    rw [getElem?_modify_self hy] at hx
    cases hx
    exact hf y hphase
  · rw [getElem?_modify_ne hkj] at hx
    obtain ⟨req', todo', hpc⟩ := h.begun j x hx hphase
    cases hpc
    exact hkj rfl

theorem accept (h : SlotsOk (.sending req todo k) slots reg) :
    SlotsOk (.submitted req todo k) (slots.modify k fun x => { x with phase := .accepted }) reg where
  begun j x hx hphase := absurd hphase (h.not_begun_modify (by simp) hx)
  sending req todo j hj := by cases hj
  submitted req todo j hj := by
    cases hj
    obtain ⟨y, hy, -⟩ := h.sending req todo k rfl
    exact ⟨⟨_, getElem?_modify_self hy, rfl⟩, h.not_mem_registered⟩
  registered := h.registered_modify _ fun _ _ _ => rfl
  nodup := h.nodup

theorem reject (h : SlotsOk (.sending req todo k) slots reg) :
    SlotsOk (.reading todo) (slots.modify k fun x => { x with phase := .rejected }) reg where
  begun j x hx hphase := absurd hphase (h.not_begun_modify (by simp) hx)
  sending req todo j hj := by cases hj
  submitted req todo j hj := by cases hj
  registered := h.registered_modify _ fun hk => absurd hk h.not_mem_registered
  nodup := h.nodup

theorem register (h : SlotsOk (.submitted req todo k) slots reg) {f : SendSlot → SendSlot}
    (hf : ∀ x, (f x).phase = x.phase) : SlotsOk (.reading todo) (slots.modify k f) (reg ++ [k]) where
  begun j x hx hphase := by
    obtain ⟨⟨y, hy, hsub⟩, -⟩ := h.submitted req todo k rfl
    by_cases hkj : k = j
    · subst hkj
      rw [getElem?_modify_self hy] at hx
      cases hx
      rw [SendSlot.isSubmitted_of_phase ((hf y).symm.trans hphase)] at hsub
      cases hsub
    · rw [getElem?_modify_ne hkj] at hx
      obtain ⟨req', todo', hpc⟩ := h.begun j x hx hphase
      cases hpc
  sending req todo j hj := by cases hj
  submitted req todo j hj := by cases hj
  registered j hj := by
    obtain ⟨⟨y, hy, hsub⟩, hk⟩ := h.submitted req todo k rfl
    rcases List.mem_append.mp hj with hj | hj
    · exact h.registered_modify f (fun hk' => absurd hk' hk) j hj
    · cases List.mem_singleton.mp hj
      refine ⟨f y, getElem?_modify_self hy, ?_⟩
      rw [← hsub]
      simp [SendSlot.isSubmitted, hf]
  nodup := by
    obtain ⟨-, hk⟩ := h.submitted req todo k rfl
    exact List.nodup_append.mpr ⟨h.nodup, List.nodup_singleton k, by simpa using fun j hj => ne_of_mem_of_not_mem hj hk⟩

theorem complete (h : SlotsOk pc slots reg) {x : SendSlot} (hx : slots[k]? = some x) (hacc : x.phase = .accepted)
    (rc : ℤ) (objectLen : ℕ) (invHash : Bytes) :
    SlotsOk pc (slots.modify k fun x => { x with phase := .done rc objectLen invHash }) reg where
  begun j y hy hphase := by
    by_cases hkj : k = j
    · subst hkj
      rw [getElem?_modify_self hx] at hy
      cases hy
      cases hphase
    · rw [getElem?_modify_ne hkj] at hy
      exact h.begun j y hy hphase
  sending req todo j hj := by
    obtain ⟨y, hy, hbegun⟩ := h.sending req todo j hj
    have hkj : k ≠ j := by
      rintro rfl
      cases hx.symm.trans hy
      rw [hacc] at hbegun
      cases hbegun
    exact ⟨y, by rw [getElem?_modify_ne hkj, hy], hbegun⟩
  submitted req todo j hj := by
    obtain ⟨⟨y, hy, hsub⟩, hreg⟩ := h.submitted req todo j hj
    refine ⟨?_, hreg⟩
    by_cases hkj : k = j
    · subst hkj
      exact ⟨_, getElem?_modify_self hx, rfl⟩
    · exact ⟨y, by rw [getElem?_modify_ne hkj, hy], hsub⟩
  registered := h.registered_modify _ fun _ _ _ => rfl
  nodup := h.nodup

end SlotsOk

/-! ### Links -/

section

variable {slots slots' : List SendSlot} {entries : List Entry} {e : Entry}

/-- The links stay when the slots of the sends keep their pointers. -/
theorem Linked.congr (h : Linked slots entries)
    (hs : ∀ k ∈ entries.filterMap Entry.slot?, ∀ x, slots[k]? = some x →
      ∃ y, slots'[k]? = some y ∧ y.resp = x.resp ∧ y.placeholder = x.placeholder) : Linked slots' entries := by
  intro before e after slot allocated he hoc
  obtain ⟨x, hx, hlink⟩ := h before e after slot allocated he hoc
  have hmem : slot ∈ entries.filterMap Entry.slot? :=
    List.mem_filterMap.mpr ⟨e, by simp [he], by simp [Entry.slot?, hoc]⟩
  obtain ⟨y, hy, hresp, hplace⟩ := hs slot hmem x hx
  exact ⟨y, hy, by rw [hresp, hplace]; exact hlink⟩

theorem Linked.snoc (h : Linked slots entries)
    (he : ∀ slot allocated, e.outcome = .sent slot allocated → ∃ x, slots[slot]? = some x ∧
      if e.req.isNotification then x.resp = none
      else x.resp = some (entries.filterMap Entry.built).length ∧ x.placeholder = allocated) :
    Linked slots (entries ++ [e]) := by
  intro before e' after slot allocated heq hoc
  rcases List.eq_nil_or_concat after with rfl | ⟨after', e'', rfl⟩
  · obtain ⟨rfl, hlast⟩ := List.append_inj' heq rfl
    cases hlast
    exact he slot allocated hoc
  · rw [List.concat_eq_append, ← List.cons_append, ← List.append_assoc] at heq
    exact h before e' after' slot allocated (List.append_inj_left' heq rfl) hoc

end

/-! ### What one action does -/

namespace ApiRequest

/-- The actions by the place they are taken at, with the state each leaves. -/
inductive Moves (s : ApiRequest) : ApiRequest → Prop
  | read (hpc : s.pc = .unread) : Moves s s.read
  | through (req : Json) (todo : List Json) (outcome : Outcome) (hpc : s.pc = .reading (req :: todo))
    (hslot : Entry.slot? ⟨req, outcome⟩ = none)
    (hno : outcome = .noHandler → ∀ method, processOneRequest req ≠ .run method) :
    Moves s (s.through req outcome todo (Entry.built ⟨req, outcome⟩))
  | begin (req : Json) (todo : List Json) (hpc : s.pc = .reading (req :: todo)) :
    Moves s { s with
      pc := .sending req todo s.slots.length
      outstanding := s.outstanding + 1
      slots := s.slots ++ [⟨.begun, false, none⟩] }
  | accept (req : Json) (todo : List Json) (k : ℕ) (hpc : s.pc = .sending req todo k) :
    Moves s { s.setPhase k .accepted with pc := .submitted req todo k }
  | reject (req : Json) (todo : List Json) (k : ℕ) (message : String) (hpc : s.pc = .sending req todo k) :
    Moves s (s.rejectSend req todo k message)
  | register (req : Json) (todo : List Json) (k : ℕ) (allocated : Bool) (hpc : s.pc = .submitted req todo k) :
    Moves s (s.endSend req todo k allocated)
  | endLoop (hpc : s.pc = .reading []) : Moves s { s with pc := .processed }
  | check (hpc : s.pc = .processed) : Moves s s.check
  | finish (hpc : s.pc = .suspended) (hres : 0 < s.resumptions) : Moves s s.finish
  | complete (k : ℕ) (placeholder : Bool) (resp : Option ℕ) (rc : ℤ) (objectLen : ℕ) (invHash : Bytes)
    (hx : s.slots[k]? = some ⟨.accepted, placeholder, resp⟩) :
    Moves s { s.setPhase k (.done rc objectLen invHash) with
      outstanding := s.outstanding - 1
      resuming := s.resuming + if s.outstanding - 1 = 0 ∧ s.suspended = true then 1 else 0 }
  | resume (hpos : 0 < s.resuming) :
    Moves s { s with resuming := s.resuming - 1, resumptions := s.resumptions + 1 }

section

variable {s t : ApiRequest} {req : Json} {todo : List Json}

theorem moves_process {reply : HandlerReply} (hpc : s.pc = .reading (req :: todo))
    (hstep : s.process req todo reply = some t) : Moves s t := by
  unfold ApiRequest.process at hstep
  cases hp : processOneRequest req with
  | respond r =>
    rw [hp] at hstep
    cases hstep
    have hbuilt : some r = Entry.built ⟨req, .noHandler⟩ := by simp [Entry.built, hp]
    rw [hbuilt]
    exact .through req todo .noHandler hpc rfl fun _ method => by simp [hp]
  | ignore =>
    rw [hp] at hstep
    cases hstep
    have hbuilt : none = Entry.built ⟨req, .noHandler⟩ := by simp [Entry.built, hp]
    rw [hbuilt]
    exact .through req todo .noHandler hpc rfl fun _ method => by simp [hp]
  | run method =>
    simp only [hp] at hstep
    split at hstep
    · cases hstep
    · cases hstep
      exact .through req todo (.replied reply) hpc rfl (by rintro ⟨⟩)

theorem moves_beginSend (hpc : s.pc = .reading (req :: todo)) (hstep : s.beginSend req todo = some t) : Moves s t := by
  unfold ApiRequest.beginSend at hstep
  split at hstep
  · split at hstep
    · cases hstep
      exact .begin req todo hpc
    · cases hstep
  · cases hstep

theorem moves_complete {k : ℕ} {rc : ℤ} {objectLen : ℕ} {invHash : Bytes}
    (hstep : s.complete k rc objectLen invHash = some t) : Moves s t := by
  unfold ApiRequest.complete at hstep
  split at hstep
  · next placeholder resp hx =>
    cases hstep
    exact .complete k placeholder resp rc objectLen invHash hx
  · cases hstep

/-- The case analysis of `step`: the invariant, the rank and the body follow it by its cases. -/
theorem moves_of_step {l : ApiLabel} (hstep : s.step l = some t) : Moves s t := by
  cases l with
  | complete slot rc objectLen invHash => exact moves_complete hstep
  | resume =>
    simp only [step] at hstep
    split at hstep
    · cases hstep
      exact .resume ‹_›
    · cases hstep
  | finish =>
    simp only [step] at hstep
    split at hstep
    · next hpc =>
      split at hstep
      · cases hstep
        exact .finish hpc ‹_›
      · cases hstep
    · cases hstep
  | process reply =>
    simp only [step] at hstep
    split at hstep
    · next hpc => exact moves_process hpc hstep
    · cases hstep
  | beginSend =>
    simp only [step] at hstep
    split at hstep
    · next hpc => exact moves_beginSend hpc hstep
    · cases hstep
  | read =>
    simp only [step] at hstep
    split at hstep
    · next hpc =>
      cases hstep
      exact .read hpc
    · cases hstep
  | acceptSend =>
    simp only [step] at hstep
    split at hstep
    · next req todo k hpc =>
      cases hstep
      exact .accept req todo k hpc
    · cases hstep
  | rejectSend message =>
    simp only [step] at hstep
    split at hstep
    · next req todo k hpc =>
      cases hstep
      exact .reject req todo k message hpc
    · cases hstep
  | endSend allocated =>
    simp only [step] at hstep
    split at hstep
    · next req todo k hpc =>
      cases hstep
      exact .register req todo k allocated hpc
    · cases hstep
  | endLoop =>
    simp only [step] at hstep
    split at hstep
    · next hpc =>
      cases hstep
      exact .endLoop hpc
    · cases hstep
  | check =>
    simp only [step] at hstep
    split at hstep
    · next hpc =>
      cases hstep
      exact .check hpc
    · cases hstep

end

end ApiRequest

/-! ### The invariant -/

namespace ApiRequest

/-- The requests that are not yet through. -/
def left (s : ApiRequest) : List Json :=
  match s.pc with
  | .reading todo => todo
  | .sending req todo _ | .submitted req todo _ => req :: todo
  | _ => []

/-- What has been built of the responses. -/
structure Content (s : ApiRequest) : Prop where
  unread : s.pc = .unread → s.responses = [] ∧ s.entries = [] ∧ s.batch = false
  answer : ∀ r, processJsonrpcRequest s.root = .answer r → s.pc ≠ .unread →
    s.entries = [] ∧ s.left = [] ∧ s.batch = false ∧ s.responses = [r]
  process : ∀ batch items, processJsonrpcRequest s.root = .process batch items → s.pc ≠ .unread →
    s.entries.map Entry.req ++ s.left = items ∧ s.batch = batch ∧ s.responses = s.entries.filterMap Entry.built
  registered : s.registered = s.entries.filterMap Entry.slot?
  linked : Linked s.slots s.entries
  noHandler : ∀ e ∈ s.entries, e.outcome = .noHandler → ∀ method, processOneRequest e.req ≠ .run method

/-- What is left of a request that has been processed is a function of its state. -/
def tree (s : ApiRequest) : Option Tree :=
  responseTree s.batch ((s.registered.filterMap fun i => s.slots[i]?).foldl finishSlot s.responses)

/-- Suspensions, resumptions and the response, by the place of the thread. -/
def Flow (s : ApiRequest) : Prop :=
  match s.pc with
  | .suspended => s.suspended = true ∧ s.suspensions = 1 ∧
      s.resumptions + s.resuming = (if s.outstanding = 0 then 1 else 0) ∧ s.queued = none
  | .answered => s.outstanding = 0 ∧ s.suspensions ≤ 1 ∧ s.resumptions = s.suspensions ∧ s.resuming = 0 ∧
      s.queued = some s.tree
  | _ => s.suspended = false ∧ s.suspensions = 0 ∧ s.resumptions = 0 ∧ s.resuming = 0 ∧ s.queued = none

structure Inv (s : ApiRequest) : Prop where
  counted : s.outstanding = s.openSends
  slots : SlotsOk s.pc s.slots s.registered
  flow : s.Flow
  content : s.Content

theorem inv_init (root : Option Json) : Inv (init root) where
  counted := rfl
  slots := ⟨by simp [init], by simp [init], by simp [init], by simp [init], List.nodup_nil⟩
  flow := by simp [Flow, init]
  content := {
    unread := fun _ => ⟨rfl, rfl, rfl⟩
    answer := fun r _ h => absurd rfl h
    process := fun batch items _ h => absurd rfl h
    registered := rfl
    linked := by simp [Linked, init]
    noHandler := by simp [init] }

section

variable {s t : ApiRequest} {req : Json} {todo : List Json}

/-- A request is through: its entry is added, and its response as it is built. -/
theorem Content.through (h : Content s) (outcome : Outcome) (hpc : s.pc ≠ .unread) (hleft : s.left = req :: todo)
    (hroot : t.root = s.root) (hbatch : t.batch = s.batch) (hresp : t.responses = s.responses)
    (hentries : t.entries = s.entries)
    (hreg : t.registered = s.registered ++ (Entry.slot? ⟨req, outcome⟩).toList)
    (hlinked : Linked t.slots (s.entries ++ [⟨req, outcome⟩]))
    (hno : outcome = .noHandler → ∀ method, processOneRequest req ≠ .run method) :
    Content (t.through req outcome todo (Entry.built ⟨req, outcome⟩)) where
  unread := by rintro ⟨⟩
  answer r hr _ := by
    obtain ⟨-, hnil, -⟩ := h.answer r (hroot ▸ hr) hpc
    rw [hleft] at hnil
    cases hnil
  process batch items hp _ := by
    obtain ⟨hitems, hb, hbuilt⟩ := h.process batch items (hroot ▸ hp) hpc
    rw [hleft] at hitems
    refine ⟨?_, hbatch.trans hb, ?_⟩
    · simpa [ApiRequest.through, left, hentries] using hitems
    · cases hb' : Entry.built ⟨req, outcome⟩ <;> simp [ApiRequest.through, hentries, hresp, hbuilt, hb']
  registered := by
    show t.registered = _
    rw [hreg, h.registered]
    cases hsl : Entry.slot? ⟨req, outcome⟩ <;> simp [ApiRequest.through, hentries, hsl]
  linked := by
    show Linked t.slots (t.entries ++ [⟨req, outcome⟩])
    rw [hentries]
    exact hlinked
  noHandler := by
    intro e he
    rw [ApiRequest.through, hentries] at he
    rcases List.mem_append.mp he with he | he
    · exact h.noHandler e he
    · cases List.mem_singleton.mp he
      exact hno

/-- The thread moves on and nothing is added. -/
theorem Content.move (h : Content s) (hpc : t.pc = .unread ↔ s.pc = .unread) (hleft : t.left = s.left)
    (hroot : t.root = s.root) (hbatch : t.batch = s.batch) (hresp : t.responses = s.responses)
    (hentries : t.entries = s.entries) (hreg : t.registered = s.registered) (hlinked : Linked t.slots s.entries) :
    Content t where
  unread hun := by
    rw [hbatch, hresp, hentries]
    exact h.unread (hpc.mp hun)
  answer r hr hun := by
    rw [hleft, hbatch, hresp, hentries]
    exact h.answer r (hroot ▸ hr) (mt hpc.mpr hun)
  process batch items hp hun := by
    rw [hleft, hbatch, hresp, hentries]
    exact h.process batch items (hroot ▸ hp) (mt hpc.mpr hun)
  registered := by rw [hreg, hentries, h.registered]
  linked := by rwa [hentries]
  noHandler := by
    rw [hentries]
    exact h.noHandler

theorem Inv.read (h : Inv s) (hpc : s.pc = .unread) : Inv s.read := by
  obtain ⟨hresp, hentries, hbatch⟩ := h.content.unread hpc
  have hflow := h.flow
  have hslots := h.slots
  rw [hpc] at hslots
  unfold ApiRequest.read
  cases hp : processJsonrpcRequest s.root with
  | answer r =>
    refine ⟨h.counted, hslots.free rfl rfl, by simpa [Flow, hpc] using hflow, ?_⟩
    refine ⟨by rintro ⟨⟩, fun r' hr' _ => ?_, fun b items hb => ?_, h.content.registered, h.content.linked,
      h.content.noHandler⟩
    · cases hp.symm.trans hr'
      exact ⟨hentries, rfl, hbatch, rfl⟩
    · cases hp.symm.trans hb
  | process batch items =>
    refine ⟨h.counted, hslots.free rfl rfl, by simpa [Flow, hpc] using hflow, ?_⟩
    refine ⟨by rintro ⟨⟩, fun r' hr' => ?_, fun b items' hb _ => ?_, h.content.registered, h.content.linked,
      h.content.noHandler⟩
    · cases hp.symm.trans hr'
    · cases hp.symm.trans hb
      exact ⟨by simp [hentries, left], rfl, by simp [hentries, hresp]⟩

/-- The request at the head of those left is through without a change to the slots. -/
theorem Inv.through (h : Inv s) (hpc : s.pc = .reading (req :: todo)) (outcome : Outcome)
    (hslot : Entry.slot? ⟨req, outcome⟩ = none)
    (hno : outcome = .noHandler → ∀ method, processOneRequest req ≠ .run method) :
    Inv (s.through req outcome todo (Entry.built ⟨req, outcome⟩)) where
  counted := h.counted
  slots := by
    have hslots := h.slots
    rw [hpc] at hslots
    exact hslots.free rfl rfl
  flow := by
    have hflow := h.flow
    simpa [Flow, ApiRequest.through, hpc] using hflow
  content := by
    refine h.content.through outcome (by simp [hpc]) (by simp [left, hpc]) rfl rfl rfl rfl (by simp [hslot]) ?_ hno
    refine h.content.linked.snoc fun slot allocated (hoc : outcome = _) => ?_
    simp [Entry.slot?, hoc] at hslot

theorem Inv.beginSend (h : Inv s) (hpc : s.pc = .reading (req :: todo)) :
    Inv { s with
      pc := .sending req todo s.slots.length
      outstanding := s.outstanding + 1
      slots := s.slots ++ [⟨.begun, false, none⟩] } := by
  have hslots := h.slots
  have hflow := h.flow
  rw [hpc] at hslots
  refine ⟨?_, hslots.append rfl req todo, by simpa [Flow, hpc] using hflow, ?_⟩
  · simp [openSends, h.counted, SendSlot.isOpen]
  · refine h.content.move (by simp [hpc]) (by simp [left, hpc]) rfl rfl rfl rfl rfl ?_
    refine h.content.linked.congr fun k _ x hx => ⟨x, ?_, rfl, rfl⟩
    rw [List.getElem?_append_left (List.getElem?_eq_some_iff.mp hx).1, hx]

variable {k : ℕ}

/-- A change of phase keeps the links. -/
theorem linked_setPhase (h : Inv s) (k : ℕ) (phase : SlotPhase) :
    Linked (s.setPhase k phase).slots s.entries := by
  refine h.content.linked.congr fun j _ y hy => ?_
  by_cases hkj : k = j
  · subst hkj
    exact ⟨_, getElem?_modify_self hy, rfl, rfl⟩
  · exact ⟨y, by rw [setPhase, getElem?_modify_ne hkj, hy], rfl, rfl⟩

/-- The count after a send that was open has changed its phase. -/
theorem openSends_setPhase {x : SendSlot} (hx : s.slots[k]? = some x) (hopen : x.isOpen = true) (phase : SlotPhase) :
    (s.setPhase k phase).openSends + 1 = s.openSends + if SendSlot.isOpen { x with phase := phase } then 1 else 0 := by
  have hcount := countP_modify (f := fun x : SendSlot => { x with phase := phase }) SendSlot.isOpen hx
  rwa [if_pos hopen] at hcount

theorem Inv.acceptSend (h : Inv s) (hpc : s.pc = .sending req todo k) :
    Inv { s.setPhase k .accepted with pc := .submitted req todo k } := by
  have hslots := h.slots
  have hflow := h.flow
  rw [hpc] at hslots
  obtain ⟨x, hx, hbegun⟩ := hslots.sending req todo k rfl
  have hcount := openSends_setPhase hx (by simp [SendSlot.isOpen, hbegun]) .accepted
  refine ⟨?_, hslots.accept, by simpa [Flow, hpc, setPhase] using hflow, ?_⟩
  · simp only [SendSlot.isOpen, if_true, Nat.add_right_cancel_iff] at hcount
    exact h.counted.trans (congrArg Nat.cast hcount.symm)
  · exact h.content.move (by simp [hpc]) (by simp [left, hpc]) rfl rfl rfl rfl rfl (linked_setPhase h k _)

theorem Inv.rejectSend (h : Inv s) (hpc : s.pc = .sending req todo k) (message : String) :
    Inv (s.rejectSend req todo k message) := by
  have hslots := h.slots
  have hflow := h.flow
  rw [hpc] at hslots
  obtain ⟨x, hx, hbegun⟩ := hslots.sending req todo k rfl
  have hcount := openSends_setPhase hx (by simp [SendSlot.isOpen, hbegun]) .rejected
  refine ⟨?_, hslots.reject, by simpa [Flow, hpc, ApiRequest.rejectSend, ApiRequest.through, setPhase] using hflow, ?_⟩
  · show s.outstanding - 1 = (s.setPhase k .rejected).openSends
    have hopen := h.counted
    simp only [SendSlot.isOpen, Bool.false_eq_true, if_false] at hcount
    omega
  · refine h.content.through (.replied ⟨none, some message⟩) (by simp [hpc]) (by simp [left, hpc]) rfl rfl rfl
      rfl (by simp [Entry.slot?, setPhase]) ?_ (by rintro ⟨⟩)
    exact (linked_setPhase h k _).snoc (by rintro _ _ ⟨⟩)

theorem Inv.endSend (h : Inv s) (hpc : s.pc = .submitted req todo k) (allocated : Bool) :
    Inv (s.endSend req todo k allocated) := by
  have hslots := h.slots
  have hflow := h.flow
  rw [hpc] at hslots
  obtain ⟨⟨x, hx, hsub⟩, hk⟩ := hslots.submitted req todo k rfl
  refine ⟨?_, hslots.register ?_, by simpa [Flow, hpc, ApiRequest.endSend, ApiRequest.through] using hflow, ?_⟩
  · have hcount := countP_modify
      (f := fun x => if req.isNotification then { x with placeholder := false, resp := none }
        else { x with placeholder := allocated, resp := some s.responses.length }) SendSlot.isOpen hx
    have hsame : SendSlot.isOpen (if req.isNotification then { x with placeholder := false, resp := none }
        else { x with placeholder := allocated, resp := some s.responses.length }) = x.isOpen := by
      split <;> rfl
    rw [hsame, Nat.add_right_cancel_iff] at hcount
    exact h.counted.trans (congrArg Nat.cast hcount.symm)
  · intro y
    split <;> rfl
  · refine h.content.through (.sent k allocated) (by simp [hpc]) (by simp [left, hpc]) rfl rfl rfl
      rfl rfl ?_ (by rintro ⟨⟩)
    rw [h.content.registered] at hk
    have hbuilt : s.responses = s.entries.filterMap Entry.built := by
      cases hp : processJsonrpcRequest s.root with
      | answer r =>
        obtain ⟨-, hleft, -⟩ := h.content.answer r hp (by simp [hpc])
        simp [left, hpc] at hleft
      | process batch items => exact (h.content.process batch items hp (by simp [hpc])).2.2
    refine (h.content.linked.congr fun j hj y hy => ⟨y, ?_, rfl, rfl⟩).snoc fun slot a hoc => ?_
    · rw [getElem?_modify_ne (ne_of_mem_of_not_mem hj hk).symm, hy]
    · cases hoc
      refine ⟨_, getElem?_modify_self hx, ?_⟩
      split <;> simp [*]

theorem Inv.finish (h : Inv s) (hpc : s.pc.slot? = none) (hun : s.pc ≠ .unread) (hleft : s.left = [])
    (hout : s.outstanding = 0) (hsus : s.suspensions ≤ 1) (hres : s.resumptions = s.suspensions)
    (hresuming : s.resuming = 0) : Inv s.finish :=
  ⟨h.counted, h.slots.free hpc rfl, ⟨hout, hsus, hres, hresuming, rfl⟩,
    h.content.move (by simp [ApiRequest.finish, hun]) (by rw [hleft]; rfl) rfl rfl rfl rfl rfl h.content.linked⟩

theorem Inv.endLoop (h : Inv s) (hpc : s.pc = .reading []) : Inv { s with pc := .processed } := by
  have hslots := h.slots
  have hflow := h.flow
  rw [hpc] at hslots
  refine ⟨h.counted, hslots.free rfl rfl, by simpa [Flow, hpc] using hflow, ?_⟩
  exact h.content.move (by simp [hpc]) (by simp [left, hpc]) rfl rfl rfl rfl rfl h.content.linked

theorem Inv.check (h : Inv s) (hpc : s.pc = .processed) : Inv s.check := by
  have hflow := h.flow
  simp only [Flow, hpc] at hflow
  obtain ⟨hsus, hsuspensions, hresumptions, hresuming, hqueued⟩ := hflow
  have hslots := h.slots
  rw [hpc] at hslots
  unfold ApiRequest.check
  split
  · next hpos =>
    refine ⟨h.counted, hslots.free rfl rfl, ?_, ?_⟩
    · simp [Flow, hsuspensions, hresumptions, hresuming, hqueued, hpos.ne']
    · exact h.content.move (by simp [hpc]) (by simp [left, hpc]) rfl rfl rfl rfl rfl h.content.linked
  · next hpos =>
    have hcounted := h.counted
    exact h.finish (by simp [hpc, HttpPc.slot?]) (by simp [hpc]) (by simp [left, hpc]) (by omega) (by omega)
      (by omega) hresuming

theorem Inv.finish_of_resumed (h : Inv s) (hpc : s.pc = .suspended) (hres : 0 < s.resumptions) : Inv s.finish := by
  have hflow := h.flow
  simp only [Flow, hpc] at hflow
  obtain ⟨-, hsuspensions, hsum, -⟩ := hflow
  split at hsum
  · exact h.finish (by simp [hpc, HttpPc.slot?]) (by simp [hpc]) (by simp [left, hpc]) ‹_› (by omega) (by omega)
      (by omega)
  · omega

/-- An open send is outstanding. -/
theorem Inv.outstanding_pos (h : Inv s) {x : SendSlot} (hx : s.slots[k]? = some x) (hopen : x.isOpen = true) :
    0 < s.outstanding := by
  have hpos : 0 < s.openSends := List.countP_pos_iff.mpr ⟨x, List.mem_of_getElem? hx, hopen⟩
  rw [h.counted]
  exact_mod_cast hpos

theorem Inv.complete (h : Inv s) {placeholder : Bool} {resp : Option ℕ}
    (hx : s.slots[k]? = some ⟨.accepted, placeholder, resp⟩) (rc : ℤ) (objectLen : ℕ) (invHash : Bytes) :
    Inv { s.setPhase k (.done rc objectLen invHash) with
      outstanding := s.outstanding - 1
      resuming := s.resuming + if s.outstanding - 1 = 0 ∧ s.suspended = true then 1 else 0 } := by
  have hpos := h.outstanding_pos hx rfl
  have hcount := openSends_setPhase hx rfl (.done rc objectLen invHash)
  have hflow := h.flow
  refine ⟨?_, h.slots.complete hx rfl rc objectLen invHash, ?_, ?_⟩
  · show s.outstanding - 1 = (s.setPhase k (.done rc objectLen invHash)).openSends
    have hopen := h.counted
    simp only [SendSlot.isOpen, Bool.false_eq_true, if_false] at hcount
    omega
  · cases hpc : s.pc with
    | suspended =>
      simp only [Flow, hpc, setPhase] at hflow ⊢
      obtain ⟨hsus, hone, hsum, hqueued⟩ := hflow
      rw [if_neg hpos.ne'] at hsum
      refine ⟨hsus, hone, ?_, hqueued⟩
      simp only [hsus, and_true]
      omega
    | answered =>
      simp only [Flow, hpc] at hflow
      exact absurd hflow.1 hpos.ne'
    | _ =>
      simp only [Flow, hpc, setPhase] at hflow ⊢
      simpa [hflow.1] using hflow.2
  · exact h.content.move Iff.rfl rfl rfl rfl rfl rfl rfl (linked_setPhase h k _)

theorem Inv.resume (h : Inv s) (hpos : 0 < s.resuming) :
    Inv { s with resuming := s.resuming - 1, resumptions := s.resumptions + 1 } := by
  have hflow := h.flow
  refine ⟨h.counted, h.slots, ?_, h.content.move Iff.rfl rfl rfl rfl rfl rfl rfl h.content.linked⟩
  cases hpc : s.pc with
  | suspended =>
    simp only [Flow, hpc] at hflow ⊢
    obtain ⟨hsus, hone, hsum, hqueued⟩ := hflow
    exact ⟨hsus, hone, by rw [← hsum]; omega, hqueued⟩
  | answered =>
    simp only [Flow, hpc] at hflow
    omega
  | _ =>
    simp only [Flow, hpc] at hflow
    omega

/-- Every action keeps the invariant. -/
theorem inv_step (s : ApiRequest) (l : ApiLabel) (t : ApiRequest) (h : Inv s) (hstep : s.step l = some t) : Inv t := by
  cases moves_of_step hstep with
  | read hpc => exact h.read hpc
  | through req todo outcome hpc hslot hno => exact h.through hpc outcome hslot hno
  | begin req todo hpc => exact h.beginSend hpc
  | accept req todo k hpc => exact h.acceptSend hpc
  | reject req todo k message hpc => exact h.rejectSend hpc message
  | register req todo k allocated hpc => exact h.endSend hpc allocated
  | endLoop hpc => exact h.endLoop hpc
  | check hpc => exact h.check hpc
  | finish hpc hres => exact h.finish_of_resumed hpc hres
  | complete k placeholder resp rc objectLen invHash hx => exact h.complete hx rc objectLen invHash
  | resume hpos => exact h.resume hpos

/-! ### Every run ends with a response -/

/-- The requests of a body that are processed one by one. -/
def planned (root : Option Json) : List Json :=
  match processJsonrpcRequest root with
  | .answer _ => []
  | .process _ items => items

/-- How far the thread still has to go. -/
def distance (s : ApiRequest) : ℕ :=
  match s.pc with
  | .unread => 10 * (planned s.root).length + 20
  | .reading todo => 10 * todo.length + 12
  | .sending _ todo _ => 10 * todo.length + 18
  | .submitted _ todo _ => 10 * todo.length + 16
  | .processed => 8
  | .suspended => 5
  | .answered => 0

/-- A bound on the actions to come: each open send can be completed, and its completion resumed. -/
def rank (s : ApiRequest) : ℕ := s.distance + 2 * s.openSends + s.resuming

/-- Every action lowers the rank. -/
theorem rank_step (s : ApiRequest) (l : ApiLabel) (t : ApiRequest) (h : Inv s) (hstep : s.step l = some t) :
    t.rank < s.rank := by
  have hslots := h.slots
  cases moves_of_step hstep with
  | read hpc =>
    unfold ApiRequest.read
    cases hp : processJsonrpcRequest s.root <;>
      simp [rank, distance, hpc, planned, hp, openSends]
  | through req todo outcome hpc =>
    simp [rank, distance, hpc, ApiRequest.through, openSends]
  | begin req todo hpc =>
    simp [rank, distance, hpc, openSends, SendSlot.isOpen]
    omega
  | accept req todo k hpc =>
    rw [hpc] at hslots
    obtain ⟨x, hx, hbegun⟩ := hslots.sending req todo k rfl
    have hcount := openSends_setPhase hx (by simp [SendSlot.isOpen, hbegun]) .accepted
    simp only [SendSlot.isOpen, if_true, Nat.add_right_cancel_iff] at hcount
    show 10 * todo.length + 16 + 2 * (s.setPhase k .accepted).openSends + s.resuming < s.rank
    simp only [rank, distance, hpc]
    omega
  | reject req todo k message hpc =>
    rw [hpc] at hslots
    obtain ⟨x, hx, hbegun⟩ := hslots.sending req todo k rfl
    have hcount := openSends_setPhase hx (by simp [SendSlot.isOpen, hbegun]) .rejected
    simp only [SendSlot.isOpen, Bool.false_eq_true, if_false] at hcount
    show 10 * todo.length + 12 + 2 * (s.setPhase k .rejected).openSends + s.resuming < s.rank
    simp only [rank, distance, hpc]
    omega
  | register req todo k allocated hpc =>
    have hcount := (h.endSend hpc allocated).counted.symm.trans h.counted
    show 10 * todo.length + 12 + 2 * (s.endSend req todo k allocated).openSends + s.resuming < s.rank
    simp only [rank, distance, hpc]
    omega
  | endLoop hpc =>
    simp [rank, distance, hpc, openSends]
  | check hpc =>
    unfold ApiRequest.check
    split <;> simp [rank, distance, hpc, openSends, ApiRequest.finish]
  | finish hpc hres =>
    simp [rank, distance, hpc, openSends, ApiRequest.finish]
  | complete k placeholder resp rc objectLen invHash hx =>
    have hcount := openSends_setPhase hx rfl (.done rc objectLen invHash)
    simp only [SendSlot.isOpen, Bool.false_eq_true, if_false] at hcount
    show s.distance + 2 * (s.setPhase k (.done rc objectLen invHash)).openSends +
      (s.resuming + if s.outstanding - 1 = 0 ∧ s.suspended = true then 1 else 0) < s.rank
    unfold rank
    split <;> omega
  | resume hpos =>
    show s.distance + 2 * s.openSends + (s.resuming - 1) < s.distance + 2 * s.openSends + s.resuming
    omega

/-- Only a request that is answered cannot go on. -/
theorem Inv.answered_of_stuck (h : Inv s) (hstuck : ∀ l, s.step l = none) : s.pc = .answered := by
  cases hpc : s.pc with
  | answered => rfl
  | unread =>
    have hread := hstuck .read
    simp [step, hpc] at hread
  | reading todo =>
    cases todo with
    | nil =>
      have hend := hstuck .endLoop
      simp [step, hpc] at hend
    | cons req todo =>
      have hprocess := hstuck (.process ⟨none, none⟩)
      have hbegin := hstuck .beginSend
      simp only [step, hpc, ApiRequest.process] at hprocess
      simp only [step, hpc, ApiRequest.beginSend] at hbegin
      cases hp : processOneRequest req with
      | respond r => simp [hp] at hprocess
      | ignore => simp [hp] at hprocess
      | run method => cases hsend : isSendMethod method <;> simp [hp, hsend] at hprocess hbegin
  | sending req todo k =>
    have haccept := hstuck .acceptSend
    simp [step, hpc] at haccept
  | submitted req todo k =>
    have hend := hstuck (.endSend true)
    simp [step, hpc] at hend
  | processed =>
    have hcheck := hstuck .check
    simp [step, hpc] at hcheck
  | suspended =>
    have hflow := h.flow
    simp only [Flow, hpc] at hflow
    obtain ⟨-, -, hsum, -⟩ := hflow
    by_cases hout : s.outstanding = 0
    · have hfinish := hstuck .finish
      have hresume := hstuck .resume
      simp only [step, hpc, ite_eq_right_iff, reduceCtorEq, imp_false] at hfinish hresume
      rw [if_pos hout] at hsum
      omega
    · have hcounted := h.counted
      have hpos : 0 < s.openSends := by omega
      obtain ⟨x, hmem, hopen⟩ := List.countP_pos_iff.mp hpos
      obtain ⟨k, hx⟩ := List.getElem?_of_mem hmem
      obtain ⟨phase, placeholder, resp⟩ := x
      cases phase with
      | begun =>
        obtain ⟨req, todo, hpc'⟩ := h.slots.begun k _ hx rfl
        rw [hpc] at hpc'
        cases hpc'
      | accepted =>
        have hcomplete := hstuck (.complete k 0 0 [])
        simp [step, ApiRequest.complete, hx] at hcomplete
      | rejected => cases hopen
      | done rc objectLen invHash => cases hopen

theorem root_step {l : ApiLabel} (hstep : s.step l = some t) : t.root = s.root := by
  cases moves_of_step hstep with
  | read hpc =>
    unfold ApiRequest.read
    split <;> rfl
  | check hpc =>
    unfold ApiRequest.check
    split <;> rfl
  | _ => rfl

/-- A run of a body keeps the invariant and the body. -/
theorem inv_run {root : Option Json} {ls : List ApiLabel} (h : Transition.run step (init root) ls = some s) :
    s.root = root ∧ Inv s :=
  Transition.run_invariant (I := fun s => s.root = root ∧ Inv s)
    (fun s l t hs ht => ⟨(root_step ht).trans hs.1, inv_step s l t hs.2 ht⟩) ⟨rfl, inv_init root⟩ h

end

/-- The response answers the body: every request in it that is no notification, in order and under its
identifier, with the result of its own handler. -/
def Matches (s : ApiRequest) (tree : Option Tree) : Prop :=
  match processJsonrpcRequest s.root with
  | .answer r => tree = some (.single r)
  | .process batch items =>
    s.entries.map Entry.req = items ∧ (s.entries.filterMap Entry.slot?).Nodup ∧
      (∀ e ∈ s.entries, e.Settled s.slots) ∧
      tree = responseTree batch ((s.entries.filter fun e => !e.req.isNotification).map (Entry.answer s.slots))

/-- When nothing is outstanding the sends that were registered are done. -/
theorem Inv.settled {s : ApiRequest} (h : Inv s) (hout : s.outstanding = 0) : ∀ e ∈ s.entries, e.Settled s.slots := by
  intro e he
  unfold Entry.Settled
  cases hoc : e.outcome with
  | noHandler => exact h.content.noHandler e he hoc
  | replied reply => trivial
  | sent slot allocated =>
    have hreg : slot ∈ s.registered := by
      rw [h.content.registered]
      exact List.mem_filterMap.mpr ⟨e, he, by simp [Entry.slot?, hoc]⟩
    obtain ⟨x, hx, hsub⟩ := h.slots.registered slot hreg
    cases hphase : x.phase with
    | begun => simp [SendSlot.isSubmitted, hphase] at hsub
    | rejected => simp [SendSlot.isSubmitted, hphase] at hsub
    | accepted => exact absurd hout (h.outstanding_pos hx (by simp [SendSlot.isOpen, hphase])).ne'
    | done rc objectLen invHash => exact ⟨x, rc, objectLen, invHash, hx, hphase⟩

/-- The tree that is queued answers the body. -/
theorem Inv.matches_tree {s : ApiRequest} (h : Inv s) (hpc : s.pc = .answered) (hout : s.outstanding = 0) :
    s.Matches s.tree := by
  have hun : s.pc ≠ .unread := by simp [hpc]
  unfold Matches
  cases hp : processJsonrpcRequest s.root with
  | answer r =>
    obtain ⟨hentries, -, hbatch, hresp⟩ := h.content.answer r hp hun
    simp [tree, h.content.registered, hentries, hbatch, hresp, responseTree]
  | process batch items =>
    obtain ⟨hitems, hbatch, hresp⟩ := h.content.process batch items hp hun
    have hsettled := h.settled hout
    have hreg := h.content.registered
    refine ⟨by simpa [left, hpc] using hitems, hreg ▸ h.slots.nodup, hsettled, ?_⟩
    rw [tree, hbatch, hresp, hreg, foldl_finishSlot h.content.linked, filled_eq_answer h.content.linked hsettled]

/-- In every run of a body the count of outstanding sends is right, the connection is resumed exactly when it is
suspended and the last send is through, and the response is queued after that and matches the body. The run
is bounded, and a run that cannot go on has queued its response. -/
theorem response_complete {root : Option Json} {ls : List ApiLabel} {s : ApiRequest}
    (h : Transition.run step (init root) ls = some s) :
    s.outstanding = s.openSends ∧ s.suspensions ≤ 1 ∧
      s.resumptions + s.resuming = (if s.suspensions = 1 ∧ s.outstanding = 0 then 1 else 0) ∧
      (∀ tree, s.queued = some tree →
        s.outstanding = 0 ∧ s.resumptions = s.suspensions ∧ s.root = root ∧ s.Matches tree) ∧
      ls.length ≤ 10 * (planned root).length + 20 ∧ ((∀ l, s.step l = none) → s.queued.isSome) := by
  obtain ⟨hroot, hinv⟩ := inv_run h
  have hlength := Transition.length_add_rank_le inv_step rank_step (inv_init root) h
  have hbound : ls.length ≤ 10 * (planned root).length + 20 := by
    have hrank : (init root).rank = 10 * (planned root).length + 20 := by simp [rank, distance, init, openSends]
    omega
  have hflow := hinv.flow
  refine ⟨hinv.counted, ?_⟩
  cases hpc : s.pc with
  | answered =>
    simp only [Flow, hpc] at hflow
    obtain ⟨hout, hone, hres, hresuming, hqueued⟩ := hflow
    refine ⟨hone, ?_, fun tree htree => ?_, hbound, fun _ => by simp [hqueued]⟩
    · rw [hres, hresuming]
      split <;> omega
    · cases hqueued.symm.trans htree
      exact ⟨hout, hres, hroot, hinv.matches_tree hpc hout⟩
  | suspended =>
    simp only [Flow, hpc] at hflow
    obtain ⟨-, hone, hsum, hqueued⟩ := hflow
    refine ⟨hone.le, by simp [hsum, hone], by simp [hqueued], hbound, fun hstuck => ?_⟩
    cases hpc.symm.trans (hinv.answered_of_stuck hstuck)
  | _ =>
    simp only [Flow, hpc] at hflow
    obtain ⟨-, hsus, hres, hresuming, hqueued⟩ := hflow
    refine ⟨by omega, by simp [hsus, hres, hresuming], by simp [hqueued], hbound, fun hstuck => ?_⟩
    cases hpc.symm.trans (hinv.answered_of_stuck hstuck)

/-- A send, a notification that sends, and an element that is no object. -/
def mixedBatch : List Json :=
  [.object [("id", .string "a"), ("method", .string "sendMessage")], .object [("method", .string "sendBroadcast")], .null]

/-- The notification completes while the batch is read; the message fails after the connection was suspended. -/
def mixedLabels : List ApiLabel :=
  [.read, .beginSend, .acceptSend, .endSend true, .beginSend, .acceptSend, .complete 1 0 3 [], .endSend true,
    .process ⟨none, none⟩, .endLoop, .check, .complete 0 (-1) 0 [], .resume, .finish]

theorem mixed_batch_complete : ∃ s tree, Transition.run step (init (some (.array mixedBatch))) mixedLabels = some s ∧
    s.queued = some tree ∧ s.suspensions = 1 ∧ s.resumptions = s.suspensions ∧ s.Matches tree ∧
    tree = some (.batch [⟨.string "a", .error errServer sendFailedAfterQueued⟩,
      buildResponse none none errInvalidRequest (some "Invalid request: not a JSON object")]) := by
  have hrun : Transition.run step (init (some (.array mixedBatch))) mixedLabels = some _ := rfl
  obtain ⟨-, -, -, hqueued, -⟩ := response_complete hrun
  obtain ⟨-, hresumed, -, hmatches⟩ := hqueued _ rfl
  exact ⟨_, _, hrun, rfl, rfl, hresumed, hmatches, rfl⟩

/-- The response objects of a tree. -/
def treeResponses : Option Tree → List Response
  | none => []
  | some (.single r) => [r]
  | some (.batch rs) => rs

/-- A request whose identifier is neither a string nor a number. -/
def booleanIdBatch : List Json := [.object [("id", .bool true)]]

/-- An identifier that is a boolean is answered by null, and the empty batch is answered by one object. -/
theorem id_not_repeated :
    (∃ s tree, Transition.run step (init (some (.array booleanIdBatch)))
        [.read, .process ⟨none, none⟩, .endLoop, .check] = some s ∧ s.queued = some tree ∧
      (treeResponses tree).map Response.id ≠
        (booleanIdBatch.filter fun req => !req.isNotification).map fun req => (req.get? "id").getD .null) ∧
    ∃ s tree, Transition.run step (init (some (.array []))) [.read, .check] = some s ∧ s.queued = some tree ∧
      (treeResponses tree).length ≠ (([] : List Json).filter fun req => !req.isNotification).length := by
  constructor
  · refine ⟨_, _, rfl, rfl, ?_⟩
    rintro ⟨⟩
  · refine ⟨_, _, rfl, rfl, ?_⟩
    rintro ⟨⟩

end ApiRequest

end Bitmessage
