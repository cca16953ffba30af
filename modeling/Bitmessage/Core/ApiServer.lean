import Bitmessage.Common.Bytes
import Bitmessage.Core.JsonRpc
import Bitmessage.Lib.Transition

/-! One request to the API server. The HTTP thread processes the body; a send counts
itself among the outstanding ones before it is submitted, and its result is filled into
the response after its completion, which a worker thread reports through
`api_send_done`. When sends are outstanding after the body has been processed the
connection is suspended, and the last completion resumes it. The mutex of the request
makes each of these actions atomic; the completions may come at any time after the
submission, in any order. A run of `step` is one interleaving.

The sends themselves and the other handlers are outside: the labels say what they
return. A connection that is suspended is served again only after it was resumed. The
entries, the suspensions and the resumptions record the history. -/

namespace Bitmessage

/-- `BM_API_SEND_FAILED_AFTER_QUEUED`. -/
def sendFailedAfterQueued : String := "send failed after its PoW was queued (is the daemon shutting down?)"

/-- Where a send is, between `send_slot_begin` and `api_send_done`. -/
inductive SlotPhase where
  | begun
  | accepted
  | rejected
  | done (rc : ℤ) (objectLen : ℕ) (invHash : Bytes)

/-- `struct api_send_slot`. `resp` is the place of the response among those built; `placeholder` tells
whether its result is there to be filled. -/
structure SendSlot where
  phase : SlotPhase
  placeholder : Bool
  resp : Option ℕ

/-- The send is counted in `outstanding`. -/
def SendSlot.isOpen (slot : SendSlot) : Bool :=
  match slot.phase with
  | .begun | .accepted => true
  | .rejected | .done _ _ _ => false

/-- How the handler of a request has ended: there was none, it replied, or it has sent and its result
was allocated or not. -/
inductive Outcome where
  | noHandler
  | replied (reply : HandlerReply)
  | sent (slot : ℕ) (allocated : Bool)

/-- A request that has been processed. -/
structure Entry where
  req : Json
  outcome : Outcome

/-- The response tree: an object or an array of them. -/
inductive Tree where
  | single (r : Response)
  | batch (rs : List Response)

/-- Where the HTTP thread is in `api_access_handler`. -/
inductive HttpPc where
  | unread
  /-- in the loop of `process_jsonrpc_request` -/
  | reading (todo : List Json)
  /-- in a handler, between `send_slot_begin` and the submission -/
  | sending (req : Json) (todo : List Json) (slot : ℕ)
  /-- in a handler whose send was accepted -/
  | submitted (req : Json) (todo : List Json) (slot : ℕ)
  | processed
  | suspended
  | answered

/-- `struct api_request_ctx` and `struct api_async_state`. -/
structure ApiRequest where
  root : Option Json
  pc : HttpPc
  batch : Bool
  responses : List Response
  outstanding : ℤ
  suspended : Bool
  slots : List SendSlot
  /-- `state->slots`, in the order of registration -/
  registered : List ℕ
  /-- threads that are about to call `MHD_resume_connection` -/
  resuming : ℕ
  queued : Option (Option Tree)
  entries : List Entry
  suspensions : ℕ
  resumptions : ℕ

inductive ApiLabel where
  /-- the HTTP thread parses the body -/
  | read
  /-- and processes the next request, whose handler, if any, does not get as far as a send -/
  | process (reply : HandlerReply)
  /-- `send_slot_begin` -/
  | beginSend
  /-- the submission is accepted -/
  | acceptSend
  /-- or refused, and `send_slot_end` takes the count back -/
  | rejectSend (message : String)
  /-- `send_slot_end` after an accepted submission; the allocation of the result may fail -/
  | endSend (allocated : Bool)
  /-- the last request is through -/
  | endLoop
  /-- the HTTP thread looks at the outstanding sends -/
  | check
  /-- it is called again after the connection was resumed -/
  | finish
  /-- `api_send_done` up to the end of its critical section -/
  | complete (slot : ℕ) (rc : ℤ) (objectLen : ℕ) (invHash : Bytes)
  /-- `MHD_resume_connection` -/
  | resume

/-- `hex_encode`. -/
def hexEncode (bytes : Bytes) : String :=
  String.ofList (bytes.flatMap fun b => [Nat.digitChar (b.toNat / 16), Nat.digitChar (b.toNat % 16)])

/-- `fill_send_result`. -/
def fillSendResult (objectLen : ℕ) (invHash : Bytes) : Json :=
  .object [("objectLength", .number objectLen), ("inventoryHash", .string (hexEncode invHash))]

/-- What `finish_async_response` makes of the response of a send. -/
def SendSlot.fill (slot : SendSlot) (r : Response) : Response :=
  match slot.phase with
  | .done rc objectLen invHash =>
    if rc = 0 then if slot.placeholder then { r with body := .result (fillSendResult objectLen invHash) } else r
    else { r with body := .error errServer sendFailedAfterQueued }
  | _ => r

/-- The turn of a slot in the loop of `finish_async_response`. -/
def finishSlot (responses : List Response) (slot : SendSlot) : List Response :=
  match slot.resp with
  | some i => responses.modify i slot.fill
  | none => responses

/-- The tree of the responses, if there is one. -/
def responseTree (batch : Bool) (responses : List Response) : Option Tree :=
  if batch then if responses.isEmpty then none else some (.batch responses)
  else responses.head?.map .single

namespace ApiRequest

def init (root : Option Json) : ApiRequest where
  root := root
  pc := .unread
  batch := false
  responses := []
  outstanding := 0
  suspended := false
  slots := []
  registered := []
  resuming := 0
  queued := none
  entries := []
  suspensions := 0
  resumptions := 0

/-- A request is through, with a response or without. -/
def through (s : ApiRequest) (req : Json) (outcome : Outcome) (todo : List Json) (r : Option Response) : ApiRequest :=
  { s with pc := .reading todo, responses := s.responses ++ r.toList, entries := s.entries ++ [⟨req, outcome⟩] }

def read (s : ApiRequest) : ApiRequest :=
  match processJsonrpcRequest s.root with
  | .answer r => { s with pc := .processed, responses := [r] }
  | .process batch items => { s with pc := .reading items, batch := batch }

/-- A request that does not send. The handlers of sends reply with an error only. -/
def process (s : ApiRequest) (req : Json) (todo : List Json) (reply : HandlerReply) : Option ApiRequest :=
  match processOneRequest req with
  | .respond r => some (s.through req .noHandler todo (some r))
  | .ignore => some (s.through req .noHandler todo none)
  | .run method =>
    if isSendMethod method && (reply.result.isSome || reply.error.isNone) then none
    else some (s.through req (.replied reply) todo (handlerResponse req reply))

def beginSend (s : ApiRequest) (req : Json) (todo : List Json) : Option ApiRequest :=
  match processOneRequest req with
  | .run method =>
    if isSendMethod method then
      some { s with
        pc := .sending req todo s.slots.length
        outstanding := s.outstanding + 1
        slots := s.slots ++ [⟨.begun, false, none⟩] }
    else none
  | _ => none

def setPhase (s : ApiRequest) (slot : ℕ) (phase : SlotPhase) : ApiRequest :=
  { s with slots := s.slots.modify slot fun x => { x with phase := phase } }

def rejectSend (s : ApiRequest) (req : Json) (todo : List Json) (slot : ℕ) (message : String) : ApiRequest :=
  { s.setPhase slot .rejected with outstanding := s.outstanding - 1 }.through req (.replied ⟨none, some message⟩) todo
    (handlerResponse req ⟨none, some message⟩)

/-- The result of an accepted send: an object to be filled, if it could be allocated. -/
def emptyResult (allocated : Bool) : HandlerReply := ⟨if allocated then some (.object []) else none, none⟩

def endSend (s : ApiRequest) (req : Json) (todo : List Json) (slot : ℕ) (allocated : Bool) : ApiRequest :=
  { s with
    slots := s.slots.modify slot fun x =>
      if req.isNotification then { x with placeholder := false, resp := none }
      else { x with placeholder := allocated, resp := some s.responses.length }
    registered := s.registered ++ [slot] }.through req (.sent slot allocated) todo
      (handlerResponse req (emptyResult allocated))

/-- `finish_async_response`. -/
def finish (s : ApiRequest) : ApiRequest :=
  { s with
    pc := .answered
    suspended := false
    queued := some (responseTree s.batch ((s.registered.filterMap fun i => s.slots[i]?).foldl finishSlot s.responses)) }

/-- The end of `api_access_handler`. -/
def check (s : ApiRequest) : ApiRequest :=
  if 0 < s.outstanding then { s with pc := .suspended, suspended := true, suspensions := s.suspensions + 1 }
  else s.finish

/-- `api_send_done`. -/
def complete (s : ApiRequest) (slot : ℕ) (rc : ℤ) (objectLen : ℕ) (invHash : Bytes) : Option ApiRequest :=
  match s.slots[slot]? with
  | some ⟨.accepted, _, _⟩ =>
    some { s.setPhase slot (.done rc objectLen invHash) with
      outstanding := s.outstanding - 1
      resuming := s.resuming + if s.outstanding - 1 = 0 ∧ s.suspended = true then 1 else 0 }
  | _ => none

/-- One action of one thread. -/
def step (s : ApiRequest) : ApiLabel → Option ApiRequest
  | .read =>
    match s.pc with
    | .unread => some s.read
    | _ => none
  | .process reply =>
    match s.pc with
    | .reading (req :: todo) => s.process req todo reply
    | _ => none
  | .beginSend =>
    match s.pc with
    | .reading (req :: todo) => s.beginSend req todo
    | _ => none
  | .acceptSend =>
    match s.pc with
    | .sending req todo slot => some { s.setPhase slot .accepted with pc := .submitted req todo slot }
    | _ => none
  | .rejectSend message =>
    match s.pc with
    | .sending req todo slot => some (s.rejectSend req todo slot message)
    | _ => none
  | .endSend allocated =>
    match s.pc with
    | .submitted req todo slot => some (s.endSend req todo slot allocated)
    | _ => none
  | .endLoop =>
    match s.pc with
    | .reading [] => some { s with pc := .processed }
    | _ => none
  | .check =>
    match s.pc with
    | .processed => some s.check
    | _ => none
  | .finish =>
    match s.pc with
    | .suspended => if 0 < s.resumptions then some s.finish else none
    | _ => none
  | .complete slot rc objectLen invHash => s.complete slot rc objectLen invHash
  | .resume => if 0 < s.resuming then some { s with resuming := s.resuming - 1, resumptions := s.resumptions + 1 } else none

/-- The number of sends that have begun and are neither rejected nor completed. -/
def openSends (s : ApiRequest) : ℕ := s.slots.countP SendSlot.isOpen

end ApiRequest

/-! ### What the responses say -/

def Entry.slot? (e : Entry) : Option ℕ :=
  match e.outcome with
  | .sent slot _ => some slot
  | _ => none

/-- The result or the error that answers a request, given what has become of the sends. -/
def Entry.body (slots : List SendSlot) (e : Entry) : ResponseBody :=
  match e.outcome with
  | .noHandler =>
    match processOneRequest e.req with
    | .respond r => r.body
    | _ => .result .null
  | .replied reply => (buildResponse none reply.result errServer reply.error).body
  | .sent slot allocated =>
    match slots[slot]?.map SendSlot.phase with
    | some (.done rc objectLen invHash) =>
      if rc = 0 then .result (if allocated then fillSendResult objectLen invHash else .null)
      else .error errServer sendFailedAfterQueued
    | _ => .result .null

/-- The response to a request, under the identifier of the request. -/
def Entry.answer (slots : List SendSlot) (e : Entry) : Response := ⟨responseId (e.req.get? "id"), e.body slots⟩

/-- The response as it is built when the request is processed. -/
def Entry.built (e : Entry) : Option Response :=
  match e.outcome with
  | .noHandler =>
    match processOneRequest e.req with
    | .respond r => some r
    | _ => none
  | .replied reply => handlerResponse e.req reply
  | .sent _ allocated => handlerResponse e.req (ApiRequest.emptyResult allocated)

/-- The response after the turn of the own slot. -/
def Entry.filled (slots : List SendSlot) (e : Entry) : Option Response :=
  match e.outcome with
  | .sent slot _ => e.built.map ((slots[slot]?.map SendSlot.fill).getD id)
  | _ => e.built

/-- The slots of the sends point to their responses. -/
def Linked (slots : List SendSlot) (entries : List Entry) : Prop :=
  ∀ before e after slot allocated, entries = before ++ e :: after → e.outcome = .sent slot allocated →
    ∃ x, slots[slot]? = some x ∧
      if e.req.isNotification then x.resp = none
      else x.resp = some (before.filterMap Entry.built).length ∧ x.placeholder = allocated

section

variable {slots : List SendSlot} {entries : List Entry}

theorem Linked.left {entries' : List Entry} (h : Linked slots (entries ++ entries')) : Linked slots entries := by
  intro before e after slot allocated he
  exact h before e (after ++ entries') slot allocated (by rw [he, List.append_assoc]; rfl)

theorem isSome_filled (slots : List SendSlot) (e : Entry) : (e.filled slots).isSome = e.built.isSome := by
  unfold Entry.filled
  split <;> simp

theorem length_filterMap_filled (slots : List SendSlot) (entries : List Entry) :
    (entries.filterMap (Entry.filled slots)).length = (entries.filterMap Entry.built).length := by
  induction entries with
  | nil => rfl
  | cons e entries ih =>
    have he := isSome_filled slots e
    cases hb : e.built with
    | none =>
      rw [hb, Option.isSome_none, Option.isSome_eq_false_iff, Option.isNone_iff_eq_none] at he
      simpa [hb, he] using ih
    | some r =>
      rw [hb, Option.isSome_some] at he
      obtain ⟨r', hr'⟩ := Option.isSome_iff_exists.mp he
      simpa [hb, hr'] using ih

theorem modify_append_of_lt {α : Type*} (f : α → α) {front : List α} {i : ℕ} (h : i < front.length) (back : List α) :
    (front ++ back).modify i f = front.modify i f ++ back := by
  refine List.ext_getElem? fun j => ?_
  by_cases hj : j < front.length
  · rw [List.getElem?_modify, List.getElem?_append_left hj, List.getElem?_append_left (by simpa using hj),
      List.getElem?_modify]
  · have hne : i ≠ j := by omega
    rw [List.getElem?_modify, List.getElem?_append_right (by omega), List.getElem?_append_right (by simpa using hj)]
    simp [hne]

theorem modify_append_length {α : Type*} (f : α → α) (front : List α) (a : α) :
    (front ++ [a]).modify front.length f = front ++ [f a] := by
  simp [List.modify_eq_take_drop]

/-- Slots that point into the front leave the back alone. -/
theorem foldl_finishSlot_append {xs : List SendSlot} {front back : List Response}
    (h : ∀ x ∈ xs, ∀ i ∈ x.resp, i < front.length) :
    xs.foldl finishSlot (front ++ back) = xs.foldl finishSlot front ++ back := by
  induction xs generalizing front with
  | nil => rfl
  | cons x xs ih =>
    have hx := h x List.mem_cons_self
    have hstep : finishSlot (front ++ back) x = finishSlot front x ++ back := by
      unfold finishSlot
      cases hr : x.resp with
      | none => rfl
      | some i => exact modify_append_of_lt _ (hx i hr) back
    rw [List.foldl_cons, List.foldl_cons, hstep, ih]
    intro y hy i hi
    have hlen : (finishSlot front x).length = front.length := by
      unfold finishSlot
      split <;> simp
    rw [hlen]
    exact h y (List.mem_cons_of_mem _ hy) i hi

/-- The slots that have a response point to one of those built. -/
theorem Linked.resp_lt (h : Linked slots entries) :
    ∀ x ∈ (entries.filterMap Entry.slot?).filterMap (fun i => slots[i]?), ∀ i ∈ x.resp,
      i < (entries.filterMap Entry.built).length := by
  intro x hx i hi
  obtain ⟨slot, hslot, hx⟩ := List.mem_filterMap.mp hx
  obtain ⟨e, he, hout⟩ := List.mem_filterMap.mp hslot
  obtain ⟨before, after, rfl⟩ := List.append_of_mem he
  cases hoc : e.outcome with
  | noHandler => simp [Entry.slot?, hoc] at hout
  | replied reply => simp [Entry.slot?, hoc] at hout
  | sent slot' allocated =>
    simp only [Entry.slot?, hoc, Option.some.injEq] at hout
    subst hout
    obtain ⟨y, hy, hlink⟩ := h before e after slot' allocated rfl hoc
    cases hy.symm.trans hx
    split at hlink
    · rw [hlink] at hi
      cases hi
    · next hnot =>
      rw [hlink.1] at hi
      cases hi
      simp [List.filterMap_append, Entry.built, hoc, handlerResponse, hnot]

/-- The loop of `finish_async_response` fills every response from its own slot. -/
theorem foldl_finishSlot (h : Linked slots entries) :
    ((entries.filterMap Entry.slot?).filterMap fun i => slots[i]?).foldl finishSlot (entries.filterMap Entry.built) =
      entries.filterMap (Entry.filled slots) := by
  induction entries using List.reverseRecOn with
  | nil => rfl
  | append_singleton entries e ih =>
    have ih := ih h.left
    have hlt := h.left.resp_lt
    have hlen := length_filterMap_filled slots entries
    simp only [List.filterMap_append, List.foldl_append]
    cases hoc : e.outcome with
    | noHandler =>
      have hsame : e.filled slots = e.built := by simp [Entry.filled, hoc]
      rw [foldl_finishSlot_append hlt, ih]
      simp [Entry.slot?, hoc, List.filterMap_cons, hsame]
    | replied reply =>
      have hsame : e.filled slots = e.built := by simp [Entry.filled, hoc]
      rw [foldl_finishSlot_append hlt, ih]
      simp [Entry.slot?, hoc, List.filterMap_cons, hsame]
    | sent slot allocated =>
      obtain ⟨x, hx, hlink⟩ := h entries e [] slot allocated rfl hoc
      rw [foldl_finishSlot_append hlt, ih]
      split at hlink
      · next hnot => simp [Entry.slot?, Entry.filled, Entry.built, hoc, hx, handlerResponse, hnot, finishSlot, hlink]
      · next hnot =>
        simp [Entry.slot?, Entry.filled, Entry.built, hoc, hx, handlerResponse, hnot, finishSlot, hlink.1, ← hlen,
          modify_append_length]

/-- The request got as far as its outcome says, and its send is done. -/
def Entry.Settled (slots : List SendSlot) (e : Entry) : Prop :=
  match e.outcome with
  | .noHandler => ∀ method, processOneRequest e.req ≠ .run method
  | .replied _ => True
  | .sent slot _ => ∃ x rc objectLen invHash, slots[slot]? = some x ∧ x.phase = .done rc objectLen invHash

/-- What was filled in is the answer to the request. -/
theorem Entry.Settled.filled_eq {before after : List Entry} {e : Entry} (h : Linked slots (before ++ e :: after))
    (hs : e.Settled slots) :
    e.filled slots = if e.req.isNotification then none else some (e.answer slots) := by
  unfold Entry.Settled at hs
  unfold Entry.answer
  cases hoc : e.outcome with
  | noHandler =>
    simp only [hoc] at hs
    cases hp : processOneRequest e.req with
    | respond r =>
      obtain ⟨hid, hnot⟩ := id_of_respond hp
      simp [Entry.filled, Entry.built, Entry.body, hoc, hp, hnot, ← hid]
    | ignore => simp [Entry.filled, Entry.built, hoc, hp, isNotification_of_ignore hp]
    | run method => exact absurd hp (hs method)
  | replied reply => simp [Entry.filled, Entry.built, Entry.body, hoc, handlerResponse, buildResponse]
  | sent slot allocated =>
    simp only [hoc] at hs
    obtain ⟨x, rc, objectLen, invHash, hx, hphase⟩ := hs
    obtain ⟨y, hy, hlink⟩ := h before e after slot allocated rfl hoc
    cases hy.symm.trans hx
    split at hlink
    · next hnot => simp [Entry.filled, Entry.built, hoc, handlerResponse, hnot]
    · next hnot =>
      by_cases hrc : rc = 0 <;> cases allocated <;>
        simp [Entry.filled, Entry.built, Entry.body, hoc, handlerResponse, hnot, hx, hphase, hrc, SendSlot.fill,
          hlink.2, buildResponse, ApiRequest.emptyResult]

theorem filled_eq_answer (h : Linked slots entries) (hs : ∀ e ∈ entries, e.Settled slots) :
    entries.filterMap (Entry.filled slots) =
      (entries.filter fun e => !e.req.isNotification).map (Entry.answer slots) := by
  induction entries using List.reverseRecOn with
  | nil => rfl
  | append_singleton entries e ih =>
    have ih := ih h.left fun e' he' => hs e' (List.mem_append_left _ he')
    have he := (hs e (by simp)).filled_eq h
    rw [List.filterMap_append, List.filter_append, List.map_append, ih]
    cases hnot : e.req.isNotification <;> simp [he, hnot]

end

end Bitmessage
