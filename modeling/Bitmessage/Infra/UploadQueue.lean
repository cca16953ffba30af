import Bitmessage.Infra.Handshake
import Bitmessage.Lib.SlidingBuffer

/-! The objects that a peer has asked for. A `getdata` puts the hashes that still find room behind
the others that wait, and a refill processes them from the front while little is queued for the
connection; when the connection is to be closed, or a packet cannot be queued, the rest is given up.
The hashes wait in an array with a moving head. -/

namespace Bitmessage

open Transition

/-- `BM_UPLOAD_REFILL_THRESHOLD_BYTES`. -/
def uploadRefillThresholdBytes : ℕ := 2 * 1024 * 1024

/-- The least capacity of `upload_pending`. -/
def uploadPendingLeastCapacity : ℕ := 64

/-- The part of `struct bm_fd_data` that the uploads concern. `pending` is `upload_pending` with its
head, its count and, as the length of the array, its capacity. -/
structure UploadConn where
  pending : SlidingBuffer Bytes
  pendingEviction : Bool
  sent : ℕ
  notFound : ℕ

/-- What a refill finds in each round: the bytes queued for the connection, and what becomes of the hash. -/
structure RefillRounds where
  level : ℕ → ℕ
  result : ℕ → Bytes → UploadResult

/-- What became of a hash that waited. -/
inductive Settled where
  | processed (hash : Bytes) (result : UploadResult)
  | discarded (hash : Bytes)

def Settled.hash : Settled → Bytes
  | .processed hash _ => hash
  | .discarded hash => hash

def Settled.isProcessed : Settled → Bool
  | .processed _ _ => true
  | .discarded _ => false

/-- The packet could not be queued. -/
def UploadResult.fails : UploadResult → Bool
  | .send result => !result.ok
  | _ => false

def Settled.fails : Settled → Bool
  | .processed _ result => result.fails
  | .discarded _ => false

/-- What became of the packet, for the hashes that were processed. -/
def Settled.result? : Settled → Option UploadResult
  | .processed _ result => some result
  | .discarded _ => none

namespace UploadConn

/-- A connection without requests. -/
def new : UploadConn := ⟨.empty, false, 0, 0⟩

/-- The counters and the mark after a round. -/
def count (conn : UploadConn) : UploadResult → UploadConn
  | .notFound => { conn with notFound := conn.notFound + 1 }
  | .noPacket => conn
  | .send result =>
    { conn with
      sent := if result.ok then conn.sent + 1 else conn.sent
      pendingEviction := conn.pendingEviction || result.evicts }

/-- The loop of `bm_object_sync_refill_uploads`; every round takes a hash, so their number bounds it. -/
def refillLoop (rounds : RefillRounds) : ℕ → ℕ → UploadConn → Option (UploadConn × List Settled)
  | 0, _, conn => some (conn, [])
  | bound + 1, round, conn =>
    if 0 < conn.pending.count ∧ conn.pendingEviction = false ∧ rounds.level round < uploadRefillThresholdBytes then
      conn.pending.take.bind fun (hash, pending) =>
        let result := rounds.result round hash
        let conn := { conn with pending := pending }.count result
        if result.fails then
          some ({ conn with pending := { pending with count := 0 } },
            .processed hash result :: (pending.window.filterMap id).map .discarded)
        else
          (refillLoop rounds bound (round + 1) conn).map fun (conn, settled) =>
            (conn, .processed hash result :: settled)
    else some (conn, [])

/-- `bm_object_sync_refill_uploads`, with what becomes of the hashes. -/
def refill (conn : UploadConn) (rounds : RefillRounds) : Option (UploadConn × List Settled) :=
  if conn.pending.count = 0 then some (conn, [])
  else
    (refillLoop rounds conn.pending.count 0 conn).map fun (conn, settled) =>
      if conn.pending.count = 0 then
        ({ conn with pending := { conn.pending with head := 0 }, sent := 0, notFound := 0 }, settled)
      else (conn, settled)

/-- `handle_getdata` for a message that is well formed, with the hashes it has accepted. -/
def handleGetdata (conn : UploadConn) (items : List Bytes) (granted : Bool) (rounds : RefillRounds) :
    Option (UploadConn × List Bytes × List Settled) :=
  if maxInventoryItems < items.length then some (conn, [], [])
  else
    let pendingBefore := conn.pending.count
    let room := if pendingBefore < maxInventoryItems then maxInventoryItems - pendingBefore else 0
    let accepted := if items.length < room then items.length else room
    let (pending, appended) := conn.pending.append uploadPendingLeastCapacity (items.take accepted) granted
    ({ conn with pending := pending }.refill rounds).map fun (conn, settled) =>
      (conn, items.take (if appended then accepted else 0), settled)

end UploadConn

/-- A connection with its past: the hashes accepted, and what became of those that are settled. -/
structure UploadRun where
  conn : UploadConn
  accepted : List Bytes
  settled : List Settled

inductive UploadLabel where
  /-- a `getdata`; `granted` tells whether the array can be grown -/
  | getdata (items : List Bytes) (granted : Bool) (rounds : RefillRounds)
  /-- `EPOLLOUT`, or the sweep -/
  | refill (rounds : RefillRounds)
  /-- another packet cannot be queued -/
  | evict

def uploadInit : UploadRun := ⟨.new, [], []⟩

/-- One step; it fails if a hash is read where none was written. -/
def uploadStep (r : UploadRun) : UploadLabel → Option UploadRun
  | .getdata items granted rounds =>
    (r.conn.handleGetdata items granted rounds).map fun (conn, accepted, settled) =>
      ⟨conn, r.accepted ++ accepted, r.settled ++ settled⟩
  | .refill rounds =>
    (r.conn.refill rounds).map fun (conn, settled) => ⟨conn, r.accepted, r.settled ++ settled⟩
  | .evict => some { r with conn := { r.conn with pendingEviction := true } }

/-! ### Where hashes are given up -/

/-- Hashes are given up only right behind one whose packet could not be queued; `behind` tells that
such a one, or one given up, stands in front. -/
def GivenUpBehind : Bool → List Settled → Prop
  | _, [] => True
  | _, .processed _ result :: rest => GivenUpBehind result.fails rest
  | behind, .discarded _ :: rest => behind = true ∧ GivenUpBehind true rest

theorem GivenUpBehind.mono {settled : List Settled} (h : GivenUpBehind false settled) : GivenUpBehind true settled := by
  cases settled with
  | nil => trivial
  | cons s rest =>
    cases s with
    | processed hash result => exact h
    | discarded hash => cases h.1

theorem GivenUpBehind.append {behind : Bool} {settled more : List Settled} (h : GivenUpBehind behind settled)
    (hmore : GivenUpBehind false more) : GivenUpBehind behind (settled ++ more) := by
  induction settled generalizing behind with
  | nil =>
    cases behind with
    | false => exact hmore
    | true => exact hmore.mono
  | cons s rest ih =>
    cases s with
    | processed hash result => exact ih h
    | discarded hash => exact ⟨h.1, ih h.2⟩

theorem givenUpBehind_discarded (hashes : List Bytes) : GivenUpBehind true (hashes.map .discarded) := by
  induction hashes with
  | nil => trivial
  | cons hash hashes ih => exact ⟨rfl, ih⟩

/-- As long as every packet can be queued, the hashes are processed. -/
theorem GivenUpBehind.isProcessed {before after : List Settled} (h : GivenUpBehind false (before ++ after))
    (hok : ∀ s ∈ before, s.fails = false) : ∀ s ∈ before, s.isProcessed = true := by
  induction before with
  | nil =>
    intro s hs
    cases hs
  | cons s rest ih =>
    cases s with
    | processed hash result =>
      have hresult : result.fails = false := hok _ List.mem_cons_self
      have hrest : GivenUpBehind false (rest ++ after) := hresult ▸ h
      rw [List.forall_mem_cons]
      exact ⟨rfl, ih hrest fun s hs => hok s (List.mem_cons_of_mem _ hs)⟩
    | discarded hash => cases h.1

/-- Behind a packet that could not be queued the rest is given up. -/
def GivesUpRest (settled : List Settled) : Prop :=
  ∀ before s after, settled = before ++ s :: after → s.fails = true → ∀ t ∈ after, t.isProcessed = false

theorem givesUpRest_nil : GivesUpRest [] := by
  intro before s after h
  cases before with
  | nil => cases h
  | cons => cases h

theorem GivesUpRest.cons {s : Settled} {settled : List Settled} (h : GivesUpRest settled)
    (hs : s.fails = true → ∀ t ∈ settled, t.isProcessed = false) : GivesUpRest (s :: settled) := by
  intro before u after heq hfails
  cases before with
  | nil =>
    cases heq
    exact hs hfails
  | cons v before =>
    cases heq
    exact h before u after rfl hfails

theorem givesUpRest_discarded (hashes : List Bytes) : GivesUpRest (hashes.map .discarded) := by
  induction hashes with
  | nil => exact givesUpRest_nil
  | cons hash hashes ih =>
    refine ih.cons fun h => ?_
    cases h

/-! ### The refill -/

namespace UploadConn

@[simp] theorem pending_count (conn : UploadConn) (result : UploadResult) :
    (conn.count result).pending = conn.pending := by
  cases result <;> rfl

/-- What is left of the hashes, and what has become of the others. -/
structure Refilled (conn : UploadConn) (items : List Bytes) (settled : List Settled) (conn' : UploadConn)
    (items' : List Bytes) : Prop where
  holds : conn'.pending.Holds items'
  order : items = settled.map Settled.hash ++ items'
  givenUp : GivenUpBehind false settled
  rest : GivesUpRest settled
  failed : (∃ s ∈ settled, s.fails = true) → items' = []
  evicted : conn.pendingEviction = true → settled = [] ∧ conn'.pendingEviction = true

/-- A refill that has nothing to do. -/
theorem Refilled.of_none {conn : UploadConn} {items : List Bytes} (h : conn.pending.Holds items) :
    Refilled conn items [] conn items where
  holds := h
  order := rfl
  givenUp := trivial
  rest := givesUpRest_nil
  failed := by simp
  evicted := fun he => ⟨rfl, he⟩

/-- A refill has the results of its rounds, and stops when no hash waits, when the connection is to be closed,
or when enough is queued. -/
structure FollowsRounds (rounds : RefillRounds) (round : ℕ) (settled : List Settled) (conn' : UploadConn)
    (items' : List Bytes) : Prop where
  results : ∀ (i : ℕ) hash result, settled[i]? = some (.processed hash result) → result = rounds.result (round + i) hash
  stops : items' = [] ∨ conn'.pendingEviction = true ∨ uploadRefillThresholdBytes ≤ rounds.level (round + settled.length)

theorem refillLoop_spec {rounds : RefillRounds} {bound round : ℕ} {conn : UploadConn} {items : List Bytes}
    (h : conn.pending.Holds items) (hbound : items.length ≤ bound) :
    ∃ conn' settled items', refillLoop rounds bound round conn = some (conn', settled) ∧
      Refilled conn items settled conn' items' ∧ FollowsRounds rounds round settled conn' items' := by
  induction bound generalizing round conn items with
  | zero =>
    refine ⟨conn, [], items, rfl, .of_none h, by simp, .inl ?_⟩
    exact List.eq_nil_of_length_eq_zero (Nat.le_zero.mp hbound)
  | succ bound ih =>
    unfold refillLoop
    by_cases hgo : 0 < conn.pending.count ∧ conn.pendingEviction = false ∧
        rounds.level round < uploadRefillThresholdBytes
    · obtain ⟨hcount, hstays, hlevel⟩ := hgo
      rw [if_pos ⟨hcount, hstays, hlevel⟩]
      cases items with
      | nil =>
        rw [h.count] at hcount
        exact absurd hcount (Nat.lt_irrefl 0)
      | cons hash items =>
        obtain ⟨pending, htake, hpending⟩ := h.take
        have hnot : conn.pendingEviction = true → False := fun he => by rw [hstays] at he; cases he
        rw [htake, Option.bind_some]
        simp only
        by_cases hfails : (rounds.result round hash).fails = true
        · rw [if_pos hfails]
          have hgone : (pending.window.filterMap id).map Settled.discarded = items.map Settled.discarded := by
            rw [hpending.window, List.filterMap_map]
            simp
          rw [hgone]
          refine ⟨_, _, [], rfl, ⟨hpending.discard, ?_, ?_, ?_, fun _ => rfl, fun he => (hnot he).elim⟩, ?_, .inl rfl⟩
          · simp [Settled.hash, Function.comp_def]
          · show GivenUpBehind (rounds.result round hash).fails (items.map .discarded)
            rw [hfails]
            exact givenUpBehind_discarded items
          · refine (givesUpRest_discarded items).cons fun _ t ht => ?_
            obtain ⟨_, -, rfl⟩ := List.mem_map.mp ht
            rfl
          · intro i hash' result hi
            cases i with
            | zero =>
              cases hi
              rfl
            | succ i =>
              obtain ⟨_, -, hdiscarded⟩ := List.mem_map.mp (List.mem_of_getElem? hi)
              cases hdiscarded
        · rw [if_neg hfails]
          have hnext : ({ conn with pending := pending }.count (rounds.result round hash)).pending.Holds items := by
            rw [pending_count]
            exact hpending
          obtain ⟨conn', settled, items', hloop, hrefilled, hresults, hstops⟩ :=
            @ih (round + 1) _ _ hnext (by simpa using hbound)
          rw [hloop]
          rw [Nat.add_assoc, Nat.add_comm 1] at hstops
          refine ⟨conn', _, items', rfl, ⟨hrefilled.holds, ?_, ?_, hrefilled.rest.cons fun hf => absurd hf hfails, ?_,
            fun he => (hnot he).elim⟩, ?_, hstops⟩
          · rw [hrefilled.order]
            rfl
          · show GivenUpBehind (rounds.result round hash).fails settled
            rw [Bool.not_eq_true] at hfails
            rw [hfails]
            exact hrefilled.givenUp
          · rintro ⟨s, hs, hf⟩
            rcases List.mem_cons.mp hs with rfl | hs
            · exact absurd hf hfails
            · exact hrefilled.failed ⟨s, hs, hf⟩
          · intro i hash' result hi
            cases i with
            | zero =>
              cases hi
              rfl
            | succ i =>
              rw [hresults i hash' result hi, Nat.add_assoc, Nat.add_comm 1]
    · rw [if_neg hgo]
      refine ⟨conn, [], items, rfl, .of_none h, by simp, ?_⟩
      rcases items with _ | ⟨hash, items⟩
      · exact .inl rfl
      · by_cases hevict : conn.pendingEviction = true
        · exact .inr (.inl hevict)
        · rw [Bool.not_eq_true] at hevict
          refine .inr (.inr ?_)
          by_contra hlow
          exact hgo ⟨by rw [h.count]; exact Nat.succ_pos _, hevict, Nat.not_le.mp hlow⟩

theorem filterMap_discarded (hashes : List Bytes) : (hashes.map Settled.discarded).filterMap Settled.result? = [] := by
  simp [List.filterMap_map, Function.comp_def, Settled.result?]

/-- The array is emptied as the queue of the connection is, with the same results. -/
theorem refillLoop_refines {rounds : RefillRounds} {bound round : ℕ} {conn conn' : UploadConn} {p : HandshakeConn}
    {settled : List Settled} (h : conn.pending.Holds p.uploadPending)
    (hevict : p.pendingEviction = conn.pendingEviction)
    (hloop : refillLoop rounds bound round conn = some (conn', settled)) :
    conn'.pending.Holds (p.refillUploads (settled.filterMap Settled.result?)).uploadPending ∧
      (p.refillUploads (settled.filterMap Settled.result?)).pendingEviction = conn'.pendingEviction := by
  induction bound generalizing round conn p settled with
  | zero =>
    cases hloop
    exact ⟨h, hevict⟩
  | succ bound ih =>
    unfold refillLoop at hloop
    split_ifs at hloop with hgo
    · obtain ⟨hcount, hstays, -⟩ := hgo
      rcases hitems : p.uploadPending with _ | ⟨hash, items⟩
      · rw [h.count, hitems] at hcount
        exact absurd hcount (Nat.lt_irrefl 0)
      · rw [hitems] at h
        obtain ⟨pending, htake, hpending⟩ := h.take
        rw [htake, Option.bind_some] at hloop
        simp only at hloop
        have hno : ¬p.pendingEviction = true := by
          rw [hevict, hstays]
          exact Bool.false_ne_true
        by_cases hfails : (rounds.result round hash).fails = true
        · rw [if_pos hfails, Option.some.injEq, Prod.mk.injEq] at hloop
          obtain ⟨rfl, rfl⟩ := hloop
          have hresult : ∃ result, rounds.result round hash = .send result ∧ result.ok = false := by
            rcases hr : rounds.result round hash with _ | _ | result
            · rw [hr] at hfails
              cases hfails
            · rw [hr] at hfails
              cases hfails
            · rw [hr] at hfails
              exact ⟨result, rfl, by simpa [UploadResult.fails] using hfails⟩
          obtain ⟨result, hr, hok⟩ := hresult
          rw [List.filterMap_cons_some (by rfl), filterMap_discarded, hr]
          unfold HandshakeConn.refillUploads
          rw [hitems]
          simp only [if_neg hno, hok, Bool.false_eq_true, if_false]
          exact ⟨hpending.discard, by simp [HandshakeConn.networkSend, count, hevict]⟩
        · rw [if_neg hfails] at hloop
          obtain ⟨⟨conn'', settled'⟩, hrest, heq⟩ := Option.map_eq_some_iff.mp hloop
          rw [Prod.mk.injEq] at heq
          obtain ⟨rfl, rfl⟩ := heq
          have hnext : ({ conn with pending := pending }.count (rounds.result round hash)).pending.Holds items := by
            rw [pending_count]
            exact hpending
          rw [List.filterMap_cons_some (by rfl)]
          rcases hr : rounds.result round hash with _ | _ | result
          · rw [hr] at hrest hnext
            unfold HandshakeConn.refillUploads
            simp only [hitems, if_neg hno]
            exact ih (p := { p with uploadPending := items }) hnext (by simp [count, hevict]) hrest
          · rw [hr] at hrest hnext
            unfold HandshakeConn.refillUploads
            simp only [hitems, if_neg hno]
            exact ih (p := { p with uploadPending := items }) hnext (by simp [count, hevict]) hrest
          · rw [hr] at hrest hnext hfails
            have hok : result.ok = true := by simpa [UploadResult.fails] using hfails
            unfold HandshakeConn.refillUploads
            simp only [hitems, if_neg hno, hok, if_true]
            exact ih (p := { p with uploadPending := items }.networkSend (.object hash) result) hnext
              (by simp [HandshakeConn.networkSend, count, hevict]) hrest
    · cases hloop
      exact ⟨h, hevict⟩

theorem refill_spec {conn : UploadConn} {items : List Bytes} (h : conn.pending.Holds items) (rounds : RefillRounds) :
    ∃ conn' settled items', conn.refill rounds = some (conn', settled) ∧ Refilled conn items settled conn' items' ∧
      FollowsRounds rounds 0 settled conn' items' := by
  unfold refill
  by_cases hnone : conn.pending.count = 0
  · rw [if_pos hnone]
    refine ⟨conn, [], items, rfl, .of_none h, by simp, .inl ?_⟩
    rw [h.count] at hnone
    exact List.eq_nil_of_length_eq_zero hnone
  · rw [if_neg hnone]
    obtain ⟨conn', settled, items', hloop, hrefilled, hfollows⟩ :=
      @refillLoop_spec rounds _ 0 _ _ h h.count.ge
    rw [hloop, Option.map_some]
    simp only
    split_ifs with hempty
    · rw [hrefilled.holds.count] at hempty
      obtain rfl := List.eq_nil_of_length_eq_zero hempty
      exact ⟨_, settled, [], rfl, { hrefilled with holds := hrefilled.holds.rewind }, hfollows.results, .inl rfl⟩
    · exact ⟨conn', settled, items', rfl, hrefilled, hfollows⟩

/-- The hashes of a `getdata` that find room. -/
def acceptable (conn : UploadConn) (items : List Bytes) : List Bytes :=
  if maxInventoryItems < items.length then [] else items.take (maxInventoryItems - conn.pending.count)

theorem handleGetdata_spec {conn : UploadConn} {waiting : List Bytes} (h : conn.pending.Holds waiting)
    (hmax : waiting.length ≤ maxInventoryItems) (items : List Bytes) (granted : Bool) (rounds : RefillRounds) :
    ∃ conn' accepted settled items', conn.handleGetdata items granted rounds = some (conn', accepted, settled) ∧
      (accepted = conn.acceptable items ∨ granted = false ∧ accepted = []) ∧
      (waiting ++ accepted).length ≤ maxInventoryItems ∧ Refilled conn (waiting ++ accepted) settled conn' items' ∧
      (items.length ≤ maxInventoryItems → FollowsRounds rounds 0 settled conn' items') := by
  unfold handleGetdata acceptable
  by_cases hmany : maxInventoryItems < items.length
  · rw [if_pos hmany, if_pos hmany]
    refine ⟨conn, [], [], waiting, rfl, .inl rfl, ?_, ?_, fun hshort => absurd hmany (Nat.not_lt.mpr hshort)⟩
    · rw [List.append_nil]
      exact hmax
    · rw [List.append_nil]
      exact .of_none h
  · rw [if_neg hmany, if_neg hmany]
    have hcount := h.count
    have hroom : (if conn.pending.count < maxInventoryItems then maxInventoryItems - conn.pending.count else 0) =
        maxInventoryItems - conn.pending.count := by
      split_ifs <;> omega
    have htake : items.take (if items.length < maxInventoryItems - conn.pending.count then items.length
        else maxInventoryItems - conn.pending.count) = items.take (maxInventoryItems - conn.pending.count) := by
      split_ifs with hshort
      · rw [List.take_of_length_le (Nat.le_refl _), List.take_of_length_le hshort.le]
      · rfl
    simp only [hroom, htake]
    have hleast : 0 < uploadPendingLeastCapacity := by decide
    have happend := h.append hleast
      (items.take (maxInventoryItems - conn.pending.count)) granted
    rcases hpair : conn.pending.append uploadPendingLeastCapacity
      (items.take (maxInventoryItems - conn.pending.count)) granted with ⟨pending, appended⟩
    rw [hpair] at happend
    simp only at happend ⊢
    cases appended with
    | true =>
      rw [if_pos rfl] at happend
      obtain ⟨conn', settled, items', hrefill, hrefilled, hfollows⟩ :=
        @refill_spec { conn with pending := pending } _ happend rounds
      rw [hrefill, if_pos rfl, htake]
      refine ⟨conn', _, settled, items', rfl, .inl rfl, ?_, { hrefilled with }, fun _ => hfollows⟩
      rw [List.length_append, List.length_take]
      omega
    | false =>
      have hrefused : granted = false := by
        cases granted with
        | false => rfl
        | true =>
          have htrue := SlidingBuffer.append_granted conn.pending uploadPendingLeastCapacity
            (items.take (maxInventoryItems - conn.pending.count))
          rw [hpair] at htrue
          cases htrue
      rw [if_neg Bool.false_ne_true] at happend
      obtain ⟨conn', settled, items', hrefill, hrefilled, hfollows⟩ :=
        @refill_spec { conn with pending := pending } _ happend rounds
      rw [hrefill, if_neg Bool.false_ne_true, List.take_zero]
      refine ⟨conn', [], settled, items', rfl, .inr ⟨hrefused, rfl⟩, ?_, ?_, fun _ => hfollows⟩
      · rw [List.append_nil]
        exact hmax
      · rw [List.append_nil]
        exact { hrefilled with }

end UploadConn

/-! ### Runs -/

/-- The hashes that were accepted are those that are settled and those that wait, in this order. -/
structure UploadOrdered (r : UploadRun) (items : List Bytes) : Prop where
  holds : r.conn.pending.Holds items
  short : items.length ≤ maxInventoryItems
  order : r.accepted = r.settled.map Settled.hash ++ items
  givenUp : GivenUpBehind false r.settled

theorem uploadOrdered_init : UploadOrdered uploadInit [] where
  holds := SlidingBuffer.holds_empty
  short := Nat.zero_le _
  order := rfl
  givenUp := trivial

/-- The rounds of the refill that a step ends with. -/
def UploadLabel.refills : UploadLabel → Option RefillRounds
  | .getdata items _ rounds => if maxInventoryItems < items.length then none else some rounds
  | .refill rounds => some rounds
  | .evict => none

/-- What a step does to the requests. It settles nothing once the connection is to be closed; behind a packet
that cannot be queued it gives up the rest of what waits; and a refill goes on as long as hashes wait and little
is queued. A `getdata` that is not too long is accepted as far as there is room, unless the memory is refused. -/
structure UploadSettles (r : UploadRun) (l : UploadLabel) (r' : UploadRun) (settled : List Settled) : Prop where
  log : r'.settled = r.settled ++ settled
  closing : r.conn.pendingEviction = true → settled = []
  rest : GivesUpRest settled
  failed : (∃ s ∈ settled, s.fails = true) → r'.conn.pending.count = 0
  results : ∀ rounds, l.refills = some rounds → ∀ (i : ℕ) hash result,
    settled[i]? = some (.processed hash result) → result = rounds.result i hash
  stops : ∀ rounds, l.refills = some rounds →
    r'.conn.pending.count = 0 ∨ r'.conn.pendingEviction = true ∨
      uploadRefillThresholdBytes ≤ rounds.level settled.length
  accepts : ∀ requested granted rounds, l = .getdata requested granted rounds →
    r'.accepted = r.accepted ++ (if maxInventoryItems < requested.length then []
      else requested.take (maxInventoryItems - r.conn.pending.count)) ∨
    granted = false ∧ r'.accepted = r.accepted

/-- A step settles hashes from the front. -/
theorem uploadOrdered_step {r : UploadRun} {items : List Bytes} (h : UploadOrdered r items) (l : UploadLabel) :
    ∃ r' settled items', uploadStep r l = some r' ∧ UploadOrdered r' items' ∧ UploadSettles r l r' settled := by
  have hlonger {settled : List Settled} {waiting items' : List Bytes}
      (horder : waiting = settled.map Settled.hash ++ items') (hshort : waiting.length ≤ maxInventoryItems) :
      items'.length ≤ maxInventoryItems := by
    rw [horder, List.length_append] at hshort
    omega
  have hnone {conn : UploadConn} {items' : List Bytes} (hholds : conn.pending.Holds items') (he : items' = []) :
      conn.pending.count = 0 := by
    rw [hholds.count, he]
    rfl
  have hfollows {rounds : RefillRounds} {settled : List Settled} {conn : UploadConn} {items' : List Bytes}
      (hholds : conn.pending.Holds items') (hend : UploadConn.FollowsRounds rounds 0 settled conn items') :
      (∀ (i : ℕ) hash result, settled[i]? = some (.processed hash result) → result = rounds.result i hash) ∧
        (conn.pending.count = 0 ∨ conn.pendingEviction = true ∨
          uploadRefillThresholdBytes ≤ rounds.level settled.length) := by
    have hresults := hend.results
    have hstops := hend.stops
    simp only [Nat.zero_add] at hresults hstops
    exact ⟨hresults, hstops.imp_left (hnone hholds)⟩
  cases l with
  | getdata requested granted rounds =>
    obtain ⟨conn', accepted, settled, items', hhandle, haccepted, hshort, hrefilled, hend⟩ :=
      UploadConn.handleGetdata_spec h.holds h.short requested granted rounds
    have hrounds (rounds' : RefillRounds) (hl : (UploadLabel.getdata requested granted rounds).refills = some rounds') :
        requested.length ≤ maxInventoryItems ∧ rounds = rounds' := by
      simp only [UploadLabel.refills] at hl
      split_ifs at hl with hmany
      exact ⟨Nat.not_lt.mp hmany, Option.some.inj hl⟩
    refine ⟨⟨conn', r.accepted ++ accepted, r.settled ++ settled⟩, settled, items',
      by rw [uploadStep, hhandle, Option.map_some],
      ⟨hrefilled.holds, hlonger hrefilled.order hshort, ?_, h.givenUp.append hrefilled.givenUp⟩,
      rfl, fun hevict => (hrefilled.evicted hevict).1, hrefilled.rest,
      fun hfails => hnone hrefilled.holds (hrefilled.failed hfails), ?_, ?_, ?_⟩
    · simp only
      rw [h.order, List.append_assoc, hrefilled.order, List.map_append, List.append_assoc]
    · intro rounds' hl
      obtain ⟨hmany, rfl⟩ := hrounds rounds' hl
      exact (hfollows hrefilled.holds (hend hmany)).1
    · intro rounds' hl
      obtain ⟨hmany, rfl⟩ := hrounds rounds' hl
      exact (hfollows hrefilled.holds (hend hmany)).2
    · intro requested' granted' rounds' hl
      cases hl
      rcases haccepted with rfl | ⟨hrefused, rfl⟩
      · exact .inl rfl
      · exact .inr ⟨hrefused, List.append_nil _⟩
  | refill rounds =>
    obtain ⟨conn', settled, items', hrefill, hrefilled, hend⟩ := UploadConn.refill_spec h.holds rounds
    refine ⟨⟨conn', r.accepted, r.settled ++ settled⟩, settled, items', by rw [uploadStep, hrefill, Option.map_some],
      ⟨hrefilled.holds, hlonger hrefilled.order h.short, ?_, h.givenUp.append hrefilled.givenUp⟩,
      rfl, fun hevict => (hrefilled.evicted hevict).1, hrefilled.rest,
      fun hfails => hnone hrefilled.holds (hrefilled.failed hfails), ?_, ?_, ?_⟩
    · simp only
      rw [h.order, hrefilled.order, List.map_append, List.append_assoc]
    · rintro _ ⟨⟩
      exact (hfollows hrefilled.holds hend).1
    · rintro _ ⟨⟩
      exact (hfollows hrefilled.holds hend).2
    · intro requested granted rounds' hl
      cases hl
  | evict =>
    refine ⟨_, [], items, rfl, ⟨h.holds, h.short, h.order, h.givenUp⟩, (List.append_nil _).symm, fun _ => rfl,
      givesUpRest_nil, by simp, by simp, ?_, ?_⟩
    · intro rounds hl
      cases hl
    · intro requested granted rounds hl
      cases hl

theorem uploadOrdered_run (ls : List UploadLabel) {r : UploadRun} {items : List Bytes} (h : UploadOrdered r items) :
    ∃ r' items', run uploadStep r ls = some r' ∧ UploadOrdered r' items' := by
  induction ls generalizing r items with
  | nil => exact ⟨r, items, rfl, h⟩
  | cons l ls ih =>
    obtain ⟨u, settled, items', hu, hordered, -⟩ := uploadOrdered_step h l
    obtain ⟨r', items'', hr', hordered'⟩ := ih hordered
    exact ⟨r', items'', by rw [run_cons_of hu, hr'], hordered'⟩

/-- In every run the window lies in the array and is bounded, and the hashes that were accepted are,
in order, those that are settled and those that wait. All are processed up to the first packet that
cannot be queued. Every further step settles what it has to. -/
theorem upload_queue_ordered (ls : List UploadLabel) :
    ∃ r items, run uploadStep uploadInit ls = some r ∧
      (r.conn.pending.head + r.conn.pending.count ≤ r.conn.pending.cells.length ∧
        r.conn.pending.count ≤ maxInventoryItems) ∧
      (r.conn.pending.window = items.map some ∧ r.accepted = r.settled.map Settled.hash ++ items) ∧
      (∀ before after, r.settled = before ++ after → (∀ s ∈ before, s.fails = false) →
        ∀ s ∈ before, s.isProcessed = true) ∧
      ∀ l, ∃ r' settled, uploadStep r l = some r' ∧ UploadSettles r l r' settled := by
  obtain ⟨r, items, hr, h⟩ := uploadOrdered_run ls uploadOrdered_init
  refine ⟨r, items, hr, ⟨h.holds.bound, ?_⟩, ⟨h.holds.window, h.order⟩, fun before after hsettled hok => ?_,
    fun l => ?_⟩
  · rw [h.holds.count]
    exact h.short
  · exact (hsettled ▸ h.givenUp).isProcessed hok
  · obtain ⟨r', settled, items', hr', -, hsettles⟩ := uploadOrdered_step h l
    exact ⟨r', settled, hr', hsettles⟩

def longRequest : List Bytes := List.replicate 50001 (List.replicate 32 0)

/-- A `getdata` of more hashes than may wait is ignored, though there is room for nearly all of them. -/
theorem longRequest_ignored :
    (run uploadStep uploadInit [.getdata longRequest true ⟨fun _ => 0, fun _ _ => .notFound⟩]).map UploadRun.accepted =
        some [] ∧
      (longRequest.take (maxInventoryItems - uploadInit.conn.pending.count)).length = 50000 := by
  have hlength : longRequest.length = 50001 := List.length_replicate
  have hmany : maxInventoryItems < longRequest.length := by
    rw [hlength]
    decide
  constructor
  · rw [run, uploadStep, UploadConn.handleGetdata, if_pos hmany]
    rfl
  · rw [List.length_take, hlength]
    rfl

end Bitmessage
