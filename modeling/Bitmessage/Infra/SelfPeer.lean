import Bitmessage.Infra.PeerGossip

/-! The node among its own peers. Its address is marked in the table of hosts, and the candidates are
chosen among the rows without the mark. The mark lives as long as its row: a cleanup deletes the row
like any other, and what the network tells of the address afterwards makes a row without a mark. -/

namespace Bitmessage

open Transition

variable {R : Type*} {addr : HostKey} {hosts : Hosts R}

/-- The row of the address has the mark, if there is one. -/
def MarkedSelf (addr : HostKey) (hosts : Hosts R) : Prop := ∀ row, hosts.find? addr = some row → row.isSelf = true

/-- The operation stores the address, whether it has a row or not. -/
def StoresHost (addr : HostKey) (hosts : Hosts R) : PeerOp → Prop
  | .learned host => host.key = addr
  | .seedBootstrap testnet observed =>
    (∀ row ∈ hosts.rows, row.isSelf = true) ∧ addr ∈ (bootstrapKeys testnet observed).map Prod.fst
  | _ => False

/-- Where the operation stores the address, its row is still there. -/
def FindsItself (addr : HostKey) (hosts : Hosts R) (l : ℤ × PeerOp) : Prop :=
  StoresHost addr hosts l.2 → (hosts.find? addr).isSome

theorem markedSelf_congr {hosts' : Hosts R} (h : hosts'.find? addr = hosts.find? addr) :
    MarkedSelf addr hosts' ↔ MarkedSelf addr hosts := by rw [MarkedSelf, h, MarkedSelf]

/-- An update keeps the marks. -/
theorem MarkedSelf.map (h : MarkedSelf addr hosts) {hosts' : Hosts R} {f : HostRow R → HostRow R}
    (hfind : hosts'.find? addr = (hosts.find? addr).map f) (hf : ∀ row, (f row).isSelf = row.isSelf) :
    MarkedSelf addr hosts' := by
  intro row' hrow'
  rw [hfind] at hrow'
  obtain ⟨row, hrow, rfl⟩ := Option.map_eq_some_iff.mp hrow'
  rw [hf]
  exact h row hrow

/-- A statement that stores the address keeps the mark of its row, and a row that it makes has none. -/
theorem MarkedSelf.stored (h : MarkedSelf addr hosts) {hosts' : Hosts R} {row' : HostRow R}
    (hfind : hosts'.find? addr = some row') (hself : row'.isSelf = (hosts.find? addr).elim false HostRow.isSelf) :
    MarkedSelf addr hosts' ↔ (hosts.find? addr).isSome := by
  have hiff : MarkedSelf addr hosts' ↔ row'.isSelf = true := by
    rw [MarkedSelf, hfind]
    exact ⟨fun hall => hall row' rfl, fun hrow row hrow' => Option.some.inj hrow' ▸ hrow⟩
  rw [hiff, hself]
  rcases hrow : hosts.find? addr with _ | row
  · exact ⟨fun hfalse => (Bool.false_ne_true hfalse).elim, fun hnone => (Bool.false_ne_true hnone).elim⟩
  · exact iff_of_true (h row hrow) rfl

variable [LinearOrder R] (P : Ratings R)

/-- The address is in neither list, whatever is asked for. -/
def NeverListed (addr : HostKey) (hosts : Hosts R) : Prop :=
  (∀ stream maxResults, ∀ e ∈ peerManagerListTop hosts stream maxResults, e.key ≠ addr) ∧
    ∀ stream now maxResults, ∀ e ∈ peerManagerListShareable P hosts stream now maxResults, e.key ≠ addr

theorem mem_listTop {stream : ℤ} {maxResults : ℕ} {e : PeerEntry R}
    (h : e ∈ peerManagerListTop hosts stream maxResults) :
    ∃ row ∈ hosts.rows, row.isSelf = false ∧ row.key = e.key := by
  obtain ⟨row, hrow, rfl⟩ := List.mem_map.mp h
  have hrow := List.mem_filter.mp ((List.mem_insertionSort _).mp (List.mem_of_mem_take hrow))
  exact ⟨row, hrow.1, (decide_eq_true_eq.mp hrow.2).2, rfl⟩

variable {P} in
theorem mem_listShareable {stream now : ℤ} {maxResults : ℕ} {e : PeerEntry R}
    (h : e ∈ peerManagerListShareable P hosts stream now maxResults) :
    ∃ row ∈ hosts.rows, row.isSelf = false ∧ row.key = e.key := by
  obtain ⟨row, hrow, rfl⟩ := List.mem_map.mp h
  have hrow := List.mem_filter.mp ((List.mem_insertionSort _).mp (List.mem_of_mem_take hrow))
  exact ⟨row, hrow.1, (decide_eq_true_eq.mp hrow.2).2.1, rfl⟩

/-- A row without the mark is listed when all rows are asked for. -/
theorem listTop_of_unmarked {row : HostRow R} (hrow : row ∈ hosts.rows) (hself : row.isSelf = false) :
    row.toPeerEntry ∈ peerManagerListTop hosts row.key.stream hosts.rows.length := by
  unfold peerManagerListTop
  rw [List.take_of_length_le (by rw [List.length_insertionSort]; exact List.length_filter_le _ _)]
  refine List.mem_map_of_mem ?_
  rw [List.mem_insertionSort, List.mem_filter]
  exact ⟨hrow, decide_eq_true ⟨rfl, hself⟩⟩

theorem neverListed_iff : NeverListed P addr hosts ↔ MarkedSelf addr hosts := by
  constructor
  · intro h row hrow
    obtain ⟨hmem, rfl⟩ := KeyedTable.find?_eq_some.mp hrow
    by_contra hself
    exact h.1 _ _ _ (listTop_of_unmarked hmem (Bool.not_eq_true _ ▸ hself)) rfl
  · intro h
    have hunmarked (e : PeerEntry R) (he : ∃ row ∈ hosts.rows, row.isSelf = false ∧ row.key = e.key) :
        e.key ≠ addr := by
      rintro rfl
      obtain ⟨row, hrow, hself, hkey⟩ := he
      have hmarked := h row (KeyedTable.find?_eq_some.mpr ⟨hrow, hkey⟩)
      rw [hself] at hmarked
      cases hmarked
    exact ⟨fun _ _ e he => hunmarked e (mem_listTop he), fun _ _ _ e he => hunmarked e (mem_listShareable he)⟩

/-- One operation: only one that stores the address can take the mark from it, and does when the row is gone. -/
theorem markedSelf_apply (h : MarkedSelf addr hosts) (now : ℤ) (op : PeerOp) :
    MarkedSelf addr (op.apply P now hosts) ↔ FindsItself addr hosts (now, op) := by
  cases op with
  | learned host =>
    by_cases hkey : host.key = addr
    · have hfind := find?_upsertLearned_self P hosts host
      rw [hkey] at hfind
      have hself : ((hosts.find? addr).elim (host.newRow P) host.over).isSelf =
          (hosts.find? addr).elim false HostRow.isSelf := by
        rcases hosts.find? addr with _ | row
        · rfl
        · rfl
      exact (h.stored hfind hself).trans ⟨fun hsome _ => hsome, fun hfinds => hfinds hkey⟩
    · exact iff_of_true ((markedSelf_congr (find?_upsertLearned_of_ne P hosts (Ne.symm hkey))).mpr h)
        fun hstores => absurd hstores hkey
  | result key success =>
    refine iff_of_true (h.map (find?_recordResult P hosts key success now) ?_) fun hstores => hstores.elim
    intro row
    split_ifs
    · rfl
    · rfl
    · rfl
  | attempt key =>
    refine iff_of_true (h.map (find?_recordAttempt hosts key now) ?_) fun hstores => hstores.elim
    intro row
    split_ifs
    · rfl
    · rfl
  | cleanup =>
    refine iff_of_true ?_ fun hstores => hstores.elim
    intro row hrow
    rw [PeerOp.apply, find?_cleanup] at hrow
    exact h row (Option.filter_eq_some_iff.mp hrow).1
  | seedBootstrap testnet observed =>
    rcases find?_seedBootstrap P hosts testnet observed now addr with ⟨hall, hmem, row, hrow, -, hself⟩ | ⟨hnot, hsame⟩
    · exact (h.stored hrow hself).trans ⟨fun hsome _ => hsome, fun hfinds => hfinds ⟨hall, hmem⟩⟩
    · exact iff_of_true ((markedSelf_congr hsame).mpr h) fun hstores => absurd hstores hnot
  | markSelf key =>
    refine iff_of_true ?_ fun hstores => hstores.elim
    by_cases hkey : addr = key
    · subst hkey
      intro row hrow
      rw [PeerOp.apply, find?_markSelf_self] at hrow
      cases hrow
      rcases hosts.find? addr with _ | row
      · rfl
      · rfl
    · exact (markedSelf_congr (find?_markSelf_of_ne P hosts hkey now)).mpr h

/-- A node that has marked its address never lists it, in a run of any operations, exactly when the row is
there each time the address is stored again. -/
theorem self_never_listed_iff (hosts : Hosts R) (addr : HostKey) (now : ℤ) (ops : List (ℤ × PeerOp)) :
    Always (peerStep P) (NeverListed P addr) (peerManagerMarkSelf P hosts addr now) ops ↔
      Along (peerStep P) (FindsItself addr) (peerManagerMarkSelf P hosts addr now) ops := by
  have hmarked : NeverListed P addr (peerManagerMarkSelf P hosts addr now) := by
    rw [neverListed_iff]
    intro row hrow
    rw [find?_markSelf_self] at hrow
    cases hrow
    rcases hosts.find? addr with _ | row
    · rfl
    · rfl
  apply always_iff_along _ hmarked
  intro s l hs
  rw [neverListed_iff] at hs
  rw [← markedSelf_apply P hs l.1 l.2, ← neverListed_iff P]
  exact ⟨fun hkeeps t ht => Option.some.inj ht ▸ hkeeps, fun hall => hall _ rfl⟩

/-- The body of an announcement with a key of zeros, at port 8444. -/
def ownAnnouncement : Bytes := varintEncode 8444 ++ (onioncatPrefix ++ List.replicate 35 0)

/-- The host that it announces. -/
def ownHost (now : ℤ) : LearnedHost :=
  ⟨⟨List.replicate 56 0x61 ++ onionSuffix, 8444, 1, by decide⟩, 1, now, .onionpeerObj⟩

/-- A table with the row that the node had at its last start. -/
def lastStart : Hosts ℤ := peerManagerMarkSelf tenths .empty (ownHost 0).key 0

/-- A node that starts after more than 28 days deletes its row in the first cleanup; its announcement comes back
and the node is a peer of its own. -/
theorem own_announcement_listed :
    onionpeerLearned 1 ownAnnouncement 2419201 = some (ownHost 2419201) ∧
    ¬ Always (peerStep tenths) (NeverListed tenths (ownHost 0).key)
      (peerManagerMarkSelf tenths lastStart (ownHost 0).key 2419201)
      [(2419201, .cleanup), (2419201, .learned (ownHost 2419201))] := by
  refine ⟨by decide +kernel, ?_⟩
  intro h
  have hlisted := ((h.2 _ rfl).2 _ rfl).1 1 1
  revert hlisted
  decide +kernel

end Bitmessage
