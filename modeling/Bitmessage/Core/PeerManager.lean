import Bitmessage.Core.MessageBuilder
import Bitmessage.Lib.KeyedTable
import Mathlib.Data.List.Sort

/-! The hosts that a node knows of, in `peers.db`. Connections write what became of them, hearsay adds
hosts and brings their last time up to date, and a cleanup forgets those that were not seen for long.
The node marks its own address in the same table, and the candidates are chosen among the other rows. -/

namespace Bitmessage

/-! ### The table -/

/-- The bytes of `ip_address` in `struct bm_peer_entry`. -/
def hostTextSize : ℕ := 64

/-- The primary key of `hosts`. -/
structure HostKey where
  ipAddress : Bytes
  port : ℤ
  stream : ℤ
  length_ipAddress : ipAddress.length < hostTextSize
  deriving DecidableEq

/-- The texts of `source`. -/
inductive HostSource
  | unknown
  | seed
  | observedSeed
  | addrMsg
  | onionpeerObj
  | manual
  | self
  deriving DecidableEq

/-- The arithmetic of the column `rating`, on floating-point numbers. -/
structure Ratings (R : Type*) where
  /-- `0.0`. -/
  zero : R
  /-- `MIN(1.0, rating + 0.1)`. -/
  raise (rating : R) : R
  /-- `MAX(-1.0, rating - 0.1)`. -/
  lower (rating : R) : R
  /-- `BM_PEER_CLEANUP_FORGET_RATING`. -/
  forget : R

/-- Ratings in tenths. -/
def tenths : Ratings ℤ := ⟨0, fun r => min 10 (r + 1), fun r => max (-10) (r - 1), -5⟩

/-- `struct bm_peer_entry`. -/
structure PeerEntry (R : Type*) where
  key : HostKey
  services : ℕ
  lastSeen : ℤ
  rating : R
  source : HostSource
  lastAttempt : ℤ

/-- A row of `hosts`. -/
structure HostRow (R : Type*) extends PeerEntry R where
  isSelf : Bool

/-- The table `hosts`. -/
abbrev Hosts (R : Type*) := KeyedTable fun row : HostRow R => row.key

/-- What hearsay tells of a host: the arguments of `bm_peer_manager_upsert_learned`. -/
structure LearnedHost where
  key : HostKey
  services : ℕ
  lastSeen : ℤ
  source : HostSource
  deriving DecidableEq

/-- `BM_PEER_CLEANUP_MAX_AGE_SECONDS`. -/
def peerCleanupMaxAge : ℤ := 28 * 24 * 60 * 60

/-- `BM_PEER_CLEANUP_MIN_AGE_SECONDS`. -/
def peerCleanupMinAge : ℤ := 3 * 60 * 60

/-- `BM_PEER_SHARE_MAX_AGE_SECONDS`. -/
def peerShareMaxAge : ℤ := 3 * 60 * 60

section

variable {R : Type*} (P : Ratings R) (hosts : Hosts R)

/-- The row that an entry inserts. -/
def PeerEntry.newRow (entry : PeerEntry R) : HostRow R := { entry with lastAttempt := 0, isSelf := false }

/-- What an entry makes of the row that is there. -/
def PeerEntry.over (entry : PeerEntry R) (row : HostRow R) : HostRow R :=
  { row with
    services := entry.services
    lastSeen := entry.lastSeen
    rating := entry.rating
    source := entry.source }

/-- `bm_peer_manager_upsert`. -/
def peerManagerUpsert (entry : PeerEntry R) : Hosts R := hosts.upsert entry.newRow entry.over fun _ => rfl

/-- The row that hearsay inserts. -/
def LearnedHost.newRow (learned : LearnedHost) : HostRow R :=
  ⟨⟨learned.key, learned.services, learned.lastSeen, P.zero, learned.source, 0⟩, false⟩

/-- What hearsay makes of the row that is there: the rating and the source stay. -/
def LearnedHost.over (learned : LearnedHost) (row : HostRow R) : HostRow R :=
  { row with services := learned.services, lastSeen := learned.lastSeen }

/-- `bm_peer_manager_upsert_learned`. -/
def peerManagerUpsertLearned (learned : LearnedHost) : Hosts R :=
  hosts.upsert (learned.newRow P) learned.over fun _ => rfl

/-- The row that a node inserts for itself. -/
def selfRow (key : HostKey) (now : ℤ) : HostRow R := ⟨⟨key, 0, now, P.zero, .self, 0⟩, true⟩

def HostRow.marked (row : HostRow R) : HostRow R := { row with isSelf := true }

/-- `bm_peer_manager_mark_self`. -/
def peerManagerMarkSelf (key : HostKey) (now : ℤ) : Hosts R :=
  hosts.upsert (selfRow P key now) HostRow.marked fun _ => rfl

/-- `bm_peer_manager_record_result`. -/
def peerManagerRecordResult (key : HostKey) (success : Bool) (now : ℤ) : Hosts R :=
  hosts.update (fun row => if row.key = key then
      if success then { row with rating := P.raise row.rating, lastSeen := now }
      else { row with rating := P.lower row.rating }
    else row) fun row => by split_ifs <;> rfl

/-- `bm_peer_manager_record_attempt`. -/
def peerManagerRecordAttempt (key : HostKey) (now : ℤ) : Hosts R :=
  hosts.update (fun row => if row.key = key then { row with lastAttempt := now } else row) fun row => by
    split_ifs <;> rfl

variable [LinearOrder R]

/-- The condition of the cleanup. -/
def staleHost (now : ℤ) (row : HostRow R) : Bool :=
  peerCleanupMaxAge < now - row.lastSeen || (peerCleanupMinAge < now - row.lastSeen && row.rating ≤ P.forget)

/-- `bm_peer_manager_cleanup`, with the number of rows that it deleted. -/
def peerManagerCleanup (now : ℤ) : Hosts R × ℕ :=
  (hosts.deleteWhere (staleHost P now), hosts.rows.countP (staleHost P now))

/-- `ORDER BY rating DESC`. -/
def BetterRated (a b : HostRow R) : Prop := b.rating ≤ a.rating

instance : DecidableRel (BetterRated (R := R)) := fun a b => inferInstanceAs (Decidable (b.rating ≤ a.rating))

/-- `bm_peer_manager_list_top`. -/
def peerManagerListTop (stream : ℤ) (maxResults : ℕ) : List (PeerEntry R) :=
  (((hosts.rows.filter fun row => row.key.stream = stream ∧ row.isSelf = false).insertionSort BetterRated).take
    maxResults).map HostRow.toPeerEntry

/-- Lower case, as `LIKE` compares letters. -/
def lowerAscii (c : UInt8) : UInt8 := if 0x41 ≤ c ∧ c ≤ 0x5a then c + 0x20 else c

/-- `LIKE '%.onion'`. -/
def isOnionText (text : Bytes) : Bool := onionSuffix.isSuffixOf (text.map lowerAscii)

/-- A row that `bm_peer_manager_list_shareable` selects. -/
def Shareable (stream now : ℤ) (row : HostRow R) : Prop :=
  row.key.stream = stream ∧ row.isSelf = false ∧ P.zero ≤ row.rating ∧ now - peerShareMaxAge < row.lastSeen ∧
    isOnionText row.key.ipAddress = false

instance (stream now : ℤ) : DecidablePred (Shareable P stream now) := fun row => by unfold Shareable; infer_instance

/-- `bm_peer_manager_list_shareable`: the last attempt is not read. -/
def peerManagerListShareable (stream now : ℤ) (maxResults : ℕ) : List (PeerEntry R) :=
  (((hosts.rows.filter fun row => Shareable P stream now row).insertionSort BetterRated).take maxResults).map fun row =>
    { row.toPeerEntry with lastAttempt := 0 }

end

/-! ### Texts of addresses -/

/-- The digits of a number below 256. -/
def octetText (v : UInt8) : Bytes :=
  if v < 10 then [0x30 + v]
  else if v < 100 then [0x30 + v / 10, 0x30 + v % 10]
  else [0x30 + v / 100, 0x30 + v / 10 % 10, 0x30 + v % 10]

/-- The text of an IPv4 address, as `inet_ntop` writes it. -/
def ipv4Text (a b c d : UInt8) : Bytes :=
  octetText a ++ (0x2e :: octetText b) ++ (0x2e :: octetText c) ++ (0x2e :: octetText d)

theorem length_octetText_le (v : UInt8) : (octetText v).length ≤ 3 := by
  unfold octetText
  split_ifs <;> simp

theorem length_ipv4Text_lt (a b c d : UInt8) : (ipv4Text a b c d).length < hostTextSize := by
  have ha := length_octetText_le a
  have hb := length_octetText_le b
  have hc := length_octetText_le c
  have hd := length_octetText_le d
  simp only [ipv4Text, List.length_append, List.length_cons, hostTextSize]
  omega

/-- The key of an IPv4 host. -/
def ipv4Key (a b c d : UInt8) (port stream : ℤ) : HostKey :=
  ⟨ipv4Text a b c d, port, stream, length_ipv4Text_lt a b c d⟩

/-! ### Bootstrap -/

/-- `MAINNET_SEEDS`. -/
def mainnetSeeds : List HostKey :=
  [ipv4Key 5 45 99 75 8444 1, ipv4Key 75 167 159 54 8444 1, ipv4Key 95 165 168 168 8444 1,
    ipv4Key 85 180 139 241 8444 1, ipv4Key 158 222 217 190 8080 1, ipv4Key 178 62 12 187 8448 1,
    ipv4Key 24 188 198 204 8111 1, ipv4Key 109 147 204 113 1195 1, ipv4Key 178 11 46 221 8444 1]

/-- `TESTNET_SEEDS`. -/
def testnetSeeds : List HostKey := [ipv4Key 46 62 252 34 8444 1, ipv4Key 5 78 198 100 8444 1]

/-- The name in a line of the file of observed nodes: `%63s`. -/
def observedKey (line : Bytes × ℤ) : HostKey where
  ipAddress := line.1.take (hostTextSize - 1)
  port := line.2
  stream := 1
  length_ipAddress := lt_of_le_of_lt (List.length_take_le _ _) (by decide)

/-- The lines that `bm_peer_manager_load_observed_nodes` takes: a name, and a port that can be one. -/
def observedKeys (lines : List (Bytes × ℤ)) : List HostKey :=
  (lines.filter fun line => 0 < line.2 ∧ line.2 ≤ 65535).map observedKey

/-- The nodes that a first start knows. -/
def bootstrapKeys (testnet : Bool) (observed : List (Bytes × ℤ)) : List (HostKey × HostSource) :=
  if testnet then testnetSeeds.map fun key => (key, .seed)
  else (mainnetSeeds.map fun key => (key, .seed)) ++ (observedKeys observed).map fun key => (key, .observedSeed)

section

variable {R : Type*} (P : Ratings R)

/-- The entry of such a node. -/
def bootstrapEntry (now : ℤ) (node : HostKey × HostSource) : PeerEntry R := ⟨node.1, 1, now, P.zero, node.2, 0⟩

/-- `bm_peer_manager_seed_bootstrap`: only when no host is known but the node itself. -/
def peerManagerSeedBootstrap (hosts : Hosts R) (testnet : Bool) (observed : List (Bytes × ℤ)) (now : ℤ) : Hosts R :=
  if ∃ row ∈ hosts.rows, row.isSelf = false then hosts
  else
    (bootstrapKeys testnet observed).foldl (fun hosts node => peerManagerUpsert hosts (bootstrapEntry P now node)) hosts

end

/-! ### What the statements do to a row -/

section

variable {R : Type*} (P : Ratings R) (hosts : Hosts R) {k : HostKey}

theorem find?_upsert_self (entry : PeerEntry R) :
    (peerManagerUpsert hosts entry).find? entry.key = some ((hosts.find? entry.key).elim entry.newRow entry.over) :=
  KeyedTable.find?_upsert_self hosts entry.newRow entry.over fun _ => rfl

theorem find?_upsert_of_ne {entry : PeerEntry R} (h : k ≠ entry.key) :
    (peerManagerUpsert hosts entry).find? k = hosts.find? k :=
  @KeyedTable.find?_upsert_of_ne _ _ _ _ hosts entry.newRow entry.over (fun _ => rfl) k h

theorem find?_upsertLearned_self (learned : LearnedHost) :
    (peerManagerUpsertLearned P hosts learned).find? learned.key =
      some ((hosts.find? learned.key).elim (learned.newRow P) learned.over) :=
  KeyedTable.find?_upsert_self hosts (learned.newRow P) learned.over fun _ => rfl

theorem find?_upsertLearned_of_ne {learned : LearnedHost} (h : k ≠ learned.key) :
    (peerManagerUpsertLearned P hosts learned).find? k = hosts.find? k :=
  @KeyedTable.find?_upsert_of_ne _ _ _ _ hosts (learned.newRow P) learned.over (fun _ => rfl) k h

theorem find?_markSelf_self (key : HostKey) (now : ℤ) :
    (peerManagerMarkSelf P hosts key now).find? key =
      some ((hosts.find? key).elim (selfRow P key now) HostRow.marked) :=
  KeyedTable.find?_upsert_self hosts (selfRow P key now) HostRow.marked fun _ => rfl

theorem find?_markSelf_of_ne {key : HostKey} (h : k ≠ key) (now : ℤ) :
    (peerManagerMarkSelf P hosts key now).find? k = hosts.find? k :=
  @KeyedTable.find?_upsert_of_ne _ _ _ _ hosts (selfRow P key now) HostRow.marked (fun _ => rfl) k h

theorem find?_recordResult (key : HostKey) (success : Bool) (now : ℤ) :
    (peerManagerRecordResult P hosts key success now).find? k = (hosts.find? k).map fun row =>
      if row.key = key then
        if success then { row with rating := P.raise row.rating, lastSeen := now }
        else { row with rating := P.lower row.rating }
      else row :=
  KeyedTable.find?_update hosts _ _ k

theorem find?_recordAttempt (key : HostKey) (now : ℤ) :
    (peerManagerRecordAttempt hosts key now).find? k = (hosts.find? k).map fun row =>
      if row.key = key then { row with lastAttempt := now } else row :=
  KeyedTable.find?_update hosts _ _ k

theorem find?_cleanup [LinearOrder R] (now : ℤ) :
    (peerManagerCleanup P hosts now).1.find? k = (hosts.find? k).filter fun row => !staleHost P now row :=
  KeyedTable.find?_deleteWhere hosts _ k

/-- Storing the nodes of a first start: the hosts among them are seen now, the others are not touched, and a
mark stays. -/
theorem find?_foldl_bootstrap (now : ℤ) (nodes : List (HostKey × HostSource)) :
    (k ∈ nodes.map Prod.fst →
      ∃ row, (nodes.foldl (fun hosts node => peerManagerUpsert hosts (bootstrapEntry P now node)) hosts).find? k =
          some row ∧
        row.lastSeen = now ∧ row.isSelf = (hosts.find? k).elim false HostRow.isSelf) ∧
    (k ∉ nodes.map Prod.fst →
      (nodes.foldl (fun hosts node => peerManagerUpsert hosts (bootstrapEntry P now node)) hosts).find? k =
        hosts.find? k) := by
  induction nodes generalizing hosts with
  | nil => simp
  | cons node nodes ih =>
    obtain ⟨hin, hout⟩ := ih (peerManagerUpsert hosts (bootstrapEntry P now node))
    simp only [List.foldl_cons, List.map_cons, List.mem_cons, not_or]
    by_cases hk : k = node.1
    · have hself : (peerManagerUpsert hosts (bootstrapEntry P now node)).find? k =
          some ((hosts.find? k).elim (bootstrapEntry P now node).newRow (bootstrapEntry P now node).over) := by
        rw [hk]
        exact find?_upsert_self hosts (bootstrapEntry P now node)
      have hnow : ((hosts.find? k).elim (bootstrapEntry P now node).newRow (bootstrapEntry P now node).over).lastSeen =
          now := by
        rcases hosts.find? k with _ | row
        · rfl
        · rfl
      have hmark : ((hosts.find? k).elim (bootstrapEntry P now node).newRow (bootstrapEntry P now node).over).isSelf =
          (hosts.find? k).elim false HostRow.isSelf := by
        rcases hosts.find? k with _ | row
        · rfl
        · rfl
      refine ⟨fun _ => ?_, fun h => absurd hk h.1⟩
      by_cases hrest : k ∈ nodes.map Prod.fst
      · obtain ⟨row, hrow, hseen, hmarked⟩ := hin hrest
        rw [hself, Option.elim_some, hmark] at hmarked
        exact ⟨row, hrow, hseen, hmarked⟩
      · exact ⟨_, (hout hrest).trans hself, hnow, hmark⟩
    · have hother : (peerManagerUpsert hosts (bootstrapEntry P now node)).find? k = hosts.find? k :=
        find?_upsert_of_ne hosts hk
      rw [hother] at hin hout
      exact ⟨fun h => hin (h.resolve_left hk), fun h => hout h.2⟩

/-- What seeding does to a host: it is one of the nodes and seen now, or it is left as it is. -/
theorem find?_seedBootstrap (testnet : Bool) (observed : List (Bytes × ℤ)) (now : ℤ) (k : HostKey) :
    ((∀ row ∈ hosts.rows, row.isSelf = true) ∧ k ∈ (bootstrapKeys testnet observed).map Prod.fst ∧
      ∃ row, (peerManagerSeedBootstrap P hosts testnet observed now).find? k = some row ∧ row.lastSeen = now ∧
        row.isSelf = (hosts.find? k).elim false HostRow.isSelf) ∨
    (¬ ((∀ row ∈ hosts.rows, row.isSelf = true) ∧ k ∈ (bootstrapKeys testnet observed).map Prod.fst) ∧
      (peerManagerSeedBootstrap P hosts testnet observed now).find? k = hosts.find? k) := by
  unfold peerManagerSeedBootstrap
  split_ifs with hknown
  · obtain ⟨row, hrow, hself⟩ := hknown
    refine .inr ⟨fun h => ?_, rfl⟩
    rw [h.1 row hrow] at hself
    cases hself
  · have hall : ∀ row ∈ hosts.rows, row.isSelf = true := by
      intro row hrow
      rw [← Bool.not_eq_false]
      exact fun hself => hknown ⟨row, hrow, hself⟩
    have hfold := @find?_foldl_bootstrap R P hosts k now (bootstrapKeys testnet observed)
    by_cases hk : k ∈ (bootstrapKeys testnet observed).map Prod.fst
    · exact .inl ⟨hall, hk, hfold.1 hk⟩
    · exact .inr ⟨fun h => hk h.2, hfold.2 hk⟩

end

end Bitmessage
