import Bitmessage.Infra.DandelionPhase
import Bitmessage.Lib.InPlace
import Bitmessage.Lib.OpenAddressing

/-! The entries of the propagation state as they are kept: an array, and beside it a table of the
array's indices under the first bytes of the hashes. A new entry is counted before the table is
grown, so a table that is built anew for it has it already, and it is then put in a second time;
the load is bounded with one slot to spare. A sweep moves the entries it keeps to the front and
builds the table anew if it has dropped any. -/

namespace Bitmessage

open OpenAddressing Transition

/-- `BM_DANDELION_INDEX_INITIAL_CAPACITY`. -/
def dandelionIndexInitialCapacity : ℕ := 128

/-- `g_state`. The list holds the `entry_count` first entries of the array; the slots that are
`BM_DANDELION_INDEX_EMPTY` are `none`, and `index_capacity` is their number. -/
structure DandelionTable where
  stem : Option PeerAddress
  epochStarted : ℤ
  entries : List DandelionEntry
  entryCapacity : ℕ
  slots : Slots ℕ

/-- `index_key`: the first eight bytes as a number in the order of the machine. -/
def indexKey (hash : Bytes) : ℕ := Nat.ofDigits 256 ((hash.take 8).map UInt8.toNat)

/-- The key of the entry at an index. -/
def entryKey (entries : List DandelionEntry) (i : ℕ) : ℕ := (entries[i]?).elim 0 fun e => indexKey e.hash

/-- `index_rebuild`. -/
def indexRebuild (entries : List DandelionEntry) (capacity : ℕ) : Option (Slots ℕ) :=
  fill capacity (entryKey entries) (List.range entries.length)

/-- `index_ensure_capacity`. -/
def indexEnsureCapacity (entries : List DandelionEntry) (slots : Slots ℕ) : Option (Slots ℕ) :=
  if slots.length = 0 then indexRebuild entries dandelionIndexInitialCapacity
  else if slots.length < (entries.length + 1) * 2 then indexRebuild entries (slots.length * 2)
  else some slots

/-- `memcmp(g_state.entries[idx].hash, hash, 32) == 0`. -/
def hasHash (entries : List DandelionEntry) (hash : Bytes) (i : ℕ) : Bool :=
  decide ((entries[i]?).map DandelionEntry.hash = some hash)

/-- `index_lookup`. -/
def indexLookup (t : DandelionTable) (hash : Bytes) : Option ℕ :=
  lookup t.slots (hasHash t.entries hash) (indexKey hash)

/-- The array has room for one entry more. -/
def grownEntryCapacity (t : DandelionTable) : ℕ :=
  if t.entryCapacity ≤ t.entries.length then if t.entryCapacity = 0 then 64 else t.entryCapacity * 2
  else t.entryCapacity

/-- `find_or_create_entry`, where memory can be had. It answers the index of the entry. -/
def tableFindOrCreate (t : DandelionTable) (hash : Bytes) (now : ℤ) (delay : ℕ) : Option (DandelionTable × ℕ) :=
  match indexLookup t hash with
  | some i => some (t, i)
  | none =>
    let entries := t.entries ++ [DandelionEntry.new hash now delay]
    (indexEnsureCapacity entries t.slots).bind fun slots =>
      (if slots.length = 0 then some slots else insert slots (indexKey hash) t.entries.length).map fun slots =>
        ({ t with entries := entries, entryCapacity := grownEntryCapacity t, slots := slots }, t.entries.length)

/-- `bm_dandelion_note_source`. -/
def tableNoteSource (t : DandelionTable) (hash : Bytes) (isDinv : Bool) (now : ℤ) (delay : ℕ) : Option DandelionTable :=
  if isDinv then some t
  else (tableFindOrCreate t hash now delay).map fun (t, i) =>
    { t with entries := t.entries.modify i fun e => { e with learnedViaPlainInv := true } }

/-- `bm_dandelion_decide`. -/
def tableDecide (t : DandelionTable) (hash : Bytes) (target : Option PeerAddress) (now : ℤ) (delay : ℕ) :
    Option (DandelionTable × PropagationMode) :=
  (tableFindOrCreate t hash now delay).bind fun (t, i) =>
    (t.entries[i]?).map fun e =>
      if FluffsAt t.stem e now then ({ t with entries := t.entries.modify i fun e => e.fluffed now }, .fluff)
      else (t, if target = t.stem then .stem else .skip)

/-- The first loop of `bm_dandelion_expire_and_refluff`: the entries after it, and the hashes it has
taken down, up to a limit. -/
def markExpired (now : ℤ) : ℕ → List DandelionEntry → List DandelionEntry × List Bytes
  | 0, es => (es, [])
  | _ + 1, [] => ([], [])
  | limit + 1, e :: es =>
    if e.fluffedAt = 0 ∧ e.fluffDeadline ≤ now then
      let rest := markExpired now limit es
      ({ e with fluffedAt := now } :: rest.1, e.hash :: rest.2)
    else
      let rest := markExpired now (limit + 1) es
      (e :: rest.1, rest.2)

/-- The entries that a sweep keeps, after it has marked those it takes down. -/
def keptEntries (t : DandelionTable) (now : ℤ) : List DandelionEntry :=
  InPlace.compact (fun e => !e.stale now) (markExpired now dandelionMaxExpirePerCall t.entries).1

/-- The part of `bm_dandelion_expire_and_refluff` under the lock. -/
def tableExpire (t : DandelionTable) (now : ℤ) : Option DandelionTable :=
  let kept := keptEntries t now
  if kept.length ≠ t.entries.length ∧ 0 < t.slots.length then
    (indexRebuild kept t.slots.length).map fun slots => { t with entries := kept, slots := slots }
  else some { t with entries := kept }

/-- `bm_dandelion_maybe_reshuffle`. -/
def tableMaybeReshuffle (t : DandelionTable) (now : ℤ) (found : Option PeerAddress) : DandelionTable :=
  if t.epochStarted ≠ 0 ∧ now - t.epochStarted < dandelionEpochSeconds then t
  else { t with stem := found, epochStarted := now }

/-- The calls on the table; an entry may also be asked for alone. -/
inductive TableCall
  | findOrCreate (hash : Bytes) (now : ℤ) (delay : ℕ)
  | call (c : DandelionCall)

/-- A call on the table. It fails where a probe loop would not end. -/
def tableStep (t : DandelionTable) : TableCall → Option DandelionTable
  | .findOrCreate hash now delay => (tableFindOrCreate t hash now delay).map Prod.fst
  | .call (.noteSource hash isDinv now delay) => tableNoteSource t hash isDinv now delay
  | .call (.reshuffle now found) => some (tableMaybeReshuffle t now found)
  | .call (.decide hash target now delay) => (tableDecide t hash target now delay).map Prod.fst
  | .call (.expire now) => tableExpire t now

/-- `bm_dandelion_module_init`. -/
def tableInit : DandelionTable := ⟨none, 0, [], 0, []⟩

/-- The same calls on the entries as they are told by a search through all of them. -/
def searchedStep (d : Dandelion) : TableCall → Option Dandelion
  | .findOrCreate hash now delay => some (findOrCreateEntry d hash now delay).1
  | .call c => dandelionStep d c

/-! ### The tables in which a loop probes -/

/-- The tables of `index_rebuild`, one for each entry that is put in. -/
def rebuildTables (entries : List DandelionEntry) (capacity : ℕ) : List (Slots ℕ) :=
  (List.range entries.length).filterMap fun n => fill capacity (entryKey entries) (List.range n)

/-- The tables of `index_ensure_capacity`. -/
def ensureTables (entries : List DandelionEntry) (slots : Slots ℕ) : List (Slots ℕ) :=
  if slots.length = 0 then rebuildTables entries dandelionIndexInitialCapacity
  else if slots.length < (entries.length + 1) * 2 then rebuildTables entries (slots.length * 2)
  else []

/-- The tables of `find_or_create_entry`: the one it looks up in, and for a new entry those of
the growth and the one it is put in. -/
def findTables (t : DandelionTable) (hash : Bytes) (now : ℤ) (delay : ℕ) : List (Slots ℕ) :=
  let entries := t.entries ++ [DandelionEntry.new hash now delay]
  (if t.slots.length = 0 then [] else [t.slots]) ++
    if (indexLookup t hash).isSome then []
    else ensureTables entries t.slots ++ (indexEnsureCapacity entries t.slots).toList

/-- The tables of a call in which a loop probes. -/
def probedTables (t : DandelionTable) : TableCall → List (Slots ℕ)
  | .findOrCreate hash now delay => findTables t hash now delay
  | .call (.noteSource hash isDinv now delay) => if isDinv then [] else findTables t hash now delay
  | .call (.reshuffle _ _) => []
  | .call (.decide hash _ now delay) => findTables t hash now delay
  | .call (.expire now) =>
    let kept := keptEntries t now
    if kept.length ≠ t.entries.length ∧ 0 < t.slots.length then rebuildTables kept t.slots.length else []

/-! ### The table fits the entries -/

/-- The hashes are distinct, and the table holds their indices and no others, with slots to spare. -/
structure TableFits (t : DandelionTable) : Prop where
  hashes : (t.entries.map DandelionEntry.hash).Nodup
  members : ∀ i, some i ∈ t.slots ↔ i < t.entries.length
  linked : OpenAddressing.Linked t.slots (entryKey t.entries)
  occupied : occupied t.slots ≤ t.entries.length + 1
  load : t.entries = [] ∧ t.slots = [] ∨ (t.entries.length + 1) * 2 ≤ t.slots.length
  room : t.entries.length ≤ t.entryCapacity

section

variable {t : DandelionTable} {hash : Bytes} {now : ℤ} {delay : ℕ}

theorem entryKey_of_map_eq {es es' : List DandelionEntry}
    (h : es'.map DandelionEntry.hash = es.map DandelionEntry.hash) :
    entryKey es' = entryKey es := by
  funext i
  have hi : (es'[i]?).map DandelionEntry.hash = (es[i]?).map DandelionEntry.hash := by
    rw [← List.getElem?_map, ← List.getElem?_map, h]
  have hkey (l : List DandelionEntry) : entryKey l i = ((l[i]?).map DandelionEntry.hash).elim 0 indexKey := by
    rw [entryKey, Option.elim_map]
    rfl
  rw [hkey, hkey, hi]

theorem entryKey_append {es : List DandelionEntry} {e : DandelionEntry} {i : ℕ} (h : i < es.length) :
    entryKey (es ++ [e]) i = entryKey es i := by
  rw [entryKey, entryKey, List.getElem?_append_left h]

theorem entryKey_length (es : List DandelionEntry) (e : DandelionEntry) :
    entryKey (es ++ [e]) es.length = indexKey e.hash := by
  simp [entryKey]

/-- A change that leaves the hashes as they are. -/
theorem TableFits.of_map_eq (h : TableFits t) {es : List DandelionEntry}
    (hes : es.map DandelionEntry.hash = t.entries.map DandelionEntry.hash) : TableFits { t with entries := es } := by
  have hlength : es.length = t.entries.length := by
    simpa using congrArg List.length hes
  refine ⟨hes ▸ h.hashes, fun i => ?_, ?_, ?_, ?_, ?_⟩
  · rw [hlength]
    exact h.members i
  · rw [entryKey_of_map_eq hes]
    exact h.linked
  · rw [hlength]
    exact h.occupied
  · rcases h.load with ⟨hentries, hslots⟩ | hload
    · refine .inl ⟨List.eq_nil_of_length_eq_zero ?_, hslots⟩
      rw [hlength, hentries, List.length_nil]
    · rw [hlength]
      exact .inr hload
  · rw [hlength]
    exact h.room

/-- A probe loop finds an empty slot in the table. -/
theorem TableFits.none_mem (h : TableFits t) (hslots : t.slots.length ≠ 0) : none ∈ t.slots := by
  have hoccupied := h.occupied
  rw [none_mem_iff]
  rcases h.load with ⟨-, hnil⟩ | hload
  · rw [hnil] at hslots
    exact absurd rfl hslots
  · omega

theorem hasHash_iff {es : List DandelionEntry} {i : ℕ} :
    hasHash es hash i = true ↔ ∃ e, es[i]? = some e ∧ e.hash = hash := by
  rw [hasHash, decide_eq_true_iff, Option.map_eq_some_iff]

/-- The lookup answers the index at which the hash stands. -/
theorem indexLookup_eq_some_iff (h : TableFits t) {i : ℕ} :
    indexLookup t hash = some i ↔ ∃ e, t.entries[i]? = some e ∧ e.hash = hash := by
  have hhome (j : ℕ) (hj : hasHash t.entries hash j = true) : entryKey t.entries j = indexKey hash := by
    obtain ⟨e, he, rfl⟩ := hasHash_iff.mp hj
    rw [entryKey, he, Option.elim_some]
  have hone (j k : ℕ) (hj : hasHash t.entries hash j = true) (hk : hasHash t.entries hash k = true) : j = k := by
    obtain ⟨e, he, hhash⟩ := hasHash_iff.mp hj
    obtain ⟨e', he', hhash'⟩ := hasHash_iff.mp hk
    have hlt : j < (t.entries.map DandelionEntry.hash).length := by
      simpa using (List.getElem?_eq_some_iff.mp he).1
    refine (List.getElem?_inj hlt h.hashes).mp ?_
    rw [List.getElem?_map, List.getElem?_map, he, he', Option.map_some, Option.map_some, hhash, hhash']
  rw [indexLookup, lookup_eq_some_iff h.linked hhome fun j k _ _ => hone j k, hasHash_iff, h.members]
  refine and_iff_right_of_imp ?_
  rintro ⟨e, he, -⟩
  exact (List.getElem?_eq_some_iff.mp he).1

theorem indexLookup_eq_none_iff (h : TableFits t) :
    indexLookup t hash = none ↔ hash ∉ t.entries.map DandelionEntry.hash := by
  rw [← not_iff_not, not_not, ← ne_eq, Option.ne_none_iff_exists', List.mem_map]
  constructor
  · rintro ⟨i, hi⟩
    obtain ⟨e, he, hhash⟩ := (indexLookup_eq_some_iff h).mp hi
    exact ⟨e, List.mem_of_getElem? he, hhash⟩
  · rintro ⟨e, hmem, hhash⟩
    obtain ⟨i, hlt, he⟩ := List.getElem_of_mem hmem
    exact ⟨i, (indexLookup_eq_some_iff h).mpr ⟨e, he ▸ List.getElem?_eq_getElem hlt, hhash⟩⟩

/-! ### Building the table anew, and growing it -/

theorem indexRebuild_spec {es : List DandelionEntry} {capacity : ℕ} (h : es.length ≤ capacity) :
    ∃ slots, indexRebuild es capacity = some slots ∧ slots.length = capacity ∧
      OpenAddressing.occupied slots = es.length ∧ (∀ i, some i ∈ slots ↔ i < es.length) ∧
        OpenAddressing.Linked slots (entryKey es) := by
  have hsome : (indexRebuild es capacity).isSome := fill_isSome (by rwa [List.length_range])
  obtain ⟨slots, hslots⟩ := Option.isSome_iff_exists.mp hsome
  obtain ⟨hlength, hoccupied, hmem, hlinked⟩ := fill_eq_some hslots
  rw [List.length_range] at hoccupied
  exact ⟨slots, hslots, hlength, hoccupied, fun i => (hmem i).trans List.mem_range, hlinked⟩

theorem none_mem_rebuildTables {es : List DandelionEntry} {capacity : ℕ} (h : es.length ≤ capacity) :
    ∀ slots ∈ rebuildTables es capacity, none ∈ slots := by
  intro slots hslots
  obtain ⟨n, hn, hfill⟩ := List.mem_filterMap.mp hslots
  obtain ⟨hlength, hoccupied, -, -⟩ := fill_eq_some hfill
  rw [List.mem_range] at hn
  rw [List.length_range] at hoccupied
  rw [none_mem_iff]
  omega

/-- The table after the growth for a new entry: it holds the entries in front, and perhaps the new
one already, and more than half of it is empty. -/
theorem indexEnsureCapacity_spec (h : TableFits t) (e : DandelionEntry) :
    ∃ slots, indexEnsureCapacity (t.entries ++ [e]) t.slots = some slots ∧
      OpenAddressing.occupied slots ≤ t.entries.length + 1 ∧ (t.entries.length + 2) * 2 ≤ slots.length ∧
      (∀ i < t.entries.length, some i ∈ slots) ∧ (∀ i, some i ∈ slots → i < t.entries.length + 1) ∧
      OpenAddressing.Linked slots (entryKey (t.entries ++ [e])) := by
  have hlength : (t.entries ++ [e]).length = t.entries.length + 1 := by simp
  have hoccupied := h.occupied
  -- What a rebuilt table offers, provided that its size bounds the load.
  have hrebuilt {capacity : ℕ} (hsize : (t.entries.length + 2) * 2 ≤ capacity) :
      ∃ slots, indexRebuild (t.entries ++ [e]) capacity = some slots ∧
        OpenAddressing.occupied slots ≤ t.entries.length + 1 ∧ (t.entries.length + 2) * 2 ≤ slots.length ∧
        (∀ i < t.entries.length, some i ∈ slots) ∧ (∀ i, some i ∈ slots → i < t.entries.length + 1) ∧
        OpenAddressing.Linked slots (entryKey (t.entries ++ [e])) := by
    obtain ⟨slots, hslots, hcapacity, hfull, hmem, hlinked⟩ :=
      @indexRebuild_spec (t.entries ++ [e]) capacity (by omega)
    rw [hlength] at hfull hmem
    refine ⟨slots, hslots, hfull.le, hcapacity ▸ hsize, fun i hi => (hmem i).mpr (by omega), fun i hi => ?_, hlinked⟩
    exact (hmem i).mp hi
  unfold indexEnsureCapacity
  rw [hlength]
  split_ifs with hzero hfull
  · refine hrebuilt ?_
    rcases h.load with ⟨hnil, -⟩ | hload
    · rw [hnil, List.length_nil]
      decide
    · omega
  · refine hrebuilt ?_
    rcases h.load with ⟨-, hnil⟩ | hload
    · exact absurd (by rw [hnil, List.length_nil]) hzero
    · omega
  · refine ⟨t.slots, rfl, hoccupied, by omega, fun i hi => (h.members i).mpr hi, fun i hi => ?_, ?_⟩
    · exact Nat.lt_succ_of_lt ((h.members i).mp hi)
    · exact h.linked.congr fun i hi => entryKey_append ((h.members i).mp hi)

theorem none_mem_ensureTables (h : TableFits t) (e : DandelionEntry) :
    ∀ slots ∈ ensureTables (t.entries ++ [e]) t.slots, none ∈ slots := by
  have hlength : (t.entries ++ [e]).length = t.entries.length + 1 := by simp
  unfold ensureTables
  split_ifs with hzero hfull
  · refine none_mem_rebuildTables ?_
    rcases h.load with ⟨hnil, -⟩ | hload
    · rw [hlength, hnil]
      decide
    · omega
  · refine none_mem_rebuildTables ?_
    rcases h.load with ⟨-, hnil⟩ | hload
    · exact absurd (by rw [hnil, List.length_nil]) hzero
    · omega
  · intro slots hslots
    cases hslots

/-! ### The calls -/

/-- The entry of a hash is found, or a new one is put behind the others. -/
theorem tableFindOrCreate_spec (h : TableFits t) (hash : Bytes) (now : ℤ) (delay : ℕ) :
    ∃ t' i e, tableFindOrCreate t hash now delay = some (t', i) ∧ TableFits t' ∧ t'.entries[i]? = some e ∧
      e.hash = hash ∧ t'.stem = t.stem ∧ t'.epochStarted = t.epochStarted ∧
      t'.entries = if hash ∈ t.entries.map DandelionEntry.hash then t.entries else
        t.entries ++ [.new hash now delay] := by
  unfold tableFindOrCreate
  rcases hlookup : indexLookup t hash with _ | i
  · have hnew := (indexLookup_eq_none_iff h).mp hlookup
    obtain ⟨slots, hensure, hoccupied, hsize, hin, hout, hlinked⟩ :=
      indexEnsureCapacity_spec h (.new hash now delay)
    have hnone : none ∈ slots := by
      rw [none_mem_iff]
      omega
    obtain ⟨slots', hinsert⟩ := Option.isSome_iff_exists.mp (insert_isSome.mpr hnone :
      (insert slots (indexKey hash) t.entries.length).isSome)
    have hkey : entryKey (t.entries ++ [.new hash now delay]) t.entries.length = indexKey hash := entryKey_length _ _
    have hlinked' : OpenAddressing.Linked slots' (entryKey (t.entries ++ [.new hash now delay])) :=
      linked_insert hlinked (hkey ▸ hinsert)
    simp only [hensure, Option.bind_some, if_neg (show slots.length ≠ 0 by omega), hinsert, Option.map_some,
      if_neg hnew]
    refine ⟨_, _, .new hash now delay, rfl, ⟨?_, fun i => ?_, hlinked', ?_, ?_, ?_⟩, by simp, rfl, rfl, rfl, rfl⟩
    · rw [List.map_append]
      exact h.hashes.append (List.nodup_singleton _) (by simpa [DandelionEntry.new] using hnew)
    · rw [mem_insert hinsert, List.length_append, List.length_singleton]
      constructor
      · rintro (rfl | hi)
        · omega
        · exact hout i hi
      · intro hi
        rcases Nat.lt_succ_iff_lt_or_eq.mp hi with hlt | heq
        · exact .inr (hin i hlt)
        · exact .inl heq
    · rw [occupied_insert hinsert, List.length_append, List.length_singleton]
      omega
    · rw [length_insert hinsert, List.length_append, List.length_singleton]
      exact .inr hsize
    · have hroom := h.room
      rw [List.length_append, List.length_singleton]
      unfold grownEntryCapacity
      simp only
      split_ifs <;> omega
  · obtain ⟨e, he, hhash⟩ := (indexLookup_eq_some_iff h).mp hlookup
    have hold : hash ∈ t.entries.map DandelionEntry.hash := List.mem_map.mpr ⟨e, List.mem_of_getElem? he, hhash⟩
    exact ⟨t, i, e, rfl, h, he, hhash, rfl, rfl, (if_pos hold).symm⟩

theorem none_mem_findTables (h : TableFits t) (hash : Bytes) (now : ℤ) (delay : ℕ) :
    ∀ slots ∈ findTables t hash now delay, none ∈ slots := by
  intro slots hslots
  rcases List.mem_append.mp hslots with hfirst | hgrow
  · split_ifs at hfirst with hzero
    · cases hfirst
    · rw [List.mem_singleton.mp hfirst]
      exact h.none_mem hzero
  · split_ifs at hgrow with hfound
    · cases hgrow
    · rcases List.mem_append.mp hgrow with hensure | hinsert
      · exact none_mem_ensureTables h _ slots hensure
      · obtain ⟨slots', hslots', hoccupied, hsize, -⟩ := indexEnsureCapacity_spec h (.new hash now delay)
        rw [hslots', Option.toList_some, List.mem_singleton] at hinsert
        rw [hinsert, none_mem_iff]
        omega

/-- The hashes that a sweep takes down are the first ones that are due. -/
theorem snd_markExpired (now : ℤ) (limit : ℕ) (es : List DandelionEntry) :
    (markExpired now limit es).2 =
      ((es.filter fun e => decide (e.fluffedAt = 0 ∧ e.fluffDeadline ≤ now)).take limit).map DandelionEntry.hash := by
  induction es generalizing limit with
  | nil => cases limit <;> simp [markExpired]
  | cons e es ih =>
    cases limit with
    | zero => simp [markExpired]
    | succ limit =>
      unfold markExpired
      rw [List.filter_cons]
      by_cases hdue : e.fluffedAt = 0 ∧ e.fluffDeadline ≤ now
      · rw [if_pos hdue, if_pos (decide_eq_true hdue), List.take_succ_cons, List.map_cons, ← ih]
      · rw [if_neg hdue, if_neg (by simpa using hdue), ← ih]

/-- The loop marks the entries whose hashes it takes down. -/
theorem fst_markExpired {now : ℤ} {es : List DandelionEntry} (hes : (es.map DandelionEntry.hash).Nodup) (limit : ℕ) :
    (markExpired now limit es).1 =
      es.map fun e => if e.hash ∈ (markExpired now limit es).2 then { e with fluffedAt := now } else e := by
  induction es generalizing limit with
  | nil => cases limit <;> simp [markExpired]
  | cons e es ih =>
    rw [List.map_cons, List.nodup_cons] at hes
    cases limit with
    | zero => simp [markExpired]
    | succ limit =>
      unfold markExpired
      by_cases hdue : e.fluffedAt = 0 ∧ e.fluffDeadline ≤ now
      · simp only [if_pos hdue, List.map_cons, List.mem_cons, true_or, if_true]
        rw [ih hes.2]
        congr 1
        refine List.map_congr_left fun a ha => ?_
        have hne : a.hash ≠ e.hash := fun he => hes.1 (he ▸ List.mem_map_of_mem ha)
        simp [hne]
      · have hnot : e.hash ∉ (markExpired now (limit + 1) es).2 := by
          rw [snd_markExpired]
          intro hmem
          obtain ⟨a, ha, hae⟩ := List.mem_map.mp hmem
          exact hes.1 (hae ▸ List.mem_map_of_mem (List.mem_of_mem_filter (List.mem_of_mem_take ha)))
        simp only [if_neg hdue, List.map_cons, if_neg hnot]
        rw [ih hes.2]

theorem hashes_markExpired {now : ℤ} {es : List DandelionEntry} (hes : (es.map DandelionEntry.hash).Nodup) (limit : ℕ) :
    (markExpired now limit es).1.map DandelionEntry.hash = es.map DandelionEntry.hash := by
  rw [fst_markExpired hes, List.map_map]
  refine List.map_congr_left fun e _ => ?_
  rw [Function.comp_apply]
  split_ifs <;> rfl

theorem hashes_keptEntries (h : TableFits t) (now : ℤ) :
    ((keptEntries t now).map DandelionEntry.hash).Sublist (t.entries.map DandelionEntry.hash) := by
  rw [keptEntries, InPlace.compact_eq_filter, ← hashes_markExpired h.hashes]
  exact List.filter_sublist.map _

theorem tableExpire_spec (h : TableFits t) (now : ℤ) :
    ∃ t', tableExpire t now = some t' ∧ TableFits t' ∧ t'.stem = t.stem ∧ t'.epochStarted = t.epochStarted ∧
      t'.entries = keptEntries t now ∧
      ∀ slots ∈ probedTables t (.call (.expire now)), none ∈ slots := by
  have hsub := hashes_keptEntries h now
  have hle : (keptEntries t now).length ≤ t.entries.length := by
    simpa using hsub.length_le
  unfold tableExpire probedTables
  simp only
  by_cases hpruned : (keptEntries t now).length ≠ t.entries.length ∧ 0 < t.slots.length
  · obtain ⟨hshort, hpos⟩ := hpruned
    have hload : (t.entries.length + 1) * 2 ≤ t.slots.length := by
      rcases h.load with ⟨-, hnil⟩ | hload
      · rw [hnil] at hpos
        exact absurd hpos (Nat.lt_irrefl 0)
      · exact hload
    obtain ⟨slots, hslots, hcapacity, hfull, hmem, hlinked⟩ :=
      @indexRebuild_spec (keptEntries t now) t.slots.length (by omega)
    rw [if_pos ⟨hshort, hpos⟩, if_pos ⟨hshort, hpos⟩, hslots]
    refine ⟨_, rfl, ⟨h.hashes.sublist hsub, hmem, hlinked, by simp only [hfull]; omega, .inr ?_, ?_⟩, rfl, rfl, rfl,
      none_mem_rebuildTables (by omega)⟩
    · simp only [hcapacity]
      omega
    · exact hle.trans h.room
  · rw [if_neg hpruned, if_neg hpruned]
    refine ⟨_, rfl, h.of_map_eq ?_, rfl, rfl, rfl, fun slots hslots => by cases hslots⟩
    -- Nothing was dropped, or there is no entry at all.
    refine hsub.eq_of_length ?_
    rw [List.length_map, List.length_map]
    rcases Nat.eq_zero_or_pos t.slots.length with hzero | hpos
    · have hnil : t.entries.length = 0 := by
        rcases h.load with ⟨hnil, -⟩ | hload
        · rw [hnil, List.length_nil]
        · omega
      omega
    · have hsame := not_and.mp hpruned
      by_contra hne
      exact hsame (by omega) hpos

end

/-! ### The table and the search through all entries -/

/-- The table holds the same state. -/
structure Represents (t : DandelionTable) (d : Dandelion) : Prop where
  stem : t.stem = d.stem
  epochStarted : t.epochStarted = d.epochStarted
  entries : t.entries = d.entries.rows

section

variable {t : DandelionTable} {d : Dandelion}

theorem represents_findOrCreate (h : TableFits t) (hd : Represents t d) (hash : Bytes) (now : ℤ) (delay : ℕ) :
    ∃ t' i, tableFindOrCreate t hash now delay = some (t', i) ∧ TableFits t' ∧
      t'.entries[i]? = some (findOrCreateEntry d hash now delay).2 ∧
      (findOrCreateEntry d hash now delay).2.hash = hash ∧
      Represents t' (findOrCreateEntry d hash now delay).1 := by
  obtain ⟨t', i, e, hfind, hfits, he, hhash, hstem, hepoch, hentries⟩ := tableFindOrCreate_spec h hash now delay
  have hrows : t'.entries = (findOrCreateEntry d hash now delay).1.entries.rows := by
    have hinsert : (findOrCreateEntry d hash now delay).1.entries.rows = _ :=
      d.entries.rows_insertOrIgnore (.new hash now delay)
    rw [hentries, hd.entries, hinsert]
    by_cases hold : hash ∈ d.entries.rows.map DandelionEntry.hash
    · rw [if_pos hold]
      exact (if_pos hold).symm
    · rw [if_neg hold]
      exact (if_neg hold).symm
  have hfound : (findOrCreateEntry d hash now delay).1.entries.find? hash =
      some (findOrCreateEntry d hash now delay).2 := by
    rw [find?_findOrCreateEntry, if_pos rfl]
    rfl
  have hsame : (findOrCreateEntry d hash now delay).2 = e := by
    have hmem : e ∈ (findOrCreateEntry d hash now delay).1.entries.rows := hrows ▸ List.mem_of_getElem? he
    have hfound' := KeyedTable.find?_eq_some.mpr ⟨hmem, hhash⟩
    exact Option.some.inj (hfound.symm.trans hfound')
  refine ⟨t', i, hfind, hfits, hsame ▸ he, hsame ▸ hhash, hstem.trans hd.stem, hepoch.trans hd.epochStarted, hrows⟩

/-- A change of the entry at the index that was answered is a change of the entry of the hash. -/
theorem represents_modify (h : TableFits t) (hd : Represents t d) {i : ℕ} {e : DandelionEntry}
    (he : t.entries[i]? = some e) {f : DandelionEntry → DandelionEntry} (hf : ∀ a, (f a).hash = a.hash) :
    TableFits { t with entries := t.entries.modify i f } ∧
      Represents { t with entries := t.entries.modify i f } (d.modify e.hash f hf) := by
  have hmodify := KeyedTable.modify_eq_map h.hashes he f
  refine ⟨h.of_map_eq ?_, hd.stem, hd.epochStarted, ?_⟩
  · rw [hmodify, List.map_map]
    refine List.map_congr_left fun a _ => ?_
    rw [Function.comp_apply]
    split_ifs
    · exact hf a
    · rfl
  · show t.entries.modify i f = (d.modify e.hash f hf).entries.rows
    rw [hmodify, hd.entries]
    rfl

/-- A decision by the table is the decision by the search. -/
theorem represents_decide (h : TableFits t) (hd : Represents t d) (hash : Bytes) (target : Option PeerAddress) (now : ℤ)
    (delay : ℕ) : ∃ t', tableDecide t hash target now delay = some (t', (dandelionDecide d hash target now delay).2) ∧
      TableFits t' ∧ Represents t' (dandelionDecide d hash target now delay).1 := by
  obtain ⟨t', i, hfind, hfits, he, hhash, hrep⟩ := represents_findOrCreate h hd hash now delay
  have hmodify := represents_modify hfits hrep he (f := fun e => e.fluffed now) (by simp)
  unfold tableDecide dandelionDecide
  simp only [hfind, Option.bind_some, he, Option.map_some]
  by_cases hfluff : FluffsAt t'.stem (findOrCreateEntry d hash now delay).2 now
  · have hfluff' := hrep.stem ▸ hfluff
    rw [if_pos hfluff, if_pos hfluff']
    simp only [hhash] at hmodify
    exact ⟨_, rfl, hmodify⟩
  · have hfluff' := hrep.stem ▸ hfluff
    rw [if_neg hfluff, if_neg hfluff', hrep.stem]
    exact ⟨_, rfl, hfits, hrep⟩

/-- One call: the table does what the search does, and stays fit. -/
theorem represents_step (h : TableFits t) (hd : Represents t d) (c : TableCall) :
    ∃ t' d', tableStep t c = some t' ∧ searchedStep d c = some d' ∧ TableFits t' ∧ Represents t' d' := by
  cases c with
  | findOrCreate hash now delay =>
    obtain ⟨t', i, hfind, hfits, -, -, hrep⟩ := represents_findOrCreate h hd hash now delay
    exact ⟨t', _, by rw [tableStep, hfind, Option.map_some], rfl, hfits, hrep⟩
  | call c =>
    cases c with
    | noteSource hash isDinv now delay =>
      cases isDinv with
      | true => exact ⟨t, d, rfl, rfl, h, hd⟩
      | false =>
        obtain ⟨t', i, hfind, hfits, he, hhash, hrep⟩ := represents_findOrCreate h hd hash now delay
        have hmodify := represents_modify hfits hrep he (f := fun e => { e with learnedViaPlainInv := true }) (by simp)
        rw [hhash] at hmodify
        refine ⟨_, _, ?_, rfl, hmodify⟩
        rw [tableStep, tableNoteSource, if_neg Bool.false_ne_true, hfind, Option.map_some]
    | reshuffle now found =>
      have hentries := entries_dandelionMaybeReshuffle d now found
      refine ⟨_, _, rfl, rfl, ?_, ?_⟩
      · unfold tableMaybeReshuffle
        split_ifs
        · exact h
        · exact ⟨h.hashes, h.members, h.linked, h.occupied, h.load, h.room⟩
      · unfold tableMaybeReshuffle dandelionCall dandelionMaybeReshuffle reshuffleDue
        simp only [hd.epochStarted, decide_eq_true_eq]
        split_ifs with hearly hdue hdue
        · omega
        · exact hd
        · exact ⟨rfl, rfl, hd.entries⟩
        · omega
    | decide hash target now delay =>
      obtain ⟨t', hdecide, hfits, hrep⟩ := represents_decide h hd hash target now delay
      exact ⟨t', _, by rw [tableStep, hdecide, Option.map_some], rfl, hfits, hrep⟩
    | expire now =>
      obtain ⟨t', hexpire, hfits, hstem, hepoch, hentries, -⟩ := tableExpire_spec h now
      refine ⟨t', _, hexpire, rfl, hfits, hstem.trans hd.stem, hepoch.trans hd.epochStarted, ?_⟩
      have hselected : (markExpired now dandelionMaxExpirePerCall d.entries.rows).2 = expiredHashes d now :=
        snd_markExpired now dandelionMaxExpirePerCall d.entries.rows
      rw [hentries, keptEntries, InPlace.compact_eq_filter, hd.entries, fst_markExpired d.entries.nodup, hselected]
      rfl

theorem represents_run {cs : List TableCall} (h : TableFits t) (hd : Represents t d) :
    ∃ t' d', run tableStep t cs = some t' ∧ run searchedStep d cs = some d' ∧ TableFits t' ∧ Represents t' d' := by
  induction cs generalizing t d with
  | nil => exact ⟨t, d, rfl, rfl, h, hd⟩
  | cons c cs ih =>
    obtain ⟨u, e, hu, he, hfits, hrep⟩ := represents_step h hd c
    obtain ⟨t', d', ht', hd', hfits', hrep'⟩ := ih hfits hrep
    exact ⟨t', d', by rw [run_cons_of hu, ht'], by rw [run_cons_of he, hd'], hfits', hrep'⟩

theorem none_mem_probedTables (h : TableFits t) (c : TableCall) : ∀ slots ∈ probedTables t c, none ∈ slots := by
  cases c with
  | findOrCreate hash now delay => exact none_mem_findTables h hash now delay
  | call c =>
    cases c with
    | noteSource hash isDinv now delay =>
      cases isDinv with
      | true =>
        intro slots hslots
        cases hslots
      | false => exact none_mem_findTables h hash now delay
    | reshuffle now found =>
      intro slots hslots
      cases hslots
    | decide hash target now delay => exact none_mem_findTables h hash now delay
    | expire now =>
      obtain ⟨-, -, -, -, -, -, hnone⟩ := tableExpire_spec h now
      exact hnone

end

theorem tableFits_init : TableFits tableInit where
  hashes := List.nodup_nil
  members := by simp [tableInit]
  linked := by simp [OpenAddressing.Linked, tableInit]
  occupied := by simp [tableInit, OpenAddressing.occupied]
  load := .inl ⟨rfl, rfl⟩
  room := Nat.le_refl 0

/-- Every sequence of calls runs to its end, with the entries and the decisions that a search through
all of them gives; the hashes are distinct, the lookup answers where a hash stands, a slot is empty
in every table in which a loop probes, and no slot refers to an index behind the entries. -/
theorem dandelion_index_refines (cs : List TableCall) :
    ∃ t d, run tableStep tableInit cs = some t ∧ run searchedStep dandelionInit cs = some d ∧
      (t.stem = d.stem ∧ t.epochStarted = d.epochStarted ∧ t.entries = d.entries.rows ∧
        ∀ hash target now delay, (tableDecide t hash target now delay).map Prod.snd =
          some (dandelionDecide d hash target now delay).2) ∧
      (t.entries.map DandelionEntry.hash).Nodup ∧
      (∀ hash i, indexLookup t hash = some i ↔ ∃ e, t.entries[i]? = some e ∧ e.hash = hash) ∧
      (∀ hash, indexLookup t hash = none ↔ ∀ e ∈ t.entries, e.hash ≠ hash) ∧
      (∀ c, ∀ slots ∈ probedTables t c, none ∈ slots) ∧
      (∀ i, some i ∈ t.slots → i < t.entries.length) ∧ t.entries.length ≤ t.entryCapacity := by
  have hinit : Represents tableInit dandelionInit := ⟨rfl, rfl, rfl⟩
  obtain ⟨t, d, ht, hd, hfits, hrep⟩ := @represents_run _ _ cs tableFits_init hinit
  refine ⟨t, d, ht, hd, ⟨hrep.stem, hrep.epochStarted, hrep.entries, fun hash target now delay => ?_⟩, hfits.hashes,
    fun hash i => indexLookup_eq_some_iff hfits, fun hash => ?_, none_mem_probedTables hfits,
    fun i => (hfits.members i).mp, hfits.room⟩
  · obtain ⟨t', hdecide, -, -⟩ := represents_decide hfits hrep hash target now delay
    rw [hdecide, Option.map_some]
  · rw [indexLookup_eq_none_iff hfits]
    simp

end Bitmessage
