import Bitmessage.Infra.Dandelion
import Bitmessage.Lib.Transition

/-! The phases of a hash. An entry waits until it is fluffed, and is dropped some time after that.
Zero is the mark of an entry that waits, so a hash that is fluffed at the clock value zero goes on
waiting. One sweep fluffs the first entries of the table that are due, up to its limit; an entry has
to wait for those in front of it, and no entry comes to stand in front of another later. -/

namespace Bitmessage

open Transition

/-- The calls of the module. -/
inductive DandelionCall
  | noteSource (hash : Bytes) (isDinv : Bool) (now : ℤ) (delay : ℕ)
  | reshuffle (now : ℤ) (found : Option PeerAddress)
  | decide (hash : Bytes) (target : Option PeerAddress) (now : ℤ) (delay : ℕ)
  | expire (now : ℤ)
  deriving DecidableEq

def DandelionCall.now : DandelionCall → ℤ
  | .noteSource _ _ now _ => now
  | .reshuffle now _ => now
  | .decide _ _ now _ => now
  | .expire now => now

def DandelionCall.isExpire : DandelionCall → Bool
  | .expire _ => true
  | _ => false

/-- `bm_dandelion_maybe_reshuffle`, with what `bm_peer_registry_pick_random_dandelion_peer` finds. -/
def dandelionMaybeReshuffle (d : Dandelion) (now : ℤ) (found : Option PeerAddress) : Dandelion :=
  if reshuffleDue d now then { d with stem := found, epochStarted := now } else d

/-- What a call does to the state. -/
def dandelionCall (d : Dandelion) : DandelionCall → Dandelion
  | .noteSource hash isDinv now delay => dandelionNoteSource d hash isDinv now delay
  | .reshuffle now found => dandelionMaybeReshuffle d now found
  | .decide hash target now delay => (dandelionDecide d hash target now delay).1
  | .expire now => dandelionExpire d now

def dandelionStep (d : Dandelion) (c : DandelionCall) : Option Dandelion := some (dandelionCall d c)

/-- `bm_dandelion_module_init`. -/
def dandelionInit : Dandelion := ⟨none, 0, .empty⟩

/-- The call answers that the hash is to be announced to everybody, or selects it for that. -/
def Fluffs (d : Dandelion) (hash : Bytes) : DandelionCall → Prop
  | .decide k target now delay => k = hash ∧ (dandelionDecide d k target now delay).2 = .fluff
  | .expire now => hash ∈ expiredHashes d now
  | _ => False

/-- The entry of the hash stays in the table. -/
def Unpruned (hash : Bytes) (d : Dandelion) (cs : List DandelionCall) : Prop :=
  Always dandelionStep (fun v => (v.entries.find? hash).isSome) d cs

theorem entries_dandelionMaybeReshuffle (d : Dandelion) (now : ℤ) (found : Option PeerAddress) :
    (dandelionMaybeReshuffle d now found).entries = d.entries := by
  unfold dandelionMaybeReshuffle
  split_ifs <;> rfl

/-! ### What a call does to an entry -/

/-- An entry stays as it is, is fluffed, or is dropped. -/
inductive EntryMoves (d : Dandelion) (hash : Bytes) (e : DandelionEntry) (c : DandelionCall) :
    Option DandelionEntry → Prop
  | kept {e' : DandelionEntry} (hdeadline : e'.fluffDeadline = e.fluffDeadline) (hat : e'.fluffedAt = e.fluffedAt) :
      EntryMoves d hash e c (some e')
  | fluffed {e' : DandelionEntry} (hdeadline : e'.fluffDeadline = e.fluffDeadline) (hzero : e.fluffedAt = 0)
      (hfluffs : Fluffs d hash c) (hat : e'.fluffedAt = c.now) : EntryMoves d hash e c (some e')
  | pruned {now : ℤ} (hc : c = .expire now) (hstale : e.stale now = true) : EntryMoves d hash e c none

section

variable {d : Dandelion} {hash : Bytes} {e : DandelionEntry}

theorem stale_marked {now : ℤ} : ({ e with fluffedAt := now } : DandelionEntry).stale now = false := by
  simp [DandelionEntry.stale, dandelionEntryPruneAgeSeconds]

theorem entryMoves_dandelionCall (he : d.entries.find? hash = some e) (c : DandelionCall) :
    EntryMoves d hash e c ((dandelionCall d c).entries.find? hash) := by
  cases c with
  | noteSource k isDinv now delay =>
    by_cases hk : hash = k
    · obtain rfl := hk
      cases isDinv with
      | true =>
        have hsame : (dandelionCall d (.noteSource hash true now delay)).entries.find? hash = some e := he
        rw [hsame]
        exact .kept rfl rfl
      | false =>
        have hnoted : (dandelionCall d (.noteSource hash false now delay)).entries.find? hash =
            some { d.entry hash now delay with learnedViaPlainInv := true } := find?_noteSource_self
        rw [hnoted, Dandelion.entry_of_some he]
        exact .kept rfl rfl
    · have hsame : (dandelionCall d (.noteSource k isDinv now delay)).entries.find? hash = some e :=
        (find?_noteSource hk).trans he
      rw [hsame]
      exact .kept rfl rfl
  | reshuffle now found =>
    have hsame : (dandelionCall d (.reshuffle now found)).entries = d.entries :=
      entries_dandelionMaybeReshuffle d now found
    rw [hsame, he]
    exact .kept rfl rfl
  | decide k target now delay =>
    obtain ⟨hmode, hfind⟩ := @dandelionDecide_eq d k now delay target
    have hnew : (dandelionCall d (.decide k target now delay)).entries.find? hash = _ := hfind hash
    rw [hnew]
    by_cases hk : hash = k
    · obtain rfl := hk
      rw [if_pos rfl, Dandelion.entry_of_some he]
      rw [Dandelion.entry_of_some he] at hmode
      by_cases hfluff : FluffsAt d.stem e now
      · rw [if_pos hfluff] at hmode ⊢
        by_cases hzero : e.fluffedAt = 0
        · have hset : e.fluffed now = { e with fluffedAt := now } := if_pos hzero
          rw [hset]
          exact .fluffed rfl hzero ⟨rfl, hmode⟩ rfl
        · have hset : e.fluffed now = e := if_neg hzero
          rw [hset]
          exact .kept rfl rfl
      · rw [if_neg hfluff]
        exact .kept rfl rfl
    · rw [if_neg hk, he]
      exact .kept rfl rfl
  | expire now =>
    have hnew : (dandelionCall d (.expire now)).entries.find? hash = _ := find?_dandelionExpire
    rw [hnew, he, Option.map_some]
    by_cases hdue : hash ∈ expiredHashes d now
    · obtain ⟨e', he', hzero, -⟩ := mem_expiredHashes hdue
      obtain rfl := Option.some.inj (he.symm.trans he')
      rw [if_pos hdue, Option.filter_some, stale_marked]
      exact .fluffed rfl hzero hdue rfl
    · rw [if_neg hdue, Option.filter_some]
      by_cases hstale : e.stale now = true
      · simp only [hstale]
        exact .pruned rfl hstale
      · rw [Bool.not_eq_true] at hstale
        simp only [hstale]
        exact .kept rfl rfl

/-- An entry that was not there before has just been made. -/
theorem created_dandelionCall (he : d.entries.find? hash = none) {c : DandelionCall} {e' : DandelionEntry}
    (he' : (dandelionCall d c).entries.find? hash = some e') :
    e'.fluffedAt = 0 ∨ Fluffs d hash c ∧ e'.fluffedAt = c.now := by
  have hentry (now : ℤ) (delay : ℕ) : d.entry hash now delay = .new hash now delay := by
    rw [Dandelion.entry, he, Option.getD_none]
  cases c with
  | noteSource k isDinv now delay =>
    by_cases hk : hash = k
    · obtain rfl := hk
      cases isDinv with
      | true => exact absurd (he.symm.trans he') (by simp)
      | false =>
        have hnoted := @find?_noteSource_self d hash now delay
        rw [hentry] at hnoted
        obtain rfl := Option.some.inj (hnoted.symm.trans he')
        exact .inl rfl
    · exact absurd ((find?_noteSource hk).symm.trans he') (by simp [he])
  | reshuffle now found =>
    have hsame : (dandelionCall d (.reshuffle now found)).entries = d.entries :=
      entries_dandelionMaybeReshuffle d now found
    rw [hsame, he] at he'
    cases he'
  | decide k target now delay =>
    obtain ⟨hmode, hfind⟩ := @dandelionDecide_eq d k now delay target
    have hnew := (hfind hash).symm.trans he'
    by_cases hk : hash = k
    · obtain rfl := hk
      rw [if_pos rfl, hentry] at hnew
      rw [hentry] at hmode
      split_ifs at hnew hmode with hfluff
      · obtain rfl := Option.some.inj hnew
        exact .inr ⟨⟨rfl, hmode⟩, rfl⟩
      · obtain rfl := Option.some.inj hnew
        exact .inl rfl
      · obtain rfl := Option.some.inj hnew
        exact .inl rfl
    · rw [if_neg hk, he] at hnew
      cases hnew
  | expire now =>
    have hnew := (@find?_dandelionExpire d hash now).symm.trans he'
    rw [he] at hnew
    cases hnew

end

/-! ### An entry that is fluffed -/

/-- The entry of the hash carries the time at which it was fluffed. -/
def MarkedFluffed (hash : Bytes) (d : Dandelion) : Prop := ∃ e, d.entries.find? hash = some e ∧ e.fluffedAt ≠ 0

section

variable {d v : Dandelion} {hash : Bytes}

theorem isSome_find?_of_fluffs {c : DandelionCall} (h : Fluffs d hash c) :
    ∃ e', (dandelionCall d c).entries.find? hash = some e' ∧ (e'.fluffedAt = 0 → c.now = 0) := by
  cases c with
  | noteSource k isDinv now delay => exact h.elim
  | reshuffle now found => exact h.elim
  | decide k target now delay =>
    obtain ⟨rfl, hanswer⟩ := h
    obtain ⟨hmode, hfind⟩ := @dandelionDecide_eq d k now delay target
    rw [hanswer] at hmode
    have hfluff : FluffsAt d.stem (d.entry k now delay) now := by
      by_contra hnot
      rw [if_neg hnot] at hmode
      split_ifs at hmode
    have hnew := hfind k
    rw [if_pos rfl, if_pos hfluff] at hnew
    refine ⟨_, hnew, fun hzero => ?_⟩
    unfold DandelionEntry.fluffed at hzero
    split_ifs at hzero with hat
    · exact hzero
    · exact absurd hzero hat
  | expire now =>
    obtain ⟨e, he, -, -⟩ := mem_expiredHashes h
    have hnew := @find?_dandelionExpire d hash now
    have hdue : hash ∈ expiredHashes d now := h
    rw [he, Option.map_some, if_pos hdue, Option.filter_some, stale_marked] at hnew
    exact ⟨_, hnew, fun hzero => hzero⟩

/-- Once a hash is fluffed at a clock value that is not the mark, its entry says so. -/
theorem fluffed_of_fluffs {c : DandelionCall} (h : Fluffs d hash c) (hnow : c.now ≠ 0) :
    MarkedFluffed hash (dandelionCall d c) := by
  obtain ⟨e', he', hzero⟩ := isSome_find?_of_fluffs h
  exact ⟨e', he', fun h0 => hnow (hzero h0)⟩

/-- A call leaves a fluffed entry fluffed, or drops it. -/
theorem fluffed_dandelionCall (h : MarkedFluffed hash d) (c : DandelionCall)
    (hstays : ((dandelionCall d c).entries.find? hash).isSome) : MarkedFluffed hash (dandelionCall d c) := by
  obtain ⟨e, he, hat⟩ := h
  have hmoves := entryMoves_dandelionCall he c
  obtain ⟨e', he'⟩ := Option.isSome_iff_exists.mp hstays
  rw [he'] at hmoves
  cases hmoves with
  | kept hdeadline hsame => exact ⟨e', he', hsame ▸ hat⟩
  | fluffed hdeadline hzero => exact absurd hzero hat

theorem fluffed_run {cs : List DandelionCall} (h : MarkedFluffed hash d) (hstays : Unpruned hash d cs)
    (hrun : run dandelionStep d cs = some v) : MarkedFluffed hash v := by
  induction cs generalizing d with
  | nil =>
    cases hrun
    exact h
  | cons c cs ih =>
    have hnext : dandelionStep d c = some (dandelionCall d c) := rfl
    rw [run_cons_of hnext] at hrun
    have hrest := hstays.2 _ hnext
    exact ih (fluffed_dandelionCall h c hrest.start) hrest hrun

/-- A fluffed hash is fluffed for every connection, and not selected again. -/
theorem answers_of_fluffed (h : MarkedFluffed hash d) :
    (∀ target now delay, (dandelionDecide d hash target now delay).2 = .fluff) ∧ ∀ now, hash ∉ expiredHashes d now := by
  obtain ⟨e, he, hat⟩ := h
  refine ⟨fun target now delay => ?_, fun now hdue => ?_⟩
  · obtain ⟨hmode, -⟩ := @dandelionDecide_eq d hash now delay target
    rw [Dandelion.entry_of_some he] at hmode
    have hfluff : FluffsAt d.stem e now := Or.inl hat
    rw [hmode, if_pos hfluff]
  · obtain ⟨e', he', hzero, -⟩ := mem_expiredHashes hdue
    obtain rfl := Option.some.inj (he.symm.trans he')
    exact hat hzero

/-- An entry that is fluffed was fluffed by a call of the past, at the time it carries, and has
been in the table since. -/
theorem fluffed_history {cs : List DandelionCall} {e : DandelionEntry}
    (hrun : run dandelionStep dandelionInit cs = some d) (he : d.entries.find? hash = some e) (hat : e.fluffedAt ≠ 0) :
    ∃ before c after u, cs = before ++ c :: after ∧ run dandelionStep dandelionInit before = some u ∧
      Fluffs u hash c ∧ c.now = e.fluffedAt ∧ Unpruned hash (dandelionCall u c) after := by
  induction cs using List.reverseRecOn generalizing d e with
  | nil =>
    cases hrun
    cases he
  | append_singleton cs c ih =>
    obtain ⟨v, hv, hlast⟩ := run_append_some hrun
    have hd : d = dandelionCall v c := by
      simpa [run, dandelionStep] using hlast.symm
    subst hd
    -- The last call has fluffed the entry, or an earlier one has.
    have hnow (hfluffs : Fluffs v hash c) (hc : e.fluffedAt = c.now) :
        ∃ before c' after u, cs ++ [c] = before ++ c' :: after ∧ run dandelionStep dandelionInit before = some u ∧
          Fluffs u hash c' ∧ c'.now = e.fluffedAt ∧ Unpruned hash (dandelionCall u c') after :=
      ⟨cs, c, [], v, rfl, hv, hfluffs, hc.symm, by simp [Unpruned, Always, he]⟩
    rcases hv' : v.entries.find? hash with _ | e₀
    · rcases created_dandelionCall hv' he with hzero | ⟨hfluffs, hc⟩
      · exact absurd hzero hat
      · exact hnow hfluffs hc
    · have hmoves := entryMoves_dandelionCall hv' c
      rw [he] at hmoves
      cases hmoves with
      | kept hdeadline hsame =>
        obtain ⟨before, c', after, u, rfl, hu, hfluffs, hc', hstays⟩ := ih hv hv' (hsame ▸ hat)
        obtain ⟨w, hw, hafter⟩ := run_append_some hv
        obtain rfl := Option.some.inj (hw.symm.trans hu)
        obtain ⟨w', hw', hbetween⟩ := run_cons hafter
        obtain rfl := Option.some.inj hw'
        have hend : Unpruned hash v [c] := ⟨by simp [hv'], fun t ht => by cases ht; simp [Always, he]⟩
        have hstays' : Unpruned hash (dandelionCall w c') (after ++ [c]) := hstays.append hbetween hend
        exact ⟨before, c', after ++ [c], w, by simp, hw, hfluffs, hc'.trans hsame.symm, hstays'⟩
      | fluffed hdeadline hzero hfluffs hc => exact hnow hfluffs hc

end

/-! ### Waiting for the sweeps -/

/-- The entry is still to be selected at a time. -/
def DandelionEntry.pending (e : DandelionEntry) (now : ℤ) : Bool := decide (e.fluffedAt = 0 ∧ e.fluffDeadline ≤ now)

/-- The entries that are due at a time and not fluffed. -/
def pendingCount (d : Dandelion) (now : ℤ) : ℕ := d.entries.rows.countP fun e => e.pending now

/-- The entry of the hash waits, and at most `m` entries in front of it will be due at the time. -/
structure WaitsBehind (d : Dandelion) (hash : Bytes) (deadline last : ℤ) (m : ℕ) (front : List DandelionEntry)
    (e : DandelionEntry) (back : List DandelionEntry) : Prop where
  rows : d.entries.rows = front ++ e :: back
  hash : e.hash = hash
  waiting : e.fluffedAt = 0
  deadline : e.fluffDeadline = deadline
  front : front.countP (fun e => e.pending last) ≤ m

section

variable {d v : Dandelion} {hash : Bytes} {deadline last : ℤ} {m : ℕ}

theorem waitsBehind_start {e : DandelionEntry} (he : d.entries.find? hash = some e) (hzero : e.fluffedAt = 0)
    (hdue : e.fluffDeadline ≤ last) :
    ∃ front back, WaitsBehind d hash e.fluffDeadline last (pendingCount d last - 1) front e back := by
  obtain ⟨hmem, hhash⟩ := KeyedTable.find?_eq_some.mp he
  obtain ⟨front, back, hrows⟩ := List.append_of_mem hmem
  refine ⟨front, back, hrows, hhash, hzero, rfl, ?_⟩
  have hself : e.pending last = true := decide_eq_true ⟨hzero, hdue⟩
  have hrest : (e :: back).countP (fun e => e.pending last) = back.countP (fun e => e.pending last) + 1 :=
    List.countP_cons_of_pos hself
  rw [pendingCount, hrows, List.countP_append, hrest]
  omega

/-- An entry after a call that does not make an entry wait that did not. -/
def KeepsWaiting (f : DandelionEntry → DandelionEntry) : Prop :=
  ∀ a : DandelionEntry, (f a).hash = a.hash ∧ (f a).fluffDeadline = a.fluffDeadline ∧
    ((f a).fluffedAt = 0 → a.fluffedAt = 0)

theorem keepsWaiting_id : KeepsWaiting id := fun _ => ⟨rfl, rfl, id⟩

theorem rows_findOrCreateEntry_modify (d : Dandelion) (k : Bytes) (now : ℤ) (delay : ℕ)
    {g : DandelionEntry → DandelionEntry} (hhash : ∀ e, (g e).hash = e.hash) (hg : KeepsWaiting g) :
    ∃ tail f, ((findOrCreateEntry d k now delay).1.modify k g hhash).entries.rows = (d.entries.rows ++ tail).map f ∧
      KeepsWaiting f := by
  obtain ⟨tail, htail⟩ := d.entries.exists_rows_insertOrIgnore (.new k now delay)
  refine ⟨tail, fun e => if e.hash = k then g e else e, congrArg _ htail, fun a => ?_⟩
  by_cases hk : a.hash = k
  · simp only [hk, if_true]
    exact ⟨(hhash a).trans hk, (hg a).2⟩
  · simp [hk]

/-- A call that is no sweep appends entries, and changes them in place. -/
theorem rows_dandelionCall (d : Dandelion) {c : DandelionCall} (hc : c.isExpire = false) :
    ∃ tail f, (dandelionCall d c).entries.rows = (d.entries.rows ++ tail).map f ∧ KeepsWaiting f := by
  cases c with
  | noteSource k isDinv now delay =>
    cases isDinv with
    | true => exact ⟨[], id, by simp [dandelionCall, dandelionNoteSource], keepsWaiting_id⟩
    | false =>
      have hnoted : KeepsWaiting fun e => { e with learnedViaPlainInv := true } := fun a => ⟨rfl, rfl, id⟩
      exact rows_findOrCreateEntry_modify d k now delay (by simp) hnoted
  | reshuffle now found =>
    have hsame : (dandelionCall d (.reshuffle now found)).entries = d.entries :=
      entries_dandelionMaybeReshuffle d now found
    exact ⟨[], id, by simp [hsame], keepsWaiting_id⟩
  | decide k target now delay =>
    have hfluffed : KeepsWaiting fun e => e.fluffed now := by
      intro a
      refine ⟨a.fluffed_hash now, ?_⟩
      by_cases hzero : a.fluffedAt = 0
      · simp [DandelionEntry.fluffed, hzero]
      · simp [DandelionEntry.fluffed, hzero]
    obtain ⟨tail, htail⟩ := d.entries.exists_rows_insertOrIgnore (.new k now delay)
    have hsame : (findOrCreateEntry d k now delay).1.entries.rows = (d.entries.rows ++ tail).map id := by
      rw [List.map_id]
      exact htail
    unfold dandelionCall dandelionDecide
    simp only
    split_ifs
    · exact rows_findOrCreateEntry_modify d k now delay (by simp) hfluffed
    · exact ⟨tail, id, hsame, keepsWaiting_id⟩
    · exact ⟨tail, id, hsame, keepsWaiting_id⟩
  | expire now => cases hc

/-- A sweep that does not select the entry selects as many entries in front of it as it may. -/
theorem WaitsBehind.expire {front back : List DandelionEntry} {e : DandelionEntry}
    (h : WaitsBehind d hash deadline last m front e back) {now : ℤ} (hdue : deadline ≤ now) (hnow : now ≠ 0)
    (hlast : now ≤ last) (hnot : hash ∉ expiredHashes d now) :
    ∃ front' back',
      WaitsBehind (dandelionExpire d now) hash deadline last (m - dandelionMaxExpirePerCall) front' e back' ∧
      dandelionMaxExpirePerCall ≤ m := by
  have hself : e.pending now = true := decide_eq_true ⟨h.waiting, h.deadline ▸ hdue⟩
  let due := front.filter fun e => e.pending now
  have hdueRows : (d.entries.rows.filter fun e => e.pending now) = due ++ e :: back.filter fun e => e.pending now := by
    rw [h.rows, List.filter_append]
    exact congrArg _ (List.filter_cons_of_pos hself)
  have hlong : dandelionMaxExpirePerCall ≤ due.length := by
    by_contra hshort
    have hone : dandelionMaxExpirePerCall - due.length = (dandelionMaxExpirePerCall - due.length - 1) + 1 := by omega
    have hmem : e ∈ (d.entries.rows.filter fun e => e.pending now).take dandelionMaxExpirePerCall := by
      rw [hdueRows, List.take_append, hone, List.take_succ_cons]
      exact List.mem_append_right _ List.mem_cons_self
    exact hnot (List.mem_map.mpr ⟨e, hmem, h.hash⟩)
  have hselected : expiredHashes d now = (due.take dandelionMaxExpirePerCall).map DandelionEntry.hash := by
    rw [← List.take_append_of_le_length hlong, ← hdueRows]
    rfl
  let selected (a : DandelionEntry) : Bool := decide (a.hash ∈ expiredHashes d now)
  -- The selected entries are all in front, and were pending.
  have hcount : dandelionMaxExpirePerCall ≤ (front.filter selected).countP fun a => a.pending last := by
    have hself : (due.take dandelionMaxExpirePerCall).filter selected = due.take dandelionMaxExpirePerCall := by
      refine List.filter_eq_self.mpr fun a ha => decide_eq_true ?_
      rw [hselected]
      exact List.mem_map_of_mem ha
    have hsub : (due.take dandelionMaxExpirePerCall).Sublist (front.filter selected) :=
      hself ▸ ((List.take_sublist _ _).trans List.filter_sublist).filter selected
    have hall : (due.take dandelionMaxExpirePerCall).countP (fun a => a.pending last) = dandelionMaxExpirePerCall := by
      rw [List.countP_eq_length.mpr, List.length_take_of_le hlong]
      intro a ha
      obtain ⟨hzero, hle⟩ := of_decide_eq_true (List.mem_filter.mp (List.mem_of_mem_take ha)).2
      exact decide_eq_true ⟨hzero, hle.trans hlast⟩
    calc dandelionMaxExpirePerCall = (due.take dandelionMaxExpirePerCall).countP fun a => a.pending last := hall.symm
      _ ≤ (front.filter selected).countP fun a => a.pending last := hsub.countP_le
  have hsplit := List.countP_eq_countP_filter_add front (fun a => a.pending last) selected
  have hfront := h.front
  let mark (a : DandelionEntry) : DandelionEntry :=
    if a.hash ∈ expiredHashes d now then { a with fluffedAt := now } else a
  have hmarkself : mark e = e := if_neg (h.hash ▸ hnot)
  have hkeeps : e.stale now = false := by simp [DandelionEntry.stale, h.waiting]
  have hrows : (dandelionExpire d now).entries.rows = (front.map mark).filter (fun a => !a.stale now) ++
      e :: (back.map mark).filter fun a => !a.stale now := by
    have hunfold : (dandelionExpire d now).entries.rows = (d.entries.rows.map mark).filter fun a => !a.stale now := rfl
    rw [hunfold, h.rows, List.map_append, List.map_cons, hmarkself, List.filter_append,
      List.filter_cons_of_pos (by simp [hkeeps])]
  refine ⟨_, _, ⟨hrows, h.hash, h.waiting, h.deadline, ?_⟩, by omega⟩
  have hmarked : (front.map mark).countP (fun a => a.pending last) =
      (front.filter fun a => !selected a).countP fun a => a.pending last := by
    rw [List.countP_map, List.countP_filter]
    refine List.countP_congr fun a _ => ?_
    by_cases hsel : a.hash ∈ expiredHashes d now
    · simp [mark, selected, hsel, DandelionEntry.pending, hnow]
    · simp [mark, selected, hsel]
  calc ((front.map mark).filter fun a => !a.stale now).countP (fun a => a.pending last)
      ≤ (front.map mark).countP fun a => a.pending last := List.filter_sublist.countP_le
    _ = (front.filter fun a => !selected a).countP fun a => a.pending last := hmarked
    _ ≤ m - dandelionMaxExpirePerCall := by omega

/-- A call leaves the entry waiting with fewer entries in front of it, if it is a sweep, or the
entry is fluffed. -/
theorem waitsBehind_dandelionCall {front back : List DandelionEntry} {e : DandelionEntry}
    (h : WaitsBehind d hash deadline last m front e back) {c : DandelionCall} (hnow : c.now ≠ 0)
    (hdue : deadline ≤ c.now)
    (hlast : c.now ≤ last) :
    MarkedFluffed hash (dandelionCall d c) ∨ ∃ front' e' back' m',
      WaitsBehind (dandelionCall d c) hash deadline last m' front' e' back' ∧
        m' + (if c.isExpire then dandelionMaxExpirePerCall else 0) ≤ m := by
  by_cases hexpire : c.isExpire = true
  · cases c with
    | expire now =>
      by_cases hselected : hash ∈ expiredHashes d now
      · exact .inl (fluffed_of_fluffs (c := .expire now) hselected hnow)
      · obtain ⟨front', back', hwaits, hm⟩ := h.expire hdue hnow hlast hselected
        refine .inr ⟨front', e, back', _, hwaits, ?_⟩
        rw [if_pos hexpire]
        omega
    | _ => cases hexpire
  · rw [Bool.not_eq_true] at hexpire
    obtain ⟨tail, f, hrows, hf⟩ := rows_dandelionCall d hexpire
    have hpending (a : DandelionEntry) (ha : (f a).pending last = true) : a.pending last = true := by
      obtain ⟨hzero, hle⟩ := of_decide_eq_true ha
      exact decide_eq_true ⟨(hf a).2.2 hzero, (hf a).2.1 ▸ hle⟩
    have hall : (dandelionCall d c).entries.rows = front.map f ++ f e :: (back ++ tail).map f := by
      simp [hrows, h.rows]
    by_cases hzero : (f e).fluffedAt = 0
    · refine .inr ⟨front.map f, f e, (back ++ tail).map f, m, ⟨hall, (hf e).1.trans h.hash, hzero,
        (hf e).2.1.trans h.deadline, ?_⟩, by simp [hexpire]⟩
      rw [List.countP_map]
      exact (List.countP_mono_left fun a _ ha => hpending a ha).trans h.front
    · refine .inl ⟨f e, KeyedTable.find?_eq_some.mpr ⟨?_, (hf e).1.trans h.hash⟩, hzero⟩
      rw [hall]
      exact List.mem_append_right _ List.mem_cons_self

/-- So many sweeps once an entry is due reach it. -/
theorem fluffed_of_sweeps {front back : List DandelionEntry} {e : DandelionEntry} {cs : List DandelionCall}
    (h : WaitsBehind d hash deadline last m front e back)
    (hclock : ∀ c ∈ cs, c.now ≠ 0 ∧ deadline ≤ c.now ∧ c.now ≤ last)
    (hsweeps : m < dandelionMaxExpirePerCall * cs.countP DandelionCall.isExpire) :
    ∃ bs as u, cs = bs ++ as ∧ run dandelionStep d bs = some u ∧ MarkedFluffed hash u := by
  induction cs generalizing d m front e back with
  | nil => simp at hsweeps
  | cons c cs ih =>
    obtain ⟨hnow, hdue, hlast⟩ := hclock c List.mem_cons_self
    have hnext : dandelionStep d c = some (dandelionCall d c) := rfl
    rcases waitsBehind_dandelionCall h hnow hdue hlast with hfluffed | ⟨front', e', back', m', hwaits, hm⟩
    · exact ⟨[c], cs, dandelionCall d c, rfl, by rw [run_cons_of hnext, run_nil], hfluffed⟩
    · have hrest : m' < dandelionMaxExpirePerCall * cs.countP DandelionCall.isExpire := by
        rw [List.countP_cons, Nat.mul_add] at hsweeps
        split_ifs at hm hsweeps <;> omega
      obtain ⟨bs, as, u, rfl, hu, hfluffed⟩ := ih hwaits (fun c' hc' => hclock c' (List.mem_cons_of_mem c hc')) hrest
      exact ⟨c :: bs, as, u, rfl, by rw [run_cons_of hnext, hu], hfluffed⟩

end

/-- A hash that is fluffed stays so for every connection until its entry is dropped, and is not
selected again; it is dropped only some time after it was fluffed; and it is fluffed after as many
sweeps as the entries that fall due until the last of them need. -/
theorem dandelion_phase_monotone {history : List DandelionCall} {d : Dandelion}
    (hd : run dandelionStep dandelionInit history = some d) (hash : Bytes) :
    (∀ c cs v, Fluffs d hash c → c.now ≠ 0 → Unpruned hash (dandelionCall d c) cs →
      run dandelionStep (dandelionCall d c) cs = some v →
        (∀ target now delay, (dandelionDecide v hash target now delay).2 = .fluff) ∧
          ∀ now, hash ∉ expiredHashes v now) ∧
    (∀ c, (d.entries.find? hash).isSome → (dandelionCall d c).entries.find? hash = none →
      ∃ now, c = .expire now ∧ ∃ before c' after u, history = before ++ c' :: after ∧
        run dandelionStep dandelionInit before = some u ∧ Fluffs u hash c' ∧ Unpruned hash (dandelionCall u c') after ∧
          dandelionEntryPruneAgeSeconds < now - c'.now) ∧
    ∀ e cs last, d.entries.find? hash = some e → e.fluffedAt = 0 → e.fluffDeadline ≤ last →
      (∀ c ∈ cs, c.now ≠ 0 ∧ e.fluffDeadline ≤ c.now ∧ c.now ≤ last) →
      (pendingCount d last + dandelionMaxExpirePerCall - 1) / dandelionMaxExpirePerCall ≤
        cs.countP DandelionCall.isExpire →
      ∃ bs as u, cs = bs ++ as ∧ run dandelionStep d bs = some u ∧ MarkedFluffed hash u := by
  refine ⟨fun c cs v hfluffs hnow hstays hrun => ?_, fun c hin hgone => ?_,
    fun e cs last he hzero hdue hclock hsweeps => ?_⟩
  · exact answers_of_fluffed (fluffed_run (fluffed_of_fluffs hfluffs hnow) hstays hrun)
  · obtain ⟨e, he⟩ := Option.isSome_iff_exists.mp hin
    have hmoves := entryMoves_dandelionCall he c
    rw [hgone] at hmoves
    cases hmoves with
    | pruned hc hstale =>
      obtain ⟨hat, hage⟩ := of_decide_eq_true hstale
      obtain ⟨before, c', after, u, hhistory, hu, hfluffs, hnow, hstays⟩ := fluffed_history hd he hat
      exact ⟨_, hc, before, c', after, u, hhistory, hu, hfluffs, hstays, hnow ▸ hage⟩
  · obtain ⟨front, back, hwaits⟩ := waitsBehind_start he hzero hdue
    refine fluffed_of_sweeps hwaits hclock ?_
    unfold dandelionMaxExpirePerCall at hsweeps ⊢
    have hself : 0 < pendingCount d last := by
      obtain ⟨hmem, -⟩ := KeyedTable.find?_eq_some.mp he
      exact List.countP_pos_iff.mpr ⟨e, hmem, decide_eq_true ⟨hzero, hdue⟩⟩
    omega

/-! ### Entries in front that fall due later -/

def crowdHash (i : ℕ) : Bytes := UInt8.ofNat i :: List.replicate 31 0

def crowdPeer : PeerAddress := ⟨[49], 8444⟩

/-- 66 hashes are met at one time, and fall due at 110 and 111. -/
def fewHistory : List DandelionCall :=
  .reshuffle 100 (some crowdPeer) :: (List.range 66).map fun i => .decide (crowdHash i) none 100 (i % 2)

/-- The second sweep reaches the last of them. -/
theorem few_swept :
    ∃ d bs as u, run dandelionStep dandelionInit fewHistory = some d ∧ pendingCount d 112 = 66 ∧
      [DandelionCall.expire 111, .expire 112] = bs ++ as ∧ run dandelionStep d bs = some u ∧
      MarkedFluffed (crowdHash 65) u := by
  have hcomputed : (run dandelionStep dandelionInit fewHistory).map (fun d => (pendingCount d 112,
      (d.entries.find? (crowdHash 65)).map fun e => (e.fluffDeadline, e.fluffedAt))) = some (66, some (111, 0)) := by
    decide +kernel
  obtain ⟨d, hd, hcomputed⟩ := Option.map_eq_some_iff.mp hcomputed
  obtain ⟨hcount, hfind⟩ := Prod.mk.inj hcomputed
  obtain ⟨e, he, hentry⟩ := Option.map_eq_some_iff.mp hfind
  obtain ⟨hdeadline, hzero⟩ := Prod.mk.inj hentry
  obtain ⟨bs, as, u, hsplit, hu, hfluffed⟩ := (dandelion_phase_monotone hd (crowdHash 65)).2.2 e
    [.expire 111, .expire 112] 112 he hzero (by rw [hdeadline]; decide) (by rw [hdeadline]; decide)
    (by rw [hcount]; decide)
  exact ⟨d, bs, as, u, hd, hcount, hsplit, hu, hfluffed⟩

/-- 129 hashes are met at one time. The first 64 and the last one fall due at 110, the others at 111. -/
def crowdHistory : List DandelionCall :=
  .reshuffle 100 (some crowdPeer) ::
    (List.range 129).map fun i => .decide (crowdHash i) none 100 (if 64 ≤ i ∧ i < 128 then 1 else 0)

/-- Two sweeps do for 65 entries that are due, and yet the last one is not reached; and a hash that
is fluffed at the clock value zero is passed on to the stem afterwards. -/
theorem crowd_waits_longer :
    ((run dandelionStep dandelionInit crowdHistory).map fun d => (pendingCount d 110,
      (run dandelionStep d [.expire 110, .expire 111]).map fun v =>
        (v.entries.find? (crowdHash 128)).map fun e => (e.fluffDeadline, e.fluffedAt))) =
          some (65, some (some (110, 0))) ∧
    (dandelionDecide dandelionInit (crowdHash 0) none 0 0).2 = .fluff ∧
      (dandelionDecide (dandelionMaybeReshuffle (dandelionDecide dandelionInit (crowdHash 0) none 0 0).1 0
        (some crowdPeer)) (crowdHash 0) (some crowdPeer) 0 0).2 = .stem := by
  refine ⟨?_, ?_, ?_⟩
  · decide +kernel
  · decide
  · decide

end Bitmessage
