import Bitmessage.Infra.PeerGossip

/-! What a node forgets of its peers. The time at which a host was last seen is written by connections
and by hearsay, and decides what a cleanup deletes. Connections write the clock, and hearsay writes what
it says, which may be any time that has passed. -/

namespace Bitmessage

open Transition

variable {R : Type*} [LinearOrder R] (P : Ratings R)

/-- The table of hosts and the clock of the last operation. -/
structure PeerTime (R : Type*) where
  hosts : Hosts R
  clock : ℤ

/-- Hearsay does not come from the future. -/
def PeerOp.past (now : ℤ) : PeerOp → Bool
  | learned host => host.lastSeen ≤ now
  | _ => true

/-- The operations under a clock that does not go back. -/
def timelyStep (s : PeerTime R) (l : ℤ × PeerOp) : Option (PeerTime R) :=
  if s.clock ≤ l.1 ∧ l.2.past l.1 then some ⟨l.2.apply P l.1 s.hosts, l.1⟩ else none

variable {P} {k : HostKey} {hosts : Hosts R} {now : ℤ} {op : PeerOp}

theorem timelyStep_eq_some {s t : PeerTime R} {l : ℤ × PeerOp} (h : timelyStep P s l = some t) :
    s.clock ≤ l.1 ∧ l.2.past l.1 = true ∧ t = ⟨l.2.apply P l.1 s.hosts, l.1⟩ := by
  unfold timelyStep at h
  split_ifs at h with hgo
  exact ⟨hgo.1, hgo.2, (Option.some.inj h).symm⟩

/-- Where the time in a row comes from: from the row that was there, from the clock, or from hearsay. -/
theorem lastSeen_apply {row' : HostRow R} (h : (op.apply P now hosts).find? k = some row') :
    (∃ row, hosts.find? k = some row ∧ row'.lastSeen = row.lastSeen) ∨ row'.lastSeen = now ∨
      ∃ host, op = .learned host ∧ host.key = k ∧ row'.lastSeen = host.lastSeen := by
  cases op with
  | learned host =>
    by_cases hkey : k = host.key
    · subst hkey
      rw [PeerOp.apply, find?_upsertLearned_self] at h
      cases h
      refine .inr (.inr ⟨host, rfl, rfl, ?_⟩)
      rcases hosts.find? host.key with _ | row
      · rfl
      · rfl
    · rw [PeerOp.apply, find?_upsertLearned_of_ne P hosts hkey] at h
      exact .inl ⟨row', h, rfl⟩
  | result key success =>
    rw [PeerOp.apply, find?_recordResult] at h
    obtain ⟨row, hrow, rfl⟩ := Option.map_eq_some_iff.mp h
    split_ifs
    · exact .inr (.inl rfl)
    · exact .inl ⟨row, hrow, rfl⟩
    · exact .inl ⟨row, hrow, rfl⟩
  | attempt key =>
    rw [PeerOp.apply, find?_recordAttempt] at h
    obtain ⟨row, hrow, rfl⟩ := Option.map_eq_some_iff.mp h
    refine .inl ⟨row, hrow, ?_⟩
    split_ifs
    · rfl
    · rfl
  | cleanup =>
    rw [PeerOp.apply, find?_cleanup] at h
    exact .inl ⟨row', (Option.filter_eq_some_iff.mp h).1, rfl⟩
  | seedBootstrap testnet observed =>
    rcases find?_seedBootstrap P hosts testnet observed now k with ⟨-, -, row, hrow, hseen, -⟩ | ⟨-, hsame⟩
    · rw [PeerOp.apply, hrow] at h
      cases h
      exact .inr (.inl hseen)
    · rw [PeerOp.apply, hsame] at h
      exact .inl ⟨row', h, rfl⟩
  | markSelf key =>
    by_cases hkey : k = key
    · subst hkey
      rw [PeerOp.apply, find?_markSelf_self] at h
      cases h
      rcases hrow : hosts.find? k with _ | row
      · exact .inr (.inl rfl)
      · exact .inl ⟨row, rfl, rfl⟩
    · rw [PeerOp.apply, find?_markSelf_of_ne P hosts hkey] at h
      exact .inl ⟨row', h, rfl⟩

/-- No row is ahead of the clock but those that were when the run began. -/
def NotAhead (start : Hosts R) (s : PeerTime R) : Prop :=
  ∀ k row, s.hosts.find? k = some row →
    row.lastSeen ≤ s.clock ∨ ∃ row₀, start.find? k = some row₀ ∧ row₀.lastSeen = row.lastSeen

theorem notAhead_step {start : Hosts R} {s t : PeerTime R} {l : ℤ × PeerOp} (hs : NotAhead start s)
    (h : timelyStep P s l = some t) : NotAhead start t := by
  obtain ⟨hclock, hpast, rfl⟩ := timelyStep_eq_some h
  intro k row' hrow'
  rcases lastSeen_apply hrow' with ⟨row, hrow, hsame⟩ | hnow | ⟨host, hop, -, hhost⟩
  · rw [hsame]
    exact (hs k row hrow).imp_left fun hle => hle.trans hclock
  · exact .inl hnow.le
  · rw [hop, PeerOp.past, decide_eq_true_eq] at hpast
    exact .inl (hhost ▸ hpast)

/-- A host seen since a time less than the shortest age ago keeps its row, and is seen since that time again
unless hearsay says otherwise. -/
theorem seenSince_apply {since : ℤ} {row : HostRow R} (hrow : hosts.find? k = some row) (hseen : since ≤ row.lastSeen)
    (hsince : since ≤ now) (hage : now - since ≤ peerCleanupMinAge)
    (hhearsay : ∀ host, op = .learned host → host.key = k → since ≤ host.lastSeen) :
    ∃ row', (op.apply P now hosts).find? k = some row' ∧ since ≤ row'.lastSeen := by
  have hstays : ∃ row', (op.apply P now hosts).find? k = some row' := by
    cases op with
    | learned host =>
      by_cases hkey : k = host.key
      · subst hkey
        exact ⟨_, find?_upsertLearned_self P hosts host⟩
      · exact ⟨row, (find?_upsertLearned_of_ne P hosts hkey).trans hrow⟩
    | result key success => exact ⟨_, (find?_recordResult P hosts key success now).trans (congrArg _ hrow)⟩
    | attempt key => exact ⟨_, (find?_recordAttempt hosts key now).trans (congrArg _ hrow)⟩
    | cleanup =>
      have hfresh : staleHost P now row = false := by
        have hmax : ¬ peerCleanupMaxAge < now - row.lastSeen := by
          unfold peerCleanupMaxAge
          unfold peerCleanupMinAge at hage
          omega
        have hmin : ¬ peerCleanupMinAge < now - row.lastSeen := by omega
        simp [staleHost, hmax, hmin]
      refine ⟨row, ?_⟩
      rw [PeerOp.apply, find?_cleanup, hrow, Option.filter_some, if_pos (by rw [hfresh]; rfl)]
    | seedBootstrap testnet observed =>
      rcases find?_seedBootstrap P hosts testnet observed now k with ⟨-, -, row', hrow', -⟩ | ⟨-, hsame⟩
      · exact ⟨row', hrow'⟩
      · exact ⟨row, hsame.trans hrow⟩
    | markSelf key =>
      by_cases hkey : k = key
      · subst hkey
        exact ⟨_, find?_markSelf_self P hosts k now⟩
      · exact ⟨row, (find?_markSelf_of_ne P hosts hkey now).trans hrow⟩
  obtain ⟨row', hrow'⟩ := hstays
  refine ⟨row', hrow', ?_⟩
  rcases lastSeen_apply hrow' with ⟨row₁, hrow₁, hsame⟩ | hnow | ⟨host, hop, hkey, hhost⟩
  · rw [hrow] at hrow₁
    cases hrow₁
    rwa [hsame]
  · rwa [hnow]
  · rw [hhost]
    exact hhearsay host hop hkey

/-- The clocks of a run lie between those of its ends. -/
theorem clock_run {s t : PeerTime R} {ls : List (ℤ × PeerOp)} (h : run (timelyStep P) s ls = some t) :
    s.clock ≤ t.clock ∧ ∀ l ∈ ls, s.clock ≤ l.1 ∧ l.1 ≤ t.clock := by
  induction ls generalizing s with
  | nil =>
    cases h
    exact ⟨le_refl _, by simp⟩
  | cons l ls ih =>
    obtain ⟨u, hu, ht⟩ := run_cons h
    obtain ⟨hclock, -, rfl⟩ := timelyStep_eq_some hu
    obtain ⟨hle, hall⟩ := ih ht
    refine ⟨hclock.trans hle, ?_⟩
    intro l' hl'
    rcases List.mem_cons.mp hl' with rfl | hl'
    · exact ⟨hclock, hle⟩
    · exact ⟨hclock.trans (hall l' hl').1, (hall l' hl').2⟩

/-- Under a clock that does not go back, a time is lowered by older hearsay only, or set to the clock when it
was ahead of it from the beginning; and a host with a recent success outlives a cleanup unless hearsay since then
was older than that. -/
theorem hearsay_alone_forgets {start s : PeerTime R} {ops : List (ℤ × PeerOp)}
    (hrun : run (timelyStep P) start ops = some s) :
    (∀ now op t, timelyStep P s (now, op) = some t → ∀ k row row', s.hosts.find? k = some row →
      t.hosts.find? k = some row' → row'.lastSeen < row.lastSeen →
      (∃ host, op = .learned host ∧ host.key = k ∧ row'.lastSeen = host.lastSeen) ∨
        row'.lastSeen = now ∧ ∃ row₀, start.hosts.find? k = some row₀ ∧ row₀.lastSeen = row.lastSeen) ∧
    ∀ before success k after u, ops = before ++ (success, .result k true) :: after →
      run (timelyStep P) start before = some u → (u.hosts.find? k).isSome →
      ∀ now t, timelyStep P s (now, .cleanup) = some t → now - success ≤ peerCleanupMinAge →
        (∀ l ∈ after, ∀ host, l.2 = .learned host → host.key = k → now - host.lastSeen ≤ peerCleanupMinAge) →
        (t.hosts.find? k).isSome := by
  constructor
  · intro now op t hstep k row row' hrow hrow' hlower
    have hahead : NotAhead start.hosts s := by
      refine run_invariant (fun _ _ _ hs h => notAhead_step hs h) ?_ hrun
      exact fun k row hrow => .inr ⟨row, hrow, rfl⟩
    obtain ⟨hclock, -, rfl⟩ := timelyStep_eq_some hstep
    rcases lastSeen_apply hrow' with ⟨row₁, hrow₁, hsame⟩ | hnow | hhearsay
    · rw [hrow] at hrow₁
      cases hrow₁
      exact absurd hsame hlower.ne
    · refine .inr ⟨hnow, (hahead k row hrow).resolve_left ?_⟩
      rw [hnow] at hlower
      exact not_le.mpr (lt_of_le_of_lt hclock hlower)
    · exact .inl hhearsay
  · rintro before success k after u rfl hbefore hstored now t hcleanup hage hhearsay
    obtain ⟨u', hu', hrest⟩ := run_append_some hrun
    rw [hbefore] at hu'
    cases hu'
    obtain ⟨v, hv, hafter⟩ := run_cons hrest
    obtain ⟨-, -, rfl⟩ := timelyStep_eq_some hv
    obtain ⟨hnow, -, rfl⟩ := timelyStep_eq_some hcleanup
    obtain ⟨-, hclocks⟩ := clock_run hafter
    have hend := (clock_run hafter).1
    -- What is kept from the success on: the host was seen less than the shortest age before the cleanup.
    obtain ⟨row, hrow⟩ := Option.isSome_iff_exists.mp hstored
    have hseen : ∃ row', ((PeerOp.result k true).apply P success u.hosts).find? k = some row' ∧
        now - peerCleanupMinAge ≤ row'.lastSeen := by
      rw [PeerOp.apply, find?_recordResult, hrow, Option.map_some, if_pos (KeyedTable.find?_eq_some.mp hrow).2]
      exact ⟨_, rfl, by simp only [if_true]; omega⟩
    have hkept : ∃ row', s.hosts.find? k = some row' ∧ now - peerCleanupMinAge ≤ row'.lastSeen := by
      refine run_invariant_along (I := fun s : PeerTime R => ∃ row', s.hosts.find? k = some row' ∧
        now - peerCleanupMinAge ≤ row'.lastSeen) ?_ hseen (along_of_mem _ (D := fun l => success ≤ l.1 ∧ l.1 ≤ now ∧
          ∀ host, l.2 = .learned host → host.key = k → now - host.lastSeen ≤ peerCleanupMinAge) ?_) hafter
      · rintro s₁ ⟨now₁, op⟩ s₂ ⟨row₁, hrow₁, hseen₁⟩ ⟨hlow, hhigh, hl⟩ hstep
        obtain ⟨-, -, rfl⟩ := timelyStep_eq_some hstep
        refine seenSince_apply hrow₁ hseen₁ (by simp only at hlow; omega) (by simp only at hhigh; omega) ?_
        intro host hop hkey
        have := hl host hop hkey
        omega
      · intro l hl
        obtain ⟨hlow, hhigh⟩ := hclocks l hl
        exact ⟨hlow, hhigh.trans hnow, hhearsay l hl⟩
    obtain ⟨row', hrow', hseen'⟩ := hkept
    have hclean := @seenSince_apply R _ P k s.hosts now .cleanup (now - peerCleanupMinAge) row' hrow' hseen'
      (by unfold peerCleanupMinAge; omega) (by omega) (fun host hop => by cases hop)
    obtain ⟨row'', hrow'', -⟩ := hclean
    exact Option.isSome_of_eq_some hrow''

/-- A host that a node knows. -/
def friend : HostKey := ipv4Key 5 45 99 75 8444 1

/-- What an entry says of it. -/
def friendSeen (lastSeen : ℤ) : LearnedHost := ⟨friend, 1, lastSeen, .addrMsg⟩

/-- The entry that was last seen at the beginning of time. -/
def oldEntry : AddressInfo := ⟨0, 1, 1, ipv4MappedPrefix ++ [5, 45, 99, 75], 8444⟩

/-- The node learns of the host and connects to it. -/
def connected : List (ℤ × PeerOp) := [(2419201, .learned (friendSeen 2419201)), (2419201, .result friend true)]

/-- The time at which the host was last seen at the end of a run. -/
def friendTime (hosts : Hosts ℤ) (ops : List (ℤ × PeerOp)) : Option ℤ :=
  (run (timelyStep tenths) ⟨hosts, 0⟩ ops).bind fun s => (s.hosts.find? friend).map fun row => row.lastSeen

/-- An entry that is old enough makes the node forget a host that it was connected to a second ago; and a time
ahead of the clock is lowered by a connection. -/
theorem old_hearsay_forgets :
    addrLearned 2419202 oldEntry = some (friendSeen 0) ∧
    friendTime .empty connected = some 2419201 ∧
    friendTime .empty (connected ++ [(2419202, .learned (friendSeen 0))]) = some 0 ∧
    friendTime .empty (connected ++ [(2419202, .learned (friendSeen 0)), (2419202, .cleanup)]) = none ∧
    friendTime (peerManagerUpsertLearned tenths .empty (friendSeen 2147483648)) [(5, .result friend true)] =
      some 5 := by
  decide +kernel

/-- An hour later, with hearsay that is half an hour old, the host is still known. -/
theorem friend_remembered :
    ∃ s t, run (timelyStep tenths) ⟨.empty, 0⟩ (connected ++ [(2421001, .learned (friendSeen 2420000))]) = some s ∧
      timelyStep tenths s (2422801, .cleanup) = some t ∧ (t.hosts.find? friend).isSome := by
  have hlearned : run (timelyStep tenths) ⟨.empty, 0⟩ [(2419201, .learned (friendSeen 2419201))] =
      some ⟨peerManagerUpsertLearned tenths .empty (friendSeen 2419201), 2419201⟩ := rfl
  refine ⟨_, _, rfl, rfl, ?_⟩
  refine (hearsay_alone_forgets (P := tenths) rfl).2 _ 2419201 friend [(2421001, .learned (friendSeen 2420000))] _ rfl
    hlearned (by decide +kernel) 2422801 _ rfl (by decide) ?_
  intro l hl host hop _
  rw [List.mem_singleton.mp hl] at hop
  cases hop
  decide

end Bitmessage
