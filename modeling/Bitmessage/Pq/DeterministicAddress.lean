import Bitmessage.Core.MessageBuilder
import Bitmessage.Pq.Keyring

/-! Addresses of version 5 from a passphrase. A search goes through pairs of nonces, an even one for the
signing key and the odd one behind it for the KEM key, until the id has its zeros; the next search starts
behind the pair at which the last one stopped. A search may run on for ever, so it is given the number of
rounds that it has done. -/

namespace Bitmessage

/-! ### One search -/

/-- `BM_PQV5_LABEL_DETERMINISTIC`. -/
def pqv5LabelDeterministic : Bytes :=
  [0x42, 0x69, 0x74, 0x6d, 0x65, 0x73, 0x73, 0x61, 0x67, 0x65, 0x50, 0x51, 0x2d, 0x76, 0x35, 0x2d, 0x64, 0x65,
    0x74, 0x65, 0x72, 0x6d, 0x69, 0x6e, 0x69, 0x73, 0x74, 0x69, 0x63]

/-- What a seed is the hash of. -/
def seedInput (passphrase : CString) (nonce : ℕ) : Bytes :=
  pqv5LabelDeterministic ++ (0x00 :: (passphrase.bytes ++ varintEncode nonce))

/-- What a search fills in of `struct bm_pqv5_identity`. -/
structure PqGeneratedIdentity where
  stream : ℕ
  seeds : PqSeeds
  keys : PqExpandedKeys
  id : Bytes
  sigNonce : ℕ
  kemNonce : ℕ

/-- `id_has_leading_nulls`. -/
def idHasLeadingNulls (id : Bytes) (nullBytes : ℕ) : Bool := (id.take nullBytes).all fun x => x = 0x00

/-- How far a search has come. -/
inductive SearchEnd
  | running
  | failed
  | found (identity : PqGeneratedIdentity)

/-- The pairs of nonces that a search has examined, and its end. -/
structure SearchRun where
  examined : List (ℕ × ℕ)
  outcome : SearchEnd

/-- A pair of nonces as a list. -/
def pairNonces (pair : ℕ × ℕ) : List ℕ := [pair.1, pair.2]

def SearchRun.nonces (run : SearchRun) : List ℕ := run.examined.flatMap pairNonces

def SearchEnd.identity : SearchEnd → Option PqGeneratedIdentity
  | found identity => some identity
  | _ => none

section

variable (L : PqKeyLibrary) (passphrase : CString)

/-- `derive_seed`. -/
def deriveSeed (nonce : ℕ) : Bytes := (L.sha3_512 (seedInput passphrase nonce)).take pqv5SeedLen

/-- The seeds, the keys and the id of a pair of nonces: `derive_seed` twice and `keys_from_seeds`. -/
def identityAt (stream sigNonce kemNonce : ℕ) : Option PqGeneratedIdentity :=
  let seeds : PqSeeds := ⟨deriveSeed L passphrase sigNonce, deriveSeed L passphrase kemNonce⟩
  (pqv5IdentityFromSeeds L seeds).map fun keys =>
    ⟨stream, seeds, keys, pqv5CalcId L.toPqCrypto keys.sigPk keys.kemPk, sigNonce, kemNonce⟩

/-- The loop of `bm_pqv5_identity_generate_deterministic`. -/
def searchFrom (stream nullBytes : ℕ) : ℕ → ℕ → ℕ → SearchRun
  | 0, _, _ => ⟨[], .running⟩
  | rounds + 1, sigNonce, kemNonce =>
    match identityAt L passphrase stream sigNonce kemNonce with
    | none => ⟨[(sigNonce, kemNonce)], .failed⟩
    | some identity =>
      if idHasLeadingNulls identity.id nullBytes then ⟨[(sigNonce, kemNonce)], .found identity⟩
      else
        let rest := searchFrom stream nullBytes rounds (addW sigNonce 2) (addW kemNonce 2)
        ⟨(sigNonce, kemNonce) :: rest.examined, rest.outcome⟩

/-- `bm_pqv5_identity_generate_deterministic`. -/
def pqv5IdentityGenerateDeterministic (stream startNonce : ℕ) (nullBytes : ℤ) (rounds : ℕ) : SearchRun :=
  if nullBytes < 0 ∨ (pqv5IdLen : ℤ) < nullBytes then ⟨[], .failed⟩
  else searchFrom L passphrase stream nullBytes.toNat rounds startNonce (addW startNonce 1)

/-- `bm_pqv5_next_start_nonce`. -/
def pqv5NextStartNonce (previous : PqGeneratedIdentity) : ℕ := addW previous.kemNonce 1

/-- The arguments of a call, with the rounds of its search. -/
structure GenerateCall where
  stream : ℕ
  nullBytes : ℤ
  rounds : ℕ

/-- Calls one after the other, each from the next start nonce of the identity before. -/
def callChain (startNonce : ℕ) : List GenerateCall → List SearchRun
  | [] => []
  | call :: calls =>
    let run := pqv5IdentityGenerateDeterministic L passphrase call.stream startNonce call.nullBytes call.rounds
    run :: match run.outcome with
      | .found identity => callChain (pqv5NextStartNonce identity) calls
      | _ => []

end

/-- The rounds of all the searches. -/
def totalRounds (runs : List SearchRun) : ℕ := (runs.map fun run => run.examined.length).sum

/-- The identities that were generated. -/
def generated (runs : List SearchRun) : List PqGeneratedIdentity := runs.filterMap fun run => run.outcome.identity

/-! ### The nonces of a search -/

/-- `rounds` pairs from `n` on. -/
def noncePairs (n rounds : ℕ) : List (ℕ × ℕ) := (List.range rounds).map fun i => (n + 2 * i, n + 2 * i + 1)

theorem noncePairs_succ (n rounds : ℕ) : noncePairs n (rounds + 1) = (n, n + 1) :: noncePairs (n + 2) rounds := by
  rw [noncePairs, List.range_succ_eq_map, List.map_cons, List.map_map]
  congr 1
  apply List.map_congr_left
  intro i _
  show (n + 2 * (i + 1), n + 2 * (i + 1) + 1) = (n + 2 + 2 * i, n + 2 + 2 * i + 1)
  rw [Nat.mul_add]
  congr 1 <;> omega

theorem flatMap_noncePairs (n rounds : ℕ) : (noncePairs n rounds).flatMap pairNonces = List.range' n (2 * rounds) := by
  induction rounds generalizing n with
  | zero => rfl
  | succ rounds ih =>
    rw [noncePairs_succ, List.flatMap_cons, ih, Nat.mul_succ, List.range'_succ, List.range'_succ]
    rfl

section

variable {L : PqKeyLibrary} {passphrase : CString} {stream nullBytes : ℕ} {identity : PqGeneratedIdentity}

theorem identityAt_nonces {sigNonce kemNonce : ℕ}
    (h : identityAt L passphrase stream sigNonce kemNonce = some identity) :
    identity.sigNonce = sigNonce ∧ identity.kemNonce = kemNonce ∧
      identity.seeds = ⟨deriveSeed L passphrase sigNonce, deriveSeed L passphrase kemNonce⟩ := by
  obtain ⟨keys, -, rfl⟩ := Option.map_eq_some_iff.mp h
  exact ⟨rfl, rfl, rfl⟩

theorem addW_pair (n : ℕ) : addW (addW n 1) 2 = addW (addW n 2) 1 := by
  unfold addW wordSize
  omega

theorem length_examined_pos (rounds sigNonce kemNonce : ℕ) :
    0 < (searchFrom L passphrase stream nullBytes (rounds + 1) sigNonce kemNonce).examined.length := by
  rw [searchFrom]
  cases identityAt L passphrase stream sigNonce kemNonce with
  | none => exact Nat.one_pos
  | some identity =>
    simp only
    split_ifs
    · exact Nat.one_pos
    · exact Nat.succ_pos _

/-- A search takes the pairs in order, and stops at the last that it has taken. -/
theorem searchFrom_spec {rounds n : ℕ}
    (hfit : n + 2 * (searchFrom L passphrase stream nullBytes rounds n (addW n 1)).examined.length ≤ wordSize) :
    let run := searchFrom L passphrase stream nullBytes rounds n (addW n 1)
    run.examined = noncePairs n run.examined.length ∧
      ∀ identity, run.outcome = .found identity → identity.kemNonce + 1 = n + 2 * run.examined.length := by
  induction rounds generalizing n with
  | zero => exact ⟨rfl, fun _ h => by cases h⟩
  | succ rounds ih =>
    have hpos := @length_examined_pos L passphrase stream nullBytes rounds n (addW n 1)
    have hkem : addW n 1 = n + 1 := addW_of_lt (by omega)
    rw [searchFrom, addW_pair] at hfit ⊢
    cases hid : identityAt L passphrase stream n (addW n 1) with
    | none =>
      simp only [hkem]
      exact ⟨rfl, fun _ h => by cases h⟩
    | some identity =>
      simp only [hid] at hfit ⊢
      split_ifs at hfit ⊢ with hnulls
      · rw [hkem] at hid ⊢
        refine ⟨rfl, ?_⟩
        rintro _ ⟨⟩
        rw [(identityAt_nonces hid).2.1]
        rfl
      · rw [List.length_cons] at hfit
        simp only [List.length_cons]
        cases rounds with
        | zero =>
          rw [hkem]
          exact ⟨rfl, fun _ h => by cases h⟩
        | succ rounds =>
          have hmore := @length_examined_pos L passphrase stream nullBytes rounds (addW n 2) (addW (addW n 2) 1)
          have hnext : addW n 2 = n + 2 := addW_of_lt (by omega)
          rw [hnext] at hfit ⊢
          obtain ⟨hexamined, hfound⟩ := @ih (n + 2) (by omega)
          rw [noncePairs_succ, hkem]
          refine ⟨congrArg _ hexamined, ?_⟩
          intro found houtcome
          have hlast := hfound found houtcome
          omega

/-- What a search that started from an even nonce may return: the identity at a pair that it has examined. -/
def FoundIn (L : PqKeyLibrary) (passphrase : CString) (stream : ℕ) (examined : List (ℕ × ℕ))
    (identity : PqGeneratedIdentity) : Prop :=
  identityAt L passphrase stream identity.sigNonce identity.kemNonce = some identity ∧
    identity.kemNonce = addW identity.sigNonce 1 ∧ identity.sigNonce < wordSize ∧
    (identity.sigNonce, identity.kemNonce) ∈ examined

theorem searchFrom_found {rounds n : ℕ} (hn : n < wordSize)
    (h : (searchFrom L passphrase stream nullBytes rounds n (addW n 1)).outcome = .found identity) :
    FoundIn L passphrase stream (searchFrom L passphrase stream nullBytes rounds n (addW n 1)).examined identity := by
  induction rounds generalizing n with
  | zero => cases h
  | succ rounds ih =>
    rw [searchFrom, addW_pair] at h ⊢
    cases hid : identityAt L passphrase stream n (addW n 1) with
    | none =>
      rw [hid] at h
      cases h
    | some found =>
      simp only [hid] at h ⊢
      split_ifs at h ⊢ with hnulls
      · cases h
        obtain ⟨hsig, hkem, -⟩ := identityAt_nonces hid
        unfold FoundIn
        rw [hsig, hkem]
        exact ⟨hid, rfl, hn, List.mem_singleton.mpr rfl⟩
      · obtain ⟨hat, hpair, hlt, hmem⟩ := ih (addW_lt n 2) h
        exact ⟨hat, hpair, hlt, List.mem_cons_of_mem _ hmem⟩

/-! ### A chain of calls -/

variable {n : ℕ}

theorem generate_spec (stream : ℕ) (nullBytes : ℤ) (rounds : ℕ)
    (hfit : n + 2 * (pqv5IdentityGenerateDeterministic L passphrase stream n nullBytes rounds).examined.length ≤
      wordSize) :
    let run := pqv5IdentityGenerateDeterministic L passphrase stream n nullBytes rounds
    run.examined = noncePairs n run.examined.length ∧
      ∀ identity, run.outcome = .found identity → identity.kemNonce + 1 = n + 2 * run.examined.length := by
  unfold pqv5IdentityGenerateDeterministic at hfit ⊢
  split_ifs at hfit ⊢ with hrange
  · exact ⟨rfl, fun _ h => by cases h⟩
  · exact searchFrom_spec hfit

theorem generate_found {nullBytes : ℤ} {rounds : ℕ} (hn : n < wordSize)
    (h : (pqv5IdentityGenerateDeterministic L passphrase stream n nullBytes rounds).outcome = .found identity) :
    FoundIn L passphrase stream
      (pqv5IdentityGenerateDeterministic L passphrase stream n nullBytes rounds).examined identity := by
  unfold pqv5IdentityGenerateDeterministic at h ⊢
  split_ifs at h ⊢
  exact searchFrom_found hn h

theorem noncePairs_append (n a b : ℕ) : noncePairs n (a + b) = noncePairs n a ++ noncePairs (n + 2 * a) b := by
  rw [noncePairs, List.range_add, List.map_append, List.map_map]
  congr 1
  apply List.map_congr_left
  intro i _
  show (n + 2 * (a + i), n + 2 * (a + i) + 1) = (n + 2 * a + 2 * i, n + 2 * a + 2 * i + 1)
  rw [Nat.mul_add]
  congr 1 <;> omega

theorem totalRounds_cons (run : SearchRun) (runs : List SearchRun) :
    totalRounds (run :: runs) = run.examined.length + totalRounds runs := rfl

theorem length_flatMap_examined (runs : List SearchRun) :
    (runs.flatMap SearchRun.examined).length = totalRounds runs := by
  rw [List.length_flatMap]
  rfl

/-- The pairs of all the searches are consecutive. -/
theorem flatMap_examined_callChain (calls : List GenerateCall)
    (hfit : n + 2 * totalRounds (callChain L passphrase n calls) ≤ wordSize) :
    (callChain L passphrase n calls).flatMap SearchRun.examined =
      noncePairs n (totalRounds (callChain L passphrase n calls)) := by
  induction calls generalizing n with
  | nil => rfl
  | cons call calls ih =>
    rw [callChain, totalRounds_cons] at hfit
    obtain ⟨hexamined, hfound⟩ := @generate_spec L passphrase n call.stream call.nullBytes call.rounds (by omega)
    rw [callChain, totalRounds_cons, List.flatMap_cons, noncePairs_append, ← hexamined]
    congr 1
    cases houtcome :
        (pqv5IdentityGenerateDeterministic L passphrase call.stream n call.nullBytes call.rounds).outcome with
    | running => rfl
    | failed => rfl
    | found identity =>
      have hlast := hfound identity houtcome
      rw [houtcome] at hfit
      simp only at hfit ⊢
      rcases Nat.lt_or_ge (identity.kemNonce + 1) wordSize with hlt | hwrap
      · have hnext : pqv5NextStartNonce identity = n + 2 * (pqv5IdentityGenerateDeterministic L passphrase
            call.stream n call.nullBytes call.rounds).examined.length := by
          rw [← hlast]
          exact addW_of_lt hlt
        rw [hnext] at hfit ⊢
        exact ih (by omega)
      · -- the nonces are used up, and nothing more was examined
        have hnone : totalRounds (callChain L passphrase (pqv5NextStartNonce identity) calls) = 0 := by omega
        rw [hnone]
        apply List.eq_nil_of_length_eq_zero
        rw [length_flatMap_examined, hnone]

theorem callChain_found {calls : List GenerateCall} (hn : n < wordSize) {run : SearchRun}
    (hrun : run ∈ callChain L passphrase n calls) (h : run.outcome = .found identity) :
    ∃ stream, FoundIn L passphrase stream run.examined identity := by
  induction calls generalizing n with
  | nil => cases hrun
  | cons call calls ih =>
    rw [callChain] at hrun
    rcases List.mem_cons.mp hrun with rfl | hlater
    · exact ⟨call.stream, generate_found hn h⟩
    · cases houtcome :
          (pqv5IdentityGenerateDeterministic L passphrase call.stream n call.nullBytes call.rounds).outcome with
      | running => rw [houtcome] at hlater; cases hlater
      | failed => rw [houtcome] at hlater; cases hlater
      | found first =>
        rw [houtcome] at hlater
        exact ih (addW_lt _ _) hlater

/-- The identities take their pairs from the searches, each from its own. -/
theorem generated_sublist {runs : List SearchRun}
    (h : ∀ run ∈ runs, ∀ identity, run.outcome = .found identity →
      (identity.sigNonce, identity.kemNonce) ∈ run.examined) :
    ((generated runs).map fun identity => (identity.sigNonce, identity.kemNonce)).Sublist
      (runs.flatMap SearchRun.examined) := by
  induction runs with
  | nil => exact List.Sublist.slnil
  | cons run runs ih =>
    have htail := ih fun r hr => h r (List.mem_cons_of_mem run hr)
    rw [List.flatMap_cons]
    cases houtcome : run.outcome with
    | running =>
      rw [generated, List.filterMap_cons_none (by rw [houtcome]; rfl)]
      exact htail.trans (List.sublist_append_right _ _)
    | failed =>
      rw [generated, List.filterMap_cons_none (by rw [houtcome]; rfl)]
      exact htail.trans (List.sublist_append_right _ _)
    | found identity =>
      rw [generated, List.filterMap_cons_some (b := identity) (by rw [houtcome]; rfl), List.map_cons]
      exact (List.singleton_sublist.mpr (h run List.mem_cons_self identity houtcome)).append htail

end

/-! ### Seeds -/

theorem varintEncode_injective {m n : ℕ} (hm : m < wordSize) (hn : n < wordSize)
    (h : varintEncode m = varintEncode n) : m = n := by
  have h1 := varintDecode_varintEncode hm []
  rw [h, varintDecode_varintEncode hn []] at h1
  exact (congrArg Prod.snd h1).symm

/-- The input of the hash tells the nonce. -/
theorem seedInput_injective {passphrase : CString} {m n : ℕ} (hm : m < wordSize) (hn : n < wordSize)
    (h : seedInput passphrase m = seedInput passphrase n) : m = n := by
  have htail := List.append_cancel_left h
  rw [List.cons.injEq] at htail
  exact varintEncode_injective hm hn (List.append_cancel_left htail.2)

/-- The hash tells the inputs of one passphrase apart. -/
def NoSeedCollision (L : PqKeyLibrary) (passphrase : CString) : Prop :=
  ∀ m n, m < wordSize → n < wordSize → deriveSeed L passphrase m = deriveSeed L passphrase n →
    seedInput passphrase m = seedInput passphrase n

/-- The nonces of an identity, the signing nonce first. -/
def PqGeneratedIdentity.nonces (identity : PqGeneratedIdentity) : List ℕ := [identity.sigNonce, identity.kemNonce]

def PqGeneratedIdentity.seedList (identity : PqGeneratedIdentity) : List Bytes :=
  [identity.seeds.sigSeed, identity.seeds.kemSeed]

section

variable {L : PqKeyLibrary} {passphrase : CString} {n : ℕ} {calls : List GenerateCall}

theorem flatMap_nonces_callChain (hfit : n + 2 * totalRounds (callChain L passphrase n calls) ≤ wordSize) :
    (callChain L passphrase n calls).flatMap SearchRun.nonces =
      List.range' n (2 * totalRounds (callChain L passphrase n calls)) := by
  rw [← flatMap_noncePairs, ← flatMap_examined_callChain calls hfit, List.flatMap_assoc]
  rfl

theorem generated_nonces_sublist (hn : n < wordSize) :
    ((generated (callChain L passphrase n calls)).flatMap PqGeneratedIdentity.nonces).Sublist
      ((callChain L passphrase n calls).flatMap SearchRun.nonces) := by
  have hpairs := @generated_sublist (callChain L passphrase n calls) fun run hrun identity h => by
    obtain ⟨stream, -, -, -, hmem⟩ := callChain_found hn hrun h
    exact hmem
  have := hpairs.flatMap pairNonces
  rwa [List.flatMap_map, List.flatMap_assoc] at this

theorem found_of_mem_generated {runs : List SearchRun} {identity : PqGeneratedIdentity}
    (h : identity ∈ generated runs) :
    ∃ run ∈ runs, run.outcome = .found identity := by
  obtain ⟨run, hrun, hidentity⟩ := List.mem_filterMap.mp h
  refine ⟨run, hrun, ?_⟩
  cases houtcome : run.outcome with
  | running => rw [houtcome] at hidentity; cases hidentity
  | failed => rw [houtcome] at hidentity; cases hidentity
  | found other =>
    rw [houtcome] at hidentity
    cases hidentity
    rfl

/-- The seeds of the identities are those of their nonces. -/
theorem flatMap_seedList (hn : n < wordSize) :
    (generated (callChain L passphrase n calls)).flatMap PqGeneratedIdentity.seedList =
      ((generated (callChain L passphrase n calls)).flatMap PqGeneratedIdentity.nonces).map
        (deriveSeed L passphrase) := by
  rw [List.map_flatMap]
  apply List.flatMap_congr
  intro identity hmem
  obtain ⟨run, hrun, houtcome⟩ := found_of_mem_generated hmem
  obtain ⟨stream, hat, -, -, -⟩ := callChain_found hn hrun houtcome
  rw [PqGeneratedIdentity.seedList, (identityAt_nonces hat).2.2]
  rfl

/-- Every nonce of a chain is a `uint64_t`. -/
theorem lt_of_mem_nonces (hn : n < wordSize) (hfit : n + 2 * totalRounds (callChain L passphrase n calls) ≤ wordSize)
    {nonce : ℕ} (h : nonce ∈ (generated (callChain L passphrase n calls)).flatMap PqGeneratedIdentity.nonces) :
    nonce < wordSize := by
  have hmem := (generated_nonces_sublist hn).subset h
  rw [flatMap_nonces_callChain hfit, List.mem_range'_1] at hmem
  omega

theorem nodup_generated_nonces (hn : n < wordSize)
    (hfit : n + 2 * totalRounds (callChain L passphrase n calls) ≤ wordSize) :
    ((generated (callChain L passphrase n calls)).flatMap PqGeneratedIdentity.nonces).Nodup := by
  apply (generated_nonces_sublist hn).nodup
  rw [flatMap_nonces_callChain hfit]
  exact List.nodup_range'

/-- Two searches from one nonce that find different identities find them at different pairs. -/
theorem found_eq_or_nonces_ne (hn : n < wordSize) {stream : ℕ} {nullBytes nullBytes' : ℤ} {rounds rounds' : ℕ}
    {a b : PqGeneratedIdentity}
    (ha : (pqv5IdentityGenerateDeterministic L passphrase stream n nullBytes rounds).outcome = .found a)
    (hb : (pqv5IdentityGenerateDeterministic L passphrase stream n nullBytes' rounds').outcome = .found b) :
    a = b ∨ (a.sigNonce ≠ b.sigNonce ∧ a.kemNonce ≠ b.kemNonce) := by
  obtain ⟨hat, hpair, hlt, -⟩ := generate_found hn ha
  obtain ⟨hat', hpair', hlt', -⟩ := generate_found hn hb
  by_cases hsig : a.sigNonce = b.sigNonce
  · left
    rw [hpair, hsig] at hat
    rw [hpair', hat] at hat'
    exact Option.some.inj hat'
  · refine .inr ⟨hsig, ?_⟩
    rw [hpair, hpair']
    unfold addW wordSize at *
    omega

/-- Calls that start where the one before has stopped examine disjoint nonces, the signing nonces even and the
KEM nonces odd; no two seeds of the identities have the same input, so they are different unless the hash
collides; and a different number of zeros from one start gives the same identity or other nonces. -/
theorem deterministic_generation_disjoint (heven : 2 ∣ n) (hn : n < wordSize) (calls : List GenerateCall)
    (hfit : n + 2 * totalRounds (callChain L passphrase n calls) ≤ wordSize) :
    (callChain L passphrase n calls).Pairwise (fun a b => a.nonces.Disjoint b.nonces) ∧
    (∀ run ∈ callChain L passphrase n calls, ∀ pair ∈ run.examined, 2 ∣ pair.1 ∧ ¬ 2 ∣ pair.2) ∧
    (((generated (callChain L passphrase n calls)).flatMap PqGeneratedIdentity.nonces).map
      (seedInput passphrase)).Nodup ∧
    (NoSeedCollision L passphrase →
      ((generated (callChain L passphrase n calls)).flatMap PqGeneratedIdentity.seedList).Nodup) ∧
    ∀ (stream start : ℕ) (nullBytes nullBytes' : ℤ) (rounds rounds' : ℕ) (a b : PqGeneratedIdentity),
      start < wordSize →
      (pqv5IdentityGenerateDeterministic L passphrase stream start nullBytes rounds).outcome = .found a →
      (pqv5IdentityGenerateDeterministic L passphrase stream start nullBytes' rounds').outcome = .found b →
        a = b ∨ (a.sigNonce ≠ b.sigNonce ∧ a.kemNonce ≠ b.kemNonce) := by
  have hnodup := nodup_generated_nonces hn hfit
  have hinputs : (((generated (callChain L passphrase n calls)).flatMap PqGeneratedIdentity.nonces).map
      (seedInput passphrase)).Nodup := by
    apply hnodup.map_on
    intro x hx y hy h
    exact seedInput_injective (lt_of_mem_nonces hn hfit hx) (lt_of_mem_nonces hn hfit hy) h
  refine ⟨?_, ?_, hinputs, ?_, fun _ _ _ _ _ _ _ _ hstart => found_eq_or_nonces_ne hstart⟩
  · have hall : ((callChain L passphrase n calls).flatMap SearchRun.nonces).Nodup := by
      rw [flatMap_nonces_callChain hfit]
      exact List.nodup_range'
    exact (List.nodup_flatMap.mp hall).2
  · intro run hrun pair hpair
    have hmem : pair ∈ (callChain L passphrase n calls).flatMap SearchRun.examined :=
      List.mem_flatMap.mpr ⟨run, hrun, hpair⟩
    rw [flatMap_examined_callChain calls hfit, noncePairs, List.mem_map] at hmem
    obtain ⟨i, -, rfl⟩ := hmem
    constructor
    · exact (Nat.dvd_add_right heven).mpr (Nat.dvd_mul_right 2 i)
    · show ¬ 2 ∣ n + 2 * i + 1
      omega
  · intro hcollision
    rw [flatMap_seedList hn]
    apply hnodup.map_on
    intro x hx y hy h
    have hxlt := lt_of_mem_nonces hn hfit hx
    have hylt := lt_of_mem_nonces hn hfit hy
    exact seedInput_injective hxlt hylt (hcollision x y hxlt hylt h)

end

/-! ### A library that tells nonces apart -/

def emptyPassphrase : CString := ⟨[], nofun⟩

/-- The hash gives what stands behind the label, and the key is the seed counted from the nonce 4. -/
def suffixKeyLibrary : PqKeyLibrary :=
  { plainKeyLibrary with
    sigKeypairFromSeed := fun seed => some ((seed.headD 0 - 4) :: seed.drop 1, seed)
    sha3_512 := fun data => (data.drop 30 ++ List.replicate 64 0).take 64
    length_sha3_512 := fun data => by simp }

theorem noSeedCollision_suffix : NoSeedCollision suffixKeyLibrary emptyPassphrase := by
  intro m n hm hn h
  have hseed : ∀ k, deriveSeed suffixKeyLibrary emptyPassphrase k =
      varintEncode k ++ List.replicate (32 - varintSize k) 0 := by
    intro k
    have hsize := varintSize_le k
    show ((varintEncode k ++ List.replicate 64 0).take 64).take 32 = _
    rw [List.take_take, List.take_append, length_varintEncode,
      List.take_of_length_le (by rw [length_varintEncode]; omega), List.take_replicate]
    congr 2
    omega
  have hm1 := varintDecode_varintEncode hm (List.replicate (32 - varintSize m) 0)
  rw [← hseed, h, hseed, varintDecode_varintEncode hn] at hm1
  rw [(Prod.mk.inj hm1).2]

/-- Two identities, the first with a zero in front of its id, which is met at the third pair. -/
theorem two_identities_apart :
    (callChain suffixKeyLibrary emptyPassphrase 0 [⟨1, 1, 5⟩, ⟨1, 0, 1⟩]).map SearchRun.examined =
        [[(0, 1), (2, 3), (4, 5)], [(6, 7)]] ∧
      (generated (callChain suffixKeyLibrary emptyPassphrase 0 [⟨1, 1, 5⟩, ⟨1, 0, 1⟩])).length = 2 ∧
      ((generated (callChain suffixKeyLibrary emptyPassphrase 0 [⟨1, 1, 5⟩, ⟨1, 0, 1⟩])).flatMap
        PqGeneratedIdentity.seedList).Nodup := by
  have htotal : totalRounds (callChain suffixKeyLibrary emptyPassphrase 0 [⟨1, 1, 5⟩, ⟨1, 0, 1⟩]) = 4 := by
    decide +kernel
  refine ⟨by decide +kernel, by decide +kernel, ?_⟩
  exact (deterministic_generation_disjoint (by decide) (by decide) _ (by rw [htotal]; decide)).2.2.2.1
    noSeedCollision_suffix

end Bitmessage
