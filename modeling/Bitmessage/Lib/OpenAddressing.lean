import Mathlib.Data.List.Induction
import Mathlib.Tactic.SplitIfs

/-! Open addressing with linear probing. A table is a list of slots, each empty or with an item, and
an item is looked for from its home slot on, around the end of the list, up to the first empty one.
Both probe loops run over a bound, the number of slots; they need it only where no slot is empty. An
item may stand in several slots. What a lookup relies on is that every item can be reached from its
home without meeting an empty slot; an insertion keeps this, for it empties none. -/

namespace OpenAddressing

variable {α : Type*}

/-- The slots of a table; `none` is an empty one. -/
abbrev Slots (α : Type*) := List (Option α)

/-- The first empty slot from a slot on. -/
def freeSlot (t : Slots α) : ℕ → ℕ → Option ℕ
  | 0, _ => none
  | bound + 1, slot =>
    match t[slot]? with
    | some none => some slot
    | _ => freeSlot t bound ((slot + 1) % t.length)

/-- An item is put into the first empty slot from its home on; without one the loop does not end. -/
def insert (t : Slots α) (home : ℕ) (a : α) : Option (Slots α) :=
  (freeSlot t t.length (home % t.length)).map fun slot => t.set slot (some a)

/-- The first item with a property from a slot on, up to an empty slot. -/
def search (t : Slots α) (p : α → Bool) : ℕ → ℕ → Option α
  | 0, _ => none
  | bound + 1, slot =>
    match t[slot]? with
    | some (some a) => if p a then some a else search t p bound ((slot + 1) % t.length)
    | _ => none

def lookup (t : Slots α) (p : α → Bool) (home : ℕ) : Option α := search t p t.length (home % t.length)

/-- A new table of a size with the given items. -/
def fill (capacity : ℕ) (home : α → ℕ) (items : List α) : Option (Slots α) :=
  items.foldlM (fun t a => insert t (home a) a) (List.replicate capacity none)

/-- The number of slots in use. -/
def occupied (t : Slots α) : ℕ := t.countP Option.isSome

/-- The item is reached from its home over slots that are in use. -/
def Reached (t : Slots α) (home : ℕ) (a : α) : Prop :=
  ∃ m < t.length, t[(home + m) % t.length]? = some (some a) ∧
    ∀ j < m, ∃ b, t[(home + j) % t.length]? = some (some b)

/-- Every item is reached from its home. -/
def Linked (t : Slots α) (home : α → ℕ) : Prop := ∀ a, some a ∈ t → Reached t (home a) a

theorem next_slot (home n len : ℕ) : ((home + n) % len + 1) % len = (home + (n + 1)) % len := by
  rw [Nat.mod_add_mod, Nat.add_assoc]

/-- Probing comes past every slot. -/
theorem exists_probe {len slot : ℕ} (home : ℕ) (h : slot < len) : ∃ m < len, (home + m) % len = slot := by
  have hmod : home % len < len := Nat.mod_lt _ (by omega)
  refine ⟨(slot + (len - home % len)) % len, Nat.mod_lt _ (by omega), ?_⟩
  rw [Nat.add_mod_mod, ← Nat.mod_add_mod]
  have hsum : home % len + (slot + (len - home % len)) = slot + len := by omega
  rw [hsum, Nat.add_mod_right, Nat.mod_eq_of_lt h]

section

variable {t t' : Slots α} {home : ℕ} {a : α}

theorem occupied_le (t : Slots α) : occupied t ≤ t.length := List.countP_le_length

/-- A slot is empty exactly when the slots in use are not all. -/
theorem none_mem_iff : none ∈ t ↔ occupied t < t.length := by
  have hle := occupied_le t
  rw [← not_iff_not, Nat.not_lt]
  constructor
  · intro hnone
    have hall : occupied t = t.length := by
      refine List.countP_eq_length.mpr fun o ho => ?_
      rcases o with _ | a
      · exact absurd ho hnone
      · rfl
    exact Nat.le_of_eq hall.symm
  · intro hfull hnone
    have hall := List.countP_eq_length.mp (Nat.le_antisymm hle hfull)
    cases hall none hnone

/-! ### The loop of an insertion -/

/-- What the loop finds is the first empty slot. -/
theorem freeSlot_eq_some {bound n slot : ℕ} (h : freeSlot t bound ((home + n) % t.length) = some slot) :
    ∃ m, n ≤ m ∧ m < n + bound ∧ slot = (home + m) % t.length ∧ t[slot]? = some none ∧
      ∀ j, n ≤ j → j < m → t[(home + j) % t.length]? ≠ some none := by
  induction bound generalizing n with
  | zero => cases h
  | succ bound ih =>
    unfold freeSlot at h
    split at h
    · next hempty =>
      obtain rfl := Option.some.inj h
      exact ⟨n, Nat.le_refl n, by omega, rfl, hempty, fun j hnj hjn => absurd hjn (by omega)⟩
    · next hfull =>
      rw [next_slot] at h
      obtain ⟨m, hnm, hm, hslot, hempty, hbefore⟩ := ih h
      refine ⟨m, by omega, by omega, hslot, hempty, fun j hnj hjm => ?_⟩
      rcases Nat.eq_or_lt_of_le hnj with rfl | hlt
      · exact hfull
      · exact hbefore j hlt hjm

/-- The loop comes to no empty slot only where there is none. -/
theorem freeSlot_eq_none {bound n : ℕ} (h : freeSlot t bound ((home + n) % t.length) = none) {j : ℕ} (hnj : n ≤ j)
    (hj : j < n + bound) : t[(home + j) % t.length]? ≠ some none := by
  induction bound generalizing n with
  | zero => omega
  | succ bound ih =>
    unfold freeSlot at h
    split at h
    · cases h
    · next hfull =>
      rcases Nat.eq_or_lt_of_le hnj with rfl | hlt
      · exact hfull
      · rw [next_slot] at h
        exact ih h hlt (by omega)

/-- The loop of an insertion ends exactly when a slot is empty. -/
theorem insert_isSome : (insert t home a).isSome ↔ none ∈ t := by
  rw [insert, Option.isSome_map]
  have hstart : home % t.length = (home + 0) % t.length := rfl
  rw [hstart]
  constructor
  · intro h
    obtain ⟨slot, hslot⟩ := Option.isSome_iff_exists.mp h
    obtain ⟨m, -, -, -, hempty, -⟩ := freeSlot_eq_some hslot
    exact List.mem_of_getElem? hempty
  · intro hmem
    by_contra hnot
    obtain ⟨slot, hlt, hslot⟩ := List.getElem_of_mem hmem
    obtain ⟨m, hm, rfl⟩ := exists_probe home hlt
    refine freeSlot_eq_none (Option.not_isSome_iff_eq_none.mp hnot) (Nat.zero_le m) (by omega) ?_
    rw [List.getElem?_eq_getElem hlt, hslot]

/-- An insertion fills one empty slot, which the item's home leads to. -/
theorem insert_eq_some (h : insert t home a = some t') :
    ∃ m < t.length, t[(home + m) % t.length]? = some none ∧ t' = t.set ((home + m) % t.length) (some a) ∧
      ∀ j < m, ∃ b, t[(home + j) % t.length]? = some (some b) := by
  obtain ⟨slot, hslot, rfl⟩ := Option.map_eq_some_iff.mp h
  have hstart : home % t.length = (home + 0) % t.length := rfl
  rw [hstart] at hslot
  obtain ⟨m, -, hm, rfl, hempty, hbefore⟩ := freeSlot_eq_some hslot
  refine ⟨m, by omega, hempty, rfl, fun j hj => ?_⟩
  have hlt : (home + j) % t.length < t.length := Nat.mod_lt _ (by omega)
  have hfull := hbefore j (Nat.zero_le j) hj
  rw [List.getElem?_eq_getElem hlt] at hfull ⊢
  rcases hb : t[(home + j) % t.length] with _ | b
  · exact absurd (congrArg some hb) hfull
  · exact ⟨b, rfl⟩

theorem length_insert (h : insert t home a = some t') : t'.length = t.length := by
  obtain ⟨m, -, -, rfl, -⟩ := insert_eq_some h
  exact List.length_set

theorem occupied_insert (h : insert t home a = some t') : occupied t' = occupied t + 1 := by
  obtain ⟨m, hm, hempty, rfl, -⟩ := insert_eq_some h
  have hlt : (home + m) % t.length < t.length := Nat.mod_lt _ (by omega)
  rw [List.getElem?_eq_getElem hlt, Option.some_inj] at hempty
  unfold occupied
  rw [List.countP_set hlt, hempty]
  simp

theorem mem_insert (h : insert t home a = some t') {b : α} : some b ∈ t' ↔ b = a ∨ some b ∈ t := by
  obtain ⟨m, hm, hempty, rfl, -⟩ := insert_eq_some h
  have hlt : (home + m) % t.length < t.length := Nat.mod_lt _ (by omega)
  constructor
  · intro hb
    rcases List.mem_or_eq_of_mem_set hb with hold | hnew
    · exact .inr hold
    · exact .inl (Option.some.inj hnew)
  · rintro (rfl | hold)
    · exact List.mem_set hlt _
    · obtain ⟨slot, hslot, hb⟩ := List.getElem_of_mem hold
      refine List.mem_of_getElem? (i := slot) ?_
      have hne : (home + m) % t.length ≠ slot := by
        rintro rfl
        rw [List.getElem?_eq_getElem hslot, hb] at hempty
        cases hempty
      rw [List.getElem?_set_ne hne, List.getElem?_eq_getElem hslot, hb]

/-- No item is cut off when an empty slot is filled. -/
theorem Reached.set {k m : ℕ} {b : α} (h : Reached t k b) (hempty : t[m]? = some none) :
    Reached (t.set m (some a)) k b := by
  obtain ⟨i, hi, hb, hbefore⟩ := h
  have hkeep {s : ℕ} {c : α} (hs : t[s]? = some (some c)) : (t.set m (some a))[s]? = some (some c) := by
    have hne : m ≠ s := by
      rintro rfl
      rw [hs] at hempty
      cases hempty
    rw [List.getElem?_set_ne hne, hs]
  unfold Reached
  rw [List.length_set]
  refine ⟨i, hi, hkeep hb, fun j hj => ?_⟩
  obtain ⟨c, hc⟩ := hbefore j hj
  exact ⟨c, hkeep hc⟩

theorem linked_insert {homes : α → ℕ} (ht : Linked t homes) (h : insert t (homes a) a = some t') : Linked t' homes := by
  intro b hb
  have hmem := (mem_insert h).mp hb
  obtain ⟨m, hm, hempty, rfl, hbefore⟩ := insert_eq_some h
  rcases hmem with rfl | hold
  · have hlt : (homes b + m) % t.length < t.length := Nat.mod_lt _ (by omega)
    unfold Reached
    rw [List.length_set]
    refine ⟨m, hm, List.getElem?_set_self hlt, fun j hj => ?_⟩
    obtain ⟨c, hc⟩ := hbefore j hj
    refine ⟨c, ?_⟩
    have hne : (homes b + m) % t.length ≠ (homes b + j) % t.length := by
      intro he
      rw [he, hc] at hempty
      cases hempty
    rw [List.getElem?_set_ne hne, hc]
  · exact (ht b hold).set hempty

/-! ### The loop of a lookup -/

theorem search_eq_some {p : α → Bool} {bound slot : ℕ} (h : search t p bound slot = some a) :
    p a = true ∧ some a ∈ t := by
  induction bound generalizing slot with
  | zero => cases h
  | succ bound ih =>
    unfold search at h
    split at h
    · next b hb =>
      split_ifs at h with hp
      · cases h
        exact ⟨hp, List.mem_of_getElem? hb⟩
      · exact ih h
    · cases h

/-- A lookup comes as far as the slots are in use. -/
theorem search_isSome {p : α → Bool} (hp : p a = true) {m n bound : ℕ} (hm : m < bound)
    (ha : t[(home + (n + m)) % t.length]? = some (some a))
    (hbefore : ∀ j < m, ∃ b, t[(home + (n + j)) % t.length]? = some (some b)) :
    (search t p bound ((home + n) % t.length)).isSome := by
  induction m generalizing n bound with
  | zero =>
    obtain ⟨bound, rfl⟩ := Nat.exists_eq_succ_of_ne_zero (Nat.ne_of_gt hm)
    rw [Nat.add_zero] at ha
    simp [search, ha, hp]
  | succ m ih =>
    obtain ⟨bound, rfl⟩ := Nat.exists_eq_succ_of_ne_zero (Nat.ne_of_gt (Nat.zero_lt_of_lt hm))
    obtain ⟨b, hb⟩ := hbefore 0 (Nat.succ_pos m)
    rw [Nat.add_zero] at hb
    unfold search
    rw [hb]
    by_cases hpb : p b = true
    · simp [hpb]
    · simp only [hpb]
      rw [next_slot]
      refine ih (by omega) ?_ fun j hj => ?_
      · rw [Nat.add_right_comm, Nat.add_assoc]
        exact ha
      · obtain ⟨c, hc⟩ := hbefore (j + 1) (by omega)
        refine ⟨c, ?_⟩
        rw [Nat.add_right_comm, Nat.add_assoc]
        exact hc

/-- Where the items with the property share a home, a lookup from it fails only if there is none. -/
theorem lookup_eq_none {homes : α → ℕ} (ht : Linked t homes) {p : α → Bool} (hp : ∀ b, p b = true → homes b = home) :
    lookup t p home = none ↔ ∀ b, some b ∈ t → p b = false := by
  constructor
  · intro hnone b hb
    by_contra hpb
    rw [Bool.not_eq_false] at hpb
    obtain ⟨m, hm, hslot, hbefore⟩ := ht b hb
    rw [hp b hpb] at hslot hbefore
    have hsome : (search t p t.length ((home + 0) % t.length)).isSome := by
      refine search_isSome hpb hm ?_ fun j hj => ?_
      · rw [Nat.zero_add, hslot]
      · rw [Nat.zero_add]
        exact hbefore j hj
    have hlookup : search t p t.length ((home + 0) % t.length) = none := hnone
    rw [hlookup] at hsome
    cases hsome
  · intro hall
    by_contra hsome
    obtain ⟨b, hb⟩ := Option.ne_none_iff_exists'.mp hsome
    obtain ⟨hpb, hmem⟩ := search_eq_some hb
    rw [hall b hmem] at hpb
    cases hpb

/-- Where at most one item has the property, a lookup answers it. -/
theorem lookup_eq_some_iff {homes : α → ℕ} (ht : Linked t homes) {p : α → Bool} (hp : ∀ b, p b = true → homes b = home)
    (hone : ∀ b c, some b ∈ t → some c ∈ t → p b = true → p c = true → b = c) :
    lookup t p home = some a ↔ some a ∈ t ∧ p a = true := by
  constructor
  · intro h
    exact (search_eq_some h).symm
  · rintro ⟨hmem, hpa⟩
    rcases hb : lookup t p home with _ | b
    · have hnot := (lookup_eq_none ht hp).mp hb a hmem
      rw [hpa] at hnot
      cases hnot
    · obtain ⟨hpb, hmemb⟩ := search_eq_some hb
      rw [hone b a hmemb hmem hpb hpa]

/-- The homes matter only of the items in the table. -/
theorem Linked.congr {homes homes' : α → ℕ} (ht : Linked t homes) (h : ∀ b, some b ∈ t → homes' b = homes b) :
    Linked t homes' := by
  intro b hb
  rw [h b hb]
  exact ht b hb

/-! ### A table that is built anew -/

theorem linked_replicate (capacity : ℕ) (homes : α → ℕ) : Linked (List.replicate capacity none) homes := by
  intro b hb
  cases List.eq_of_mem_replicate hb

theorem occupied_replicate (capacity : ℕ) : occupied (List.replicate capacity (none : Option α)) = 0 := by
  simp [occupied, List.countP_replicate]

theorem fill_append (capacity : ℕ) (homes : α → ℕ) (items : List α) (a : α) :
    fill capacity homes (items ++ [a]) = (fill capacity homes items).bind fun t => insert t (homes a) a := by
  unfold fill
  rw [List.foldlM_append]
  rcases h : List.foldlM (fun t a => insert t (homes a) a) (List.replicate capacity none) items with _ | u
  · rfl
  · simp

/-- A new table holds the items and no others, one in a slot. -/
theorem fill_eq_some {capacity : ℕ} {homes : α → ℕ} {items : List α} (h : fill capacity homes items = some t) :
    t.length = capacity ∧ occupied t = items.length ∧ (∀ b, some b ∈ t ↔ b ∈ items) ∧ Linked t homes := by
  induction items using List.reverseRecOn generalizing t with
  | nil =>
    cases h
    refine ⟨List.length_replicate, occupied_replicate capacity, fun b => ?_, linked_replicate capacity homes⟩
    simp
  | append_singleton items a ih =>
    rw [fill_append] at h
    obtain ⟨u, hu, hinsert⟩ := Option.bind_eq_some_iff.mp h
    obtain ⟨hlength, hoccupied, hmem, hlinked⟩ := ih hu
    refine ⟨(length_insert hinsert).trans hlength, ?_, fun b => ?_, linked_insert hlinked hinsert⟩
    · rw [occupied_insert hinsert, hoccupied, List.length_append, List.length_singleton]
    · rw [mem_insert hinsert, hmem, List.mem_append, List.mem_singleton, or_comm]

/-- A table can be built that has a slot for every item. -/
theorem fill_isSome {capacity : ℕ} {homes : α → ℕ} {items : List α} (h : items.length ≤ capacity) :
    (fill capacity homes items).isSome := by
  induction items using List.reverseRecOn with
  | nil => rfl
  | append_singleton items a ih =>
    rw [List.length_append, List.length_singleton] at h
    obtain ⟨u, hu⟩ := Option.isSome_iff_exists.mp (ih (by omega))
    obtain ⟨hlength, hoccupied, -, -⟩ := fill_eq_some hu
    rw [fill_append, hu, Option.bind_some, insert_isSome, none_mem_iff]
    omega

end

end OpenAddressing
