import Mathlib.Data.List.Nodup

/-! Tables with a primary key. A table is the list of its rows in the order of
insertion, and no two rows share a key. What a statement does to a table is told by
what it does to the row under each key: an update maps it, an upsert merges into it or
inserts it, and no other key is touched. -/

structure KeyedTable {α κ : Type*} (key : α → κ) where
  rows : List α
  nodup : (rows.map key).Nodup

namespace KeyedTable

variable {α κ : Type*} {key : α → κ}

def empty : KeyedTable key := ⟨[], List.nodup_nil⟩

/-- `UPDATE`: `f` decides which rows it changes, and keeps their keys. -/
def update (t : KeyedTable key) (f : α → α) (hf : ∀ a, key (f a) = key a) : KeyedTable key where
  rows := t.rows.map f
  nodup := by
    have : (t.rows.map f).map key = t.rows.map key := by
      rw [List.map_map]
      exact List.map_congr_left fun a _ => hf a
    rw [this]
    exact t.nodup

theorem ext_rows {t t' : KeyedTable key} (h : t.rows = t'.rows) : t = t' := by
  cases t
  cases t'
  cases h
  rfl

/-- An update that changes no row. -/
theorem update_eq_self (t : KeyedTable key) (f : α → α) (hf : ∀ a, key (f a) = key a) (h : ∀ a ∈ t.rows, f a = a) :
    t.update f hf = t := by
  apply ext_rows
  show t.rows.map f = t.rows
  rw [List.map_congr_left h, List.map_id']

variable [DecidableEq κ]

/-- The row under a key. -/
def find? (t : KeyedTable key) (k : κ) : Option α := t.rows.find? fun a => decide (key a = k)

/-- `INSERT`: it fails when the key is taken. -/
def insert? (t : KeyedTable key) (a : α) : Option (KeyedTable key) :=
  if h : key a ∈ t.rows.map key then none
  else some ⟨t.rows ++ [a], by
    rw [List.map_append, List.map_singleton]
    exact t.nodup.append (List.nodup_singleton _) (by simpa using h)⟩

/-- `INSERT OR IGNORE`. -/
def insertOrIgnore (t : KeyedTable key) (a : α) : KeyedTable key := (t.insert? a).getD t

/-- `DELETE` of the row under a key. -/
def delete (t : KeyedTable key) (k : κ) : KeyedTable key where
  rows := t.rows.filter fun a => key a ≠ k
  nodup := t.nodup.sublist (List.filter_sublist.map key)

/-- `DELETE` of the rows that meet a condition. -/
def deleteWhere (t : KeyedTable key) (p : α → Bool) : KeyedTable key where
  rows := t.rows.filter fun a => !p a
  nodup := t.nodup.sublist (List.filter_sublist.map key)

/-- `INSERT ... ON CONFLICT DO UPDATE`. -/
def upsert (t : KeyedTable key) (a : α) (merge : α → α) (hm : ∀ b, key (merge b) = key b) : KeyedTable key :=
  if h : key a ∈ t.rows.map key then
    t.update (fun b => if key b = key a then merge b else b) (fun b => by split <;> simp [hm])
  else
    ⟨t.rows ++ [a], by
      rw [List.map_append, List.map_singleton]
      exact t.nodup.append (List.nodup_singleton _) (by simpa using h)⟩

/-- `INSERT OR REPLACE`. -/
def replace (t : KeyedTable key) (a : α) : KeyedTable key where
  rows := (t.delete (key a)).rows ++ [a]
  nodup := by
    rw [List.map_append, List.map_singleton]
    exact (t.delete (key a)).nodup.append (List.nodup_singleton _) (by simp [delete])

@[simp] theorem find?_empty (k : κ) : (empty : KeyedTable key).find? k = none := rfl

theorem find?_eq_some {t : KeyedTable key} {k : κ} {a : α} : t.find? k = some a ↔ a ∈ t.rows ∧ key a = k := by
  constructor
  · intro h
    unfold find? at h
    exact ⟨List.mem_of_find?_eq_some h, by simpa using List.find?_some h⟩
  · rintro ⟨ha, rfl⟩
    rcases h : t.find? (key a) with _ | b
    · have := List.find?_eq_none.mp h a ha
      simp at this
    · unfold find? at h
      have hb := List.mem_of_find?_eq_some h
      have hk : key b = key a := by simpa using List.find?_some h
      rw [List.inj_on_of_nodup_map t.nodup hb ha hk]

theorem find?_eq_none {t : KeyedTable key} {k : κ} : t.find? k = none ↔ k ∉ t.rows.map key := by
  simp [find?]

theorem find?_isSome {t : KeyedTable key} {k : κ} : (t.find? k).isSome ↔ k ∈ t.rows.map key := by
  rw [← not_iff_not, ← find?_eq_none, Option.not_isSome_iff_eq_none]

theorem rows_insert? {t t' : KeyedTable key} {a : α} (h : t.insert? a = some t') : t'.rows = t.rows ++ [a] := by
  unfold insert? at h
  split_ifs at h
  cases h
  rfl

/-- An insertion fails exactly when the key is taken. -/
theorem insert?_isSome {t : KeyedTable key} {a : α} : (t.insert? a).isSome ↔ t.find? (key a) = none := by
  rw [find?_eq_none]
  unfold insert?
  split_ifs with h
  · exact iff_of_false (by simp) (not_not_intro h)
  · exact iff_of_true rfl h

theorem find?_insert?_self {t t' : KeyedTable key} {a : α} (h : t.insert? a = some t') : t'.find? (key a) = some a := by
  rw [find?_eq_some, rows_insert? h]
  exact ⟨List.mem_append_right _ (List.mem_singleton.mpr rfl), rfl⟩

theorem find?_insert?_of_ne {t t' : KeyedTable key} {a : α} (h : t.insert? a = some t') {k : κ} (hk : k ≠ key a) :
    t'.find? k = t.find? k := by
  unfold find?
  rw [rows_insert? h, List.find?_append, List.find?_singleton, if_neg (by simpa using Ne.symm hk), Option.or_none]

/-- An insertion puts its row behind the others. -/
theorem rows_insertOrIgnore (t : KeyedTable key) (a : α) :
    (t.insertOrIgnore a).rows = if key a ∈ t.rows.map key then t.rows else t.rows ++ [a] := by
  unfold insertOrIgnore insert?
  split_ifs <;> rfl

theorem exists_rows_insertOrIgnore (t : KeyedTable key) (a : α) : ∃ tail, (t.insertOrIgnore a).rows = t.rows ++ tail := by
  rw [rows_insertOrIgnore]
  split_ifs
  · exact ⟨[], (List.append_nil _).symm⟩
  · exact ⟨[a], rfl⟩

/-- A change of the row at an index is a change of the row under its key. -/
theorem modify_eq_map {l : List α} (hl : (l.map key).Nodup) {i : ℕ} {a : α} (ha : l[i]? = some a) (f : α → α) :
    l.modify i f = l.map fun b => if key b = key a then f b else b := by
  refine List.ext_getElem? fun j => ?_
  rw [List.getElem?_modify, List.getElem?_map]
  rcases hj : l[j]? with _ | b
  · simp
  · have hlt : i < (l.map key).length := by
      simpa using (List.getElem?_eq_some_iff.mp ha).1
    have hinj := List.getElem?_inj (j := j) hlt hl
    rw [List.getElem?_map, List.getElem?_map, ha, hj, Option.map_some, Option.map_some, Option.some_inj] at hinj
    by_cases hij : i = j
    · simp [hij, (hinj.mpr hij).symm]
    · have hne : key b ≠ key a := fun he => hij (hinj.mp he.symm)
      simp [hij, hne]

theorem mem_keys_insertOrIgnore {t : KeyedTable key} {a : α} {k : κ} :
    k ∈ (t.insertOrIgnore a).rows.map key ↔ k = key a ∨ k ∈ t.rows.map key := by
  unfold insertOrIgnore insert?
  split_ifs with h
  · rw [Option.getD_none, or_iff_right_of_imp]
    rintro rfl
    exact h
  · rw [Option.getD_some, List.map_append, List.map_singleton, List.mem_append, List.mem_singleton, or_comm]

theorem mem_insertOrIgnore {t : KeyedTable key} {a b : α} :
    b ∈ (t.insertOrIgnore a).rows ↔ b ∈ t.rows ∨ (key a ∉ t.rows.map key ∧ b = a) := by
  unfold insertOrIgnore insert?
  split_ifs with h
  · rw [Option.getD_none, or_iff_left fun hn => hn.1 h]
  · rw [Option.getD_some, List.mem_append, List.mem_singleton, and_iff_right h]

theorem find?_insertOrIgnore_self (t : KeyedTable key) (a : α) :
    (t.insertOrIgnore a).find? (key a) = some ((t.find? (key a)).getD a) := by
  rw [find?_eq_some, mem_insertOrIgnore]
  rcases h : t.find? (key a) with _ | b
  · exact ⟨.inr ⟨find?_eq_none.mp h, rfl⟩, rfl⟩
  · exact ⟨.inl (find?_eq_some.mp h).1, (find?_eq_some.mp h).2⟩

theorem find?_insertOrIgnore_of_ne (t : KeyedTable key) {a : α} {k : κ} (hk : k ≠ key a) :
    (t.insertOrIgnore a).find? k = t.find? k := by
  unfold insertOrIgnore insert?
  split_ifs
  · rfl
  · simp [find?, List.find?_append, Ne.symm hk]

theorem find?_deleteWhere (t : KeyedTable key) (p : α → Bool) (k : κ) :
    (t.deleteWhere p).find? k = (t.find? k).filter fun a => !p a := by
  rcases h : t.find? k with _ | a
  · rw [Option.filter_none, find?_eq_none]
    exact fun hk => find?_eq_none.mp h ((List.filter_sublist.map key).subset hk)
  · obtain ⟨ha, rfl⟩ := find?_eq_some.mp h
    rw [Option.filter_some]
    split_ifs with hp
    · exact find?_eq_some.mpr ⟨List.mem_filter.mpr ⟨ha, hp⟩, rfl⟩
    · refine find?_eq_none.mpr fun hk => ?_
      obtain ⟨b, hb, he⟩ := List.mem_map.mp hk
      obtain ⟨hb, hpb⟩ := List.mem_filter.mp hb
      rw [List.inj_on_of_nodup_map t.nodup hb ha he] at hpb
      exact hp hpb

omit [DecidableEq κ] in
theorem mem_deleteWhere {t : KeyedTable key} {p : α → Bool} {a : α} :
    a ∈ (t.deleteWhere p).rows ↔ a ∈ t.rows ∧ p a = false := by
  simp [deleteWhere]

theorem mem_delete {t : KeyedTable key} {k : κ} {a : α} : a ∈ (t.delete k).rows ↔ a ∈ t.rows ∧ key a ≠ k := by
  simp [delete]

theorem find?_delete_self (t : KeyedTable key) (k : κ) : (t.delete k).find? k = none := by
  rw [find?_eq_none]
  intro hk
  obtain ⟨a, ha, he⟩ := List.mem_map.mp hk
  exact (mem_delete.mp ha).2 he

theorem find?_delete_of_ne (t : KeyedTable key) {k k' : κ} (h : k ≠ k') : (t.delete k').find? k = t.find? k := by
  apply Option.ext
  intro a
  rw [find?_eq_some, find?_eq_some, mem_delete]
  constructor
  · exact fun ⟨⟨ha, _⟩, hk⟩ => ⟨ha, hk⟩
  · exact fun ⟨ha, hk⟩ => ⟨⟨ha, hk ▸ h⟩, hk⟩

theorem delete_idem (t : KeyedTable key) (k : κ) : (t.delete k).delete k = t.delete k := by
  apply ext_rows
  simp only [delete, List.filter_filter, Bool.and_self]

theorem mem_replace {t : KeyedTable key} {a b : α} :
    b ∈ (t.replace a).rows ↔ b = a ∨ (b ∈ t.rows ∧ key b ≠ key a) := by
  rw [replace, List.mem_append, mem_delete, List.mem_singleton, or_comm]

@[simp] theorem find?_update (t : KeyedTable key) (f : α → α) (hf : ∀ a, key (f a) = key a) (k : κ) :
    (t.update f hf).find? k = (t.find? k).map f := by
  rcases h : t.find? k with _ | a
  · rw [Option.map_none, find?_eq_none]
    rw [find?_eq_none] at h
    simpa [update, hf] using h
  · obtain ⟨ha, rfl⟩ := find?_eq_some.mp h
    exact find?_eq_some.mpr ⟨List.mem_map_of_mem ha, hf a⟩

/-- An update of the row under one key. -/
theorem find?_update_self (t : KeyedTable key) (k : κ) (g : α → α)
    (hf : ∀ a, key (if key a = k then g a else a) = key a) :
    (t.update (fun a => if key a = k then g a else a) hf).find? k = (t.find? k).map g := by
  rw [find?_update]
  rcases h : t.find? k with _ | a
  · rfl
  · rw [Option.map_some, if_pos (find?_eq_some.mp h).2, Option.map_some]

theorem find?_update_of_ne (t : KeyedTable key) {k k' : κ} (h : k' ≠ k) (g : α → α)
    (hf : ∀ a, key (if key a = k then g a else a) = key a) :
    (t.update (fun a => if key a = k then g a else a) hf).find? k' = t.find? k' := by
  rw [find?_update]
  rcases ha : t.find? k' with _ | a
  · rfl
  · rw [Option.map_some, if_neg ((find?_eq_some.mp ha).2 ▸ h)]

/-- A row after an upsert was there, is the new one, or has taken over from the new one. -/
theorem mem_of_mem_upsert {t : KeyedTable key} {a b : α} (merge : α → α) (hm : ∀ b, key (merge b) = key b)
    (h : b ∈ (t.upsert a merge hm).rows) : b ∈ t.rows ∨ b = a ∨ ∃ c ∈ t.rows, key c = key a ∧ b = merge c := by
  unfold upsert at h
  split at h
  · obtain ⟨c, hc, rfl⟩ := List.mem_map.mp h
    split_ifs with hkey
    · exact .inr (.inr ⟨c, hc, hkey, rfl⟩)
    · exact .inl hc
  · rcases List.mem_append.mp h with hb | hb
    · exact .inl hb
    · exact .inr (.inl (List.mem_singleton.mp hb))

theorem find?_upsert_self (t : KeyedTable key) (a : α) (merge : α → α) (hm : ∀ b, key (merge b) = key b) :
    (t.upsert a merge hm).find? (key a) = some ((t.find? (key a)).elim a merge) := by
  unfold upsert
  split
  · next h =>
    rcases hb : t.find? (key a) with _ | b
    · exact absurd h (find?_eq_none.mp hb)
    · rw [find?_update, hb, Option.map_some, if_pos (find?_eq_some.mp hb).2, Option.elim_some]
  · next h =>
    rw [find?_eq_none.mpr h, Option.elim_none, find?_eq_some]
    exact ⟨List.mem_append_right _ (List.mem_singleton.mpr rfl), rfl⟩

theorem find?_upsert_of_ne (t : KeyedTable key) {a : α} (merge : α → α) (hm : ∀ b, key (merge b) = key b) {k : κ}
    (hk : k ≠ key a) : (t.upsert a merge hm).find? k = t.find? k := by
  unfold upsert
  split
  · rcases hb : t.find? k with _ | b
    · rw [find?_update, hb, Option.map_none]
    · rw [find?_update, hb, Option.map_some, if_neg ((find?_eq_some.mp hb).2 ▸ hk)]
  · simp [find?, List.find?_append, Ne.symm hk]

end KeyedTable
