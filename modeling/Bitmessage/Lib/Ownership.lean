import Mathlib.Data.List.Perm.Basic
import Mathlib.Data.Nat.Notation

/-! Resources that change hands between two threads and a shared table. A worker holds at most
one resource of its own and has a list of others that it will visit; a maker holds at most
one that it is setting up; all others are in the table. The rules say how a
resource may be made, published, withdrawn and released such that each live resource keeps
exactly one owner and the worker visits live ones only. -/

namespace Ownership

variable {ι : Type*}

/-- Who owns what: `live` resources are in the `table`, with the maker or with the worker, and the
worker will visit those of `todo`. -/
structure Distribution (live : ι → Prop) (table : List ι) (maker worker : Option ι) (todo : List ι) : Prop where
  nodup : table.Nodup
  table_live : ∀ c ∈ table, live c
  covered : ∀ c, live c → c ∈ table ∨ maker = some c ∨ worker = some c
  maker_spec : ∀ c, maker = some c → live c ∧ c ∉ table ∧ worker ≠ some c
  worker_spec : ∀ c, worker = some c → live c ∧ c ∉ table ∧ c ∉ todo
  todo_nodup : todo.Nodup
  todo_live : ∀ c ∈ todo, live c

variable {live live' : ι → Prop} {table table' : List ι} {maker worker : Option ι} {todo todo' : List ι} {c : ι}

theorem distribution_empty (h : ∀ c, ¬ live c) : Distribution live [] none none [] :=
  ⟨List.nodup_nil, nofun, fun c hc => absurd hc (h c), nofun, nofun, List.nodup_nil, nofun⟩

namespace Distribution

theorem congr (h : Distribution live table maker worker todo) (hlive : ∀ c, live' c ↔ live c) :
    Distribution live' table maker worker todo := by
  obtain rfl : live' = live := funext fun c => propext (hlive c)
  exact h

/-- The worker takes up another list. -/
theorem visit (h : Distribution live table maker none todo) (hnd : todo'.Nodup) (hlive : ∀ c ∈ todo', live c) :
    Distribution live table maker none todo' :=
  ⟨h.nodup, h.table_live, h.covered, h.maker_spec, nofun, hnd, hlive⟩

/-- What the worker is at and the maker does not own is in the table. -/
theorem mem_table (h : Distribution live table maker none todo) (hlive : live c) (hm : maker ≠ some c) :
    c ∈ table := by
  rcases h.covered c hlive with ht | hc | hw
  · exact ht
  · exact absurd hc hm
  · contradiction

/-- The worker withdraws a resource from the table. -/
theorem withdraw (h : Distribution live table maker none todo) (hc : c ∈ table) (hd : c ∉ todo)
    (hnd : table'.Nodup) (hmem : ∀ d, d ∈ table' ↔ d ∈ table ∧ d ≠ c) :
    Distribution live table' maker (some c) todo where
  nodup := hnd
  table_live d hd := h.table_live d ((hmem d).mp hd).1
  covered d hlive := by
    rcases h.covered d hlive with ht | hm | hw
    · by_cases heq : d = c
      · exact .inr (.inr (heq ▸ rfl))
      · exact .inl ((hmem d).mpr ⟨ht, heq⟩)
    · exact .inr (.inl hm)
    · contradiction
  maker_spec d hm := by
    obtain ⟨hl, ht, -⟩ := h.maker_spec d hm
    refine ⟨hl, fun hd => ht ((hmem d).mp hd).1, ?_⟩
    rintro heq
    exact ht (Option.some.inj heq ▸ hc)
  worker_spec d hw := by
    obtain rfl := Option.some.inj hw
    exact ⟨h.table_live _ hc, fun hd => ((hmem _).mp hd).2 rfl, hd⟩
  todo_nodup := h.todo_nodup
  todo_live := h.todo_live

/-- The worker releases the resource it holds. -/
theorem workerRelease (h : Distribution live table maker (some c) todo) (hlive : ∀ d, live' d ↔ live d ∧ d ≠ c) :
    Distribution live' table maker none todo where
  nodup := h.nodup
  table_live d hd := (hlive d).mpr ⟨h.table_live d hd, fun heq => (h.worker_spec c rfl).2.1 (heq ▸ hd)⟩
  covered d hd := by
    obtain ⟨hl, hne⟩ := (hlive d).mp hd
    rcases h.covered d hl with ht | hm | hw
    · exact .inl ht
    · exact .inr (.inl hm)
    · exact absurd (Option.some.inj hw).symm hne
  maker_spec d hm := by
    obtain ⟨hl, ht, hw⟩ := h.maker_spec d hm
    exact ⟨(hlive d).mpr ⟨hl, fun heq => hw (heq ▸ rfl)⟩, ht, nofun⟩
  worker_spec := nofun
  todo_nodup := h.todo_nodup
  todo_live d hd := (hlive d).mpr ⟨h.todo_live d hd, fun heq => (h.worker_spec c rfl).2.2 (heq ▸ hd)⟩

/-- The maker gives up what it was setting up, if the worker is not about to visit it. -/
theorem makerRelease (h : Distribution live table (some c) worker todo) (hd : c ∉ todo)
    (hlive : ∀ d, live' d ↔ live d ∧ d ≠ c) : Distribution live' table none worker todo where
  nodup := h.nodup
  table_live d hd := (hlive d).mpr ⟨h.table_live d hd, fun heq => (h.maker_spec c rfl).2.1 (heq ▸ hd)⟩
  covered d hd := by
    obtain ⟨hl, hne⟩ := (hlive d).mp hd
    rcases h.covered d hl with ht | hm | hw
    · exact .inl ht
    · exact absurd (Option.some.inj hm).symm hne
    · exact .inr (.inr hw)
  maker_spec := nofun
  worker_spec d hw := by
    obtain ⟨hl, ht, htodo⟩ := h.worker_spec d hw
    exact ⟨(hlive d).mpr ⟨hl, fun heq => (h.maker_spec c rfl).2.2 (heq ▸ hw)⟩, ht, htodo⟩
  todo_nodup := h.todo_nodup
  todo_live d hd' := (hlive d).mpr ⟨h.todo_live d hd', fun heq => hd (heq ▸ hd')⟩

/-- The worker makes a resource. -/
theorem workerMake (h : Distribution live table maker none todo) (hnew : ¬ live c)
    (hlive : ∀ d, live' d ↔ live d ∨ d = c) : Distribution live' table maker (some c) todo where
  nodup := h.nodup
  table_live d hd := (hlive d).mpr (.inl (h.table_live d hd))
  covered d hd := by
    rcases (hlive d).mp hd with hl | rfl
    · rcases h.covered d hl with ht | hm | hw
      · exact .inl ht
      · exact .inr (.inl hm)
      · contradiction
    · exact .inr (.inr rfl)
  maker_spec d hm := by
    obtain ⟨hl, ht, -⟩ := h.maker_spec d hm
    exact ⟨(hlive d).mpr (.inl hl), ht, fun heq => hnew (Option.some.inj heq ▸ hl)⟩
  worker_spec d hw := by
    obtain rfl := Option.some.inj hw
    exact ⟨(hlive _).mpr (.inr rfl), fun ht => hnew (h.table_live _ ht), fun ht => hnew (h.todo_live _ ht)⟩
  todo_nodup := h.todo_nodup
  todo_live d hd := (hlive d).mpr (.inl (h.todo_live d hd))

/-- The maker makes a resource. -/
theorem makerMake (h : Distribution live table none worker todo) (hnew : ¬ live c)
    (hlive : ∀ d, live' d ↔ live d ∨ d = c) : Distribution live' table (some c) worker todo where
  nodup := h.nodup
  table_live d hd := (hlive d).mpr (.inl (h.table_live d hd))
  covered d hd := by
    rcases (hlive d).mp hd with hl | rfl
    · rcases h.covered d hl with ht | hm | hw
      · exact .inl ht
      · contradiction
      · exact .inr (.inr hw)
    · exact .inr (.inl rfl)
  maker_spec d hm := by
    obtain rfl := Option.some.inj hm
    exact ⟨(hlive _).mpr (.inr rfl), fun ht => hnew (h.table_live _ ht), fun hw => hnew (h.worker_spec _ hw).1⟩
  worker_spec d hw := by
    obtain ⟨hl, ht, htodo⟩ := h.worker_spec d hw
    exact ⟨(hlive d).mpr (.inl hl), ht, htodo⟩
  todo_nodup := h.todo_nodup
  todo_live d hd := (hlive d).mpr (.inl (h.todo_live d hd))

theorem nodup_publish (hnd : table.Nodup) (hc : c ∉ table) : (table ++ [c]).Nodup := by
  rw [(List.perm_append_singleton c table).nodup_iff]
  exact List.nodup_cons.mpr ⟨hc, hnd⟩

/-- The worker publishes the resource it holds. -/
theorem workerPublish (h : Distribution live table maker (some c) todo) :
    Distribution live (table ++ [c]) maker none todo where
  nodup := nodup_publish h.nodup (h.worker_spec c rfl).2.1
  table_live d hd := by
    rcases List.mem_append.mp hd with ht | hc
    · exact h.table_live d ht
    · exact List.mem_singleton.mp hc ▸ (h.worker_spec c rfl).1
  covered d hd := by
    rcases h.covered d hd with ht | hm | hw
    · exact .inl (List.mem_append_left _ ht)
    · exact .inr (.inl hm)
    · exact .inl (List.mem_append_right _ (List.mem_singleton.mpr (Option.some.inj hw).symm))
  maker_spec d hm := by
    obtain ⟨hl, ht, hw⟩ := h.maker_spec d hm
    refine ⟨hl, fun hd => ?_, nofun⟩
    rcases List.mem_append.mp hd with ht' | hc
    · exact ht ht'
    · exact hw (List.mem_singleton.mp hc ▸ rfl)
  worker_spec := nofun
  todo_nodup := h.todo_nodup
  todo_live := h.todo_live

/-- The maker publishes what it has set up. -/
theorem makerPublish (h : Distribution live table (some c) worker todo) :
    Distribution live (table ++ [c]) none worker todo where
  nodup := nodup_publish h.nodup (h.maker_spec c rfl).2.1
  table_live d hd := by
    rcases List.mem_append.mp hd with ht | hc
    · exact h.table_live d ht
    · exact List.mem_singleton.mp hc ▸ (h.maker_spec c rfl).1
  covered d hd := by
    rcases h.covered d hd with ht | hm | hw
    · exact .inl (List.mem_append_left _ ht)
    · exact .inl (List.mem_append_right _ (List.mem_singleton.mpr (Option.some.inj hm).symm))
    · exact .inr (.inr hw)
  maker_spec := nofun
  worker_spec d hw := by
    obtain ⟨hl, ht, htodo⟩ := h.worker_spec d hw
    refine ⟨hl, fun hd => ?_, htodo⟩
    rcases List.mem_append.mp hd with ht' | hc
    · exact ht ht'
    · exact (h.maker_spec c rfl).2.2 (List.mem_singleton.mp hc ▸ hw)
  todo_nodup := h.todo_nodup
  todo_live := h.todo_live

end Distribution

/-! ### An array as the table -/

/-- Overwrite the first entry that satisfies `p` by the last one and shorten the array. -/
def swapRemove (p : ι → Bool) (l : List ι) : List ι :=
  match l.findIdx? p, l.getLast? with
  | some i, some last => (l.set i last).dropLast
  | _, _ => l

/-- Up to the order, one entry is erased. -/
theorem swapRemove_perm {p : ι → Bool} {l : List ι} {i : ℕ} (h : l.findIdx? p = some i) :
    (swapRemove p l).Perm (l.eraseIdx i) := by
  obtain ⟨hi, -⟩ := List.findIdx?_eq_some_iff_getElem.mp h
  obtain ⟨init, last, rfl⟩ : ∃ init last, l = init ++ [last] := by
    rcases List.eq_nil_or_concat l with rfl | ⟨init, last, rfl⟩
    · exact absurd hi (Nat.not_lt_zero _)
    · exact ⟨init, last, List.concat_eq_append⟩
  rw [swapRemove, h, List.getLast?_concat]
  simp only
  rw [List.length_append, List.length_singleton] at hi
  rcases Nat.lt_or_ge i init.length with hlt | hge
  · rw [List.set_append_left _ _ hlt, List.dropLast_concat, List.eraseIdx_append_of_lt_length hlt]
    exact (List.set_perm_cons_eraseIdx hlt last).trans (List.perm_append_singleton last _).symm
  · obtain rfl : i = init.length := by omega
    rw [List.set_append_right _ _ (Nat.le_refl _), Nat.sub_self, List.set_cons_zero, List.dropLast_concat,
      List.eraseIdx_append_of_length_le (Nat.le_refl _), Nat.sub_self, List.eraseIdx_cons_zero, List.append_nil]

/-- When one entry satisfies `p`, that one is removed. -/
theorem swapRemove_spec {p : ι → Bool} {l : List ι} (hnd : l.Nodup) (hc : c ∈ l)
    (hp : ∀ d ∈ l, p d = true ↔ d = c) :
    (swapRemove p l).Nodup ∧ ∀ d, d ∈ swapRemove p l ↔ d ∈ l ∧ d ≠ c := by
  obtain ⟨i, hi⟩ : ∃ i, l.findIdx? p = some i := by
    rw [← Option.isSome_iff_exists, List.findIdx?_isSome, List.any_eq_true]
    exact ⟨c, hc, (hp c hc).mpr rfl⟩
  obtain ⟨hlt, hpi, -⟩ := List.findIdx?_eq_some_iff_getElem.mp hi
  have hget : l[i] = c := (hp _ (List.getElem_mem hlt)).mp hpi
  have hperm : (c :: swapRemove p l).Perm l := by
    rw [← hget]
    exact ((swapRemove_perm hi).cons _).trans (List.getElem_cons_eraseIdx_perm hlt)
  obtain ⟨hnot, hnd'⟩ := List.nodup_cons.mp (hperm.nodup_iff.mpr hnd)
  refine ⟨hnd', fun d => ?_⟩
  rw [← hperm.mem_iff, List.mem_cons]
  constructor
  · intro hd
    exact ⟨.inr hd, fun heq => hnot (heq ▸ hd)⟩
  · rintro ⟨heq | hd, hne⟩
    · exact absurd heq hne
    · exact hd

end Ownership
