import Mathlib.Data.List.Basic
import Mathlib.Data.Nat.Notation
import Mathlib.Logic.Function.Basic

/-! A singly linked FIFO with a head and a tail pointer, as C code keeps it: cells
in a heap, appending through the tail pointer, removing through the head pointer,
and a tail that has to be reset when the last cell leaves. `Raw` is the pointer
structure and its operations; a `LinkedQueue` is a raw queue whose pointers are
consistent, so that it denotes the list of values met on the walk from the head.
Clients use the queue only through the list it denotes. -/

namespace LinkedQueue

variable {α : Type*}

/-- A heap cell: a value and the next pointer. -/
structure Node (α : Type*) where
  val : α
  next : Option ℕ

/-- Head and tail pointers into a heap. Addresses from `brk` on are unused. -/
structure Raw (α : Type*) where
  cells : ℕ → Option (Node α)
  head : Option ℕ
  tail : Option ℕ
  brk : ℕ

namespace Raw

def empty : Raw α := ⟨fun _ => none, none, none, 0⟩

/-- Let the cell at `t` point to `p`. -/
def link (cells : ℕ → Option (Node α)) (t p : ℕ) : ℕ → Option (Node α) :=
  Function.update cells t ((cells t).map fun n => { n with next := some p })

/-- Allocate a cell, hang it behind the tail (or make it the head), move the tail. -/
def enqueue (q : Raw α) (x : α) : Raw α :=
  let cells := Function.update q.cells q.brk (some ⟨x, none⟩)
  match q.tail with
  | some t => ⟨link cells t q.brk, q.head, some q.brk, q.brk + 1⟩
  | none => ⟨cells, some q.brk, some q.brk, q.brk + 1⟩

/-- Take the head cell; an emptied queue also loses its tail. -/
def dequeue (q : Raw α) : Option (α × Raw α) :=
  match q.head.bind q.cells with
  | some n => some (n.val, { q with head := n.next, tail := if n.next = none then none else q.tail })
  | none => none

/-- The value at the head. -/
def front (q : Raw α) : Option α := (q.head.bind q.cells).map Node.val

/-- Overwrite the value at the head. -/
def setFront (q : Raw α) (x : α) : Raw α :=
  match q.head with
  | some a => { q with cells := Function.update q.cells a ((q.cells a).map fun n => { n with val := x }) }
  | none => q

/-- Follow the next pointers for at most `fuel` cells. -/
def walk (cells : ℕ → Option (Node α)) : ℕ → Option ℕ → List α
  | 0, _ => []
  | _ + 1, none => []
  | fuel + 1, some a =>
    match cells a with
    | some n => n.val :: walk cells fuel n.next
    | none => []

/-- The values from the head on. -/
def toList (q : Raw α) : List α := walk q.cells q.brk q.head

/-- Drop every cell. -/
def clear (q : Raw α) : Raw α := { q with head := none, tail := none }

/-- `Seg cells p l`: the pointer `p` starts a null-terminated chain through the
addresses of `l` that carries its values. -/
def Seg (cells : ℕ → Option (Node α)) : Option ℕ → List (ℕ × α) → Prop
  | p, [] => p = none
  | p, c :: l => p = some c.1 ∧ ∃ next, cells c.1 = some ⟨c.2, next⟩ ∧ Seg cells next l

/-- The pointers of `q` are consistent with the cells `l`. -/
structure Consistent (q : Raw α) (l : List (ℕ × α)) : Prop where
  seg : Seg q.cells q.head l
  tail_eq : q.tail = l.getLast?.map Prod.fst
  nodup : (l.map Prod.fst).Nodup
  lt_brk : ∀ c ∈ l, c.1 < q.brk
  length_le : l.length ≤ q.brk

theorem seg_congr {cells cells' : ℕ → Option (Node α)} {l : List (ℕ × α)}
    (h : ∀ c ∈ l, cells' c.1 = cells c.1) {p : Option ℕ} (hs : Seg cells p l) : Seg cells' p l := by
  induction l generalizing p with
  | nil => exact hs
  | cons c l ih =>
    obtain ⟨hp, next, hc, hn⟩ := hs
    exact ⟨hp, next, (h c (by simp)).trans hc, ih (fun d hd => h d (by simp [hd])) hn⟩

theorem walk_of_seg {cells : ℕ → Option (Node α)} {p : Option ℕ} {l : List (ℕ × α)} {fuel : ℕ}
    (hs : Seg cells p l) (hf : l.length ≤ fuel) : walk cells fuel p = l.map Prod.snd := by
  induction l generalizing p fuel with
  | nil => cases hs; cases fuel <;> rfl
  | cons c l ih =>
    obtain ⟨rfl, next, hc, hn⟩ := hs
    obtain ⟨fuel, rfl⟩ := Nat.exists_eq_succ_of_ne_zero (n := fuel) (by simp at hf; omega)
    simp only [walk, hc, List.map_cons]
    rw [ih hn (by simp at hf; omega)]

theorem Consistent.toList_eq {q : Raw α} {l : List (ℕ × α)} (h : Consistent q l) :
    q.toList = l.map Prod.snd := walk_of_seg h.seg h.length_le

/-- Hanging a fresh cell behind the last cell of a chain appends it. -/
theorem seg_link {cells : ℕ → Option (Node α)} {p : Option ℕ} {l : List (ℕ × α)} {t : ℕ × α} {b : ℕ}
    {x : α} (hs : Seg cells p (l ++ [t])) (hnd : ((l ++ [t]).map Prod.fst).Nodup)
    (hb : ∀ c ∈ l ++ [t], c.1 < b) :
    Seg (link (Function.update cells b (some ⟨x, none⟩)) t.1 b) p (l ++ [t] ++ [(b, x)]) := by
  have htb : t.1 ≠ b := Nat.ne_of_lt (hb t (by simp))
  induction l generalizing p with
  | nil =>
    obtain ⟨hp, next, hc, rfl⟩ := hs
    refine ⟨hp, some b, ?_, rfl, none, ?_, rfl⟩
    · simp [link, htb, hc]
    · simp [link, htb.symm]
  | cons c l ih =>
    obtain ⟨hp, next, hc, hn⟩ := hs
    have hcb : c.1 ≠ b := Nat.ne_of_lt (hb c (by simp))
    have hct : c.1 ≠ t.1 := by
      simp only [List.cons_append, List.map_cons, List.nodup_cons, List.map_append, List.map_nil,
        List.mem_append, List.mem_singleton, not_or] at hnd
      exact hnd.1.2
    refine ⟨hp, next, by simp [link, hcb, hct, hc], ih hn ?_ fun d hd => hb d (by simp [hd])⟩
    simp only [List.cons_append, List.map_cons, List.nodup_cons] at hnd
    exact hnd.2

theorem Consistent.enqueue {q : Raw α} {l : List (ℕ × α)} (h : Consistent q l) (x : α) :
    Consistent (q.enqueue x) (l ++ [(q.brk, x)]) := by
  have hfresh : q.brk ∉ l.map Prod.fst := by
    intro hm
    obtain ⟨c, hc, he⟩ := List.mem_map.mp hm
    exact absurd (h.lt_brk c hc) (by omega)
  have hnd : ((l ++ [(q.brk, x)]).map Prod.fst).Nodup := by
    rw [List.map_append, List.map_singleton, List.nodup_append]
    refine ⟨h.nodup, by simp, ?_⟩
    rintro a ha b hb rfl
    obtain rfl : a = q.brk := List.mem_singleton.mp hb
    exact hfresh ha
  have hlt : ∀ c ∈ l ++ [(q.brk, x)], c.1 < q.brk + 1 := by
    intro c hc
    rcases List.mem_append.mp hc with hc | hc
    · have := h.lt_brk c hc; omega
    · simp only [List.mem_singleton] at hc
      subst hc; exact Nat.lt_succ_self _
  have hlen : (l ++ [(q.brk, x)]).length ≤ q.brk + 1 := by
    have := h.length_le
    simp only [List.length_append, List.length_singleton]; omega
  have hbrk : (q.enqueue x).brk = q.brk + 1 := by unfold Raw.enqueue; split <;> rfl
  refine ⟨?_, ?_, hnd, hbrk ▸ hlt, hbrk ▸ hlen⟩
  · rcases List.eq_nil_or_concat l with rfl | ⟨l, t, rfl⟩
    · have ht : q.tail = none := by simpa using h.tail_eq
      simp [Raw.enqueue, ht, Seg]
    · rw [List.concat_eq_append] at h ⊢
      have ht : q.tail = some t.1 := by simpa using h.tail_eq
      simp only [Raw.enqueue, ht]
      exact seg_link h.seg h.nodup h.lt_brk
  · unfold Raw.enqueue; split <;> simp

theorem Consistent.dequeue {q : Raw α} {c : ℕ × α} {l : List (ℕ × α)} (h : Consistent q (c :: l)) :
    ∃ q', q.dequeue = some (c.2, q') ∧ Consistent q' l := by
  obtain ⟨hp, next, hc, hn⟩ := h.seg
  have hnext : next = none ↔ l = [] := by
    cases l with
    | nil => exact iff_of_true hn rfl
    | cons d l => simp [hn.1]
  refine ⟨{ q with head := next, tail := if next = none then none else q.tail },
    by simp [Raw.dequeue, hp, hc], hn, ?_, ?_, fun d hd => h.lt_brk d (by simp [hd]), ?_⟩
  · by_cases hl : l = []
    · simp [hnext.mpr hl, hl]
    · simp only [mt hnext.mp hl, if_false]
      rw [h.tail_eq, List.getLast?_cons]
      cases l with
      | nil => contradiction
      | cons d l => simp [List.getLast?_cons]
  · have := h.nodup
    simp only [List.map_cons, List.nodup_cons] at this
    exact this.2
  · have := h.length_le
    simp only [List.length_cons] at this
    simp only
    omega

theorem Consistent.front {q : Raw α} {l : List (ℕ × α)} (h : Consistent q l) :
    q.front = l.head?.map Prod.snd := by
  cases l with
  | nil => rw [Raw.front, show q.head = none from h.seg]; rfl
  | cons c l =>
    obtain ⟨hp, next, hc, -⟩ := h.seg
    rw [Raw.front, hp, Option.bind_some, hc]
    rfl

theorem Consistent.setFront {q : Raw α} {c : ℕ × α} {l : List (ℕ × α)} (h : Consistent q (c :: l)) (x : α) :
    Consistent (q.setFront x) ((c.1, x) :: l) := by
  obtain ⟨hp, next, hc, hn⟩ := h.seg
  have hnodup := h.nodup
  rw [List.map_cons, List.nodup_cons] at hnodup
  have hset : q.setFront x = { q with cells := Function.update q.cells c.1 (some ⟨x, next⟩) } := by
    rw [Raw.setFront, hp]
    simp only [hc, Option.map_some]
  rw [hset]
  refine ⟨⟨hp, next, Function.update_self .., seg_congr ?_ hn⟩, ?_, ?_, ?_, h.length_le⟩
  · intro d hd
    apply Function.update_of_ne
    rintro heq
    exact hnodup.1 (heq ▸ List.mem_map_of_mem hd)
  · rw [show (q.tail = _) from h.tail_eq]
    cases l with
    | nil => rfl
    | cons d l => simp [List.getLast?_cons]
  · rw [List.map_cons, List.nodup_cons]
    exact hnodup
  · intro d hd
    rcases List.mem_cons.mp hd with rfl | hd
    · exact h.lt_brk c List.mem_cons_self
    · exact h.lt_brk d (List.mem_cons_of_mem _ hd)

theorem Consistent.head_eq_none {q : Raw α} {l : List (ℕ × α)} (h : Consistent q l) : q.head = none ↔ l = [] := by
  cases l with
  | nil => exact iff_of_true h.seg rfl
  | cons c l => simp [h.seg.1]

theorem Consistent.tail_eq_none {q : Raw α} {l : List (ℕ × α)} (h : Consistent q l) : q.tail = none ↔ l = [] := by
  rw [h.tail_eq, Option.map_eq_none_iff, List.getLast?_eq_none_iff]

theorem Consistent.dequeue_nil {q : Raw α} (h : Consistent q []) : q.dequeue = none := by
  have : q.head = none := h.seg
  simp [Raw.dequeue, this]

end Raw

end LinkedQueue

/-- A linked queue with consistent pointers. -/
structure LinkedQueue (α : Type*) where
  raw : LinkedQueue.Raw α
  consistent : ∃ l, LinkedQueue.Raw.Consistent raw l

namespace LinkedQueue

variable {α : Type*}

def empty : LinkedQueue α := ⟨Raw.empty, [], rfl, rfl, List.nodup_nil, by simp, by simp⟩

/-- The values from the head to the tail. -/
def toList (q : LinkedQueue α) : List α := q.raw.toList

def enqueue (q : LinkedQueue α) (x : α) : LinkedQueue α :=
  ⟨q.raw.enqueue x, q.consistent.elim fun _ h => ⟨_, h.enqueue x⟩⟩

theorem dequeue_consistent {q : LinkedQueue α} {x : α} {r : Raw α} (h : q.raw.dequeue = some (x, r)) :
    ∃ l, Raw.Consistent r l := by
  obtain ⟨l, hl⟩ := q.consistent
  cases l with
  | nil => simp [hl.dequeue_nil] at h
  | cons c l =>
    obtain ⟨q', hq, hc⟩ := hl.dequeue
    rw [hq, Option.some.injEq, Prod.mk.injEq] at h
    exact ⟨l, h.2 ▸ hc⟩

/-- The head value and the queue without it. -/
def dequeue (q : LinkedQueue α) : Option (α × LinkedQueue α) :=
  match h : q.raw.dequeue with
  | some (x, r) => some (x, ⟨r, dequeue_consistent h⟩)
  | none => none

/-- Empty the queue, handing its values to the caller. -/
def clear (q : LinkedQueue α) : LinkedQueue α :=
  ⟨q.raw.clear, [], rfl, rfl, List.nodup_nil, by simp, by simp⟩

@[simp] theorem toList_empty : (empty : LinkedQueue α).toList = [] := rfl

@[simp] theorem toList_enqueue (q : LinkedQueue α) (x : α) : (q.enqueue x).toList = q.toList ++ [x] := by
  obtain ⟨l, hl⟩ := q.consistent
  unfold toList enqueue
  rw [(hl.enqueue x).toList_eq, hl.toList_eq, List.map_append, List.map_singleton]

theorem dequeue_of_toList_cons {q : LinkedQueue α} {x : α} {xs : List α} (h : q.toList = x :: xs) :
    ∃ q', q.dequeue = some (x, q') ∧ q'.toList = xs := by
  obtain ⟨l, hl⟩ := q.consistent
  rw [toList, hl.toList_eq] at h
  cases l with
  | nil => simp at h
  | cons c l =>
    simp only [List.map_cons, List.cons.injEq] at h
    obtain ⟨rfl, rfl⟩ := h
    obtain ⟨r, hr, hc⟩ := hl.dequeue
    refine ⟨⟨r, l, hc⟩, ?_, hc.toList_eq⟩
    unfold dequeue
    split
    · next h' =>
      rw [hr, Option.some.injEq, Prod.mk.injEq] at h'
      obtain ⟨rfl, rfl⟩ := h'
      rfl
    · next h' => simp [hr] at h'

theorem dequeue_of_toList_nil {q : LinkedQueue α} (h : q.toList = []) : q.dequeue = none := by
  obtain ⟨l, hl⟩ := q.consistent
  rw [toList, hl.toList_eq, List.map_eq_nil_iff] at h
  subst h
  unfold dequeue
  split
  · next h' => simp [hl.dequeue_nil] at h'
  · rfl

/-- A queue hands out its head and keeps the rest, in order. -/
theorem toList_of_dequeue {q q' : LinkedQueue α} {x : α} (h : q.dequeue = some (x, q')) :
    q.toList = x :: q'.toList := by
  rcases hq : q.toList with _ | ⟨y, ys⟩
  · simp [dequeue_of_toList_nil hq] at h
  · obtain ⟨r, hr, rfl⟩ := dequeue_of_toList_cons hq
    rw [hr, Option.some.injEq, Prod.mk.injEq] at h
    rw [h.1, h.2]

@[simp] theorem toList_clear (q : LinkedQueue α) : q.clear.toList = [] := by
  simp only [toList, clear, Raw.clear, Raw.toList]
  cases q.raw.brk <;> rfl

end LinkedQueue
