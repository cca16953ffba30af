import Bitmessage.Common.ReadBack

/-! The bounded reader of the post-quantum objects. A read that does not fit sets an error
mark and reads nothing; the mark stays, and every later read leaves its destination as it
was. The parser looks at the mark only now and then. -/

namespace Bitmessage

open Traced

/-- `struct rbuf` on a buffer: the cursor and the mark. -/
structure RBuf where
  p : ℕ
  error : Bool
  deriving DecidableEq

/-- A parser with such a reader. -/
abbrev StickyParser := Traced Access RBuf

namespace StickyParser

variable (r : Region) (b : Buf)

/-- `r_bytes`: the destination is zero before. -/
def rBytes (len : ℕ) : StickyParser Bytes := do
  let s ← get
  if s.error = true then pure (List.replicate len 0)
  else do
    emit (.remaining r s.p)
    if subW b.size s.p < len then do
      set ⟨s.p, true⟩
      pure (List.replicate len 0)
    else do
      emit (.read r s.p len)
      set ⟨addW s.p len, false⟩
      emit (.cursor r (addW s.p len))
      pure (b.slice s.p len)

/-- `r_u32`. -/
def rU32 : StickyParser ℕ := do
  let bs ← rBytes r b 4
  let s ← get
  pure (if s.error = true then 0 else Radix.beNat bs)

/-- `r_varint`. -/
def rVarint : StickyParser ℕ := do
  let s ← get
  if s.error = true then pure 0
  else do
    emit (.remaining r s.p)
    let data := b.slice s.p (min (subW b.size s.p) 9)
    emit (.read r s.p (varintTouched data))
    if (varintDecode data).1 = 0 then do
      set ⟨s.p, true⟩
      pure 0
    else do
      set ⟨addW s.p (varintDecode data).1, false⟩
      emit (.cursor r (addW s.p (varintDecode data).1))
      pure (varintDecode data).2

end StickyParser

open StickyParser

section

variable {size : Region → ℕ} {r : Region} {b : Buf} {s t : RBuf} {β : Type}

/-! ### One read -/

theorem result_rBytes (hp : s.p ≤ b.size) (len : ℕ) : (rBytes r b len).result s =
    if s.error = false ∧ s.p + len ≤ b.size then some (b.slice s.p len, ⟨s.p + len, false⟩)
    else some (List.replicate len 0, ⟨s.p, true⟩) := by
  have hw := b.size_lt
  have hsub : subW b.size s.p = b.size - s.p := subW_of_le (by unfold wordSize; omega) hp
  obtain ⟨p, error⟩ := s
  unfold rBytes
  rw [result_bind_of_result (result_get _)]
  cases error with
  | true => rfl
  | false =>
    simp only [Bool.false_eq_true, if_false, true_and, result_emit_bind] at hp hsub ⊢
    rw [hsub]
    by_cases hfit : p + len ≤ b.size
    · rw [if_neg (by omega), if_pos hfit, result_emit_bind, addW_of_lt (by unfold wordSize; omega),
        result_bind_of_result (result_set _ _), result_emit_bind, result_pure]
    · rw [if_pos (by omega), if_neg hfit, result_bind_of_result (result_set _ _), result_pure]

theorem result_rVarint (hp : s.p ≤ b.size) : (rVarint r b).result s =
    if s.error = true then some (0, s)
    else (b.varintAt s.p).elim (some (0, ⟨s.p, true⟩)) fun d => some (d.1, ⟨d.2, false⟩) := by
  have hw := b.size_lt
  have hsub : subW b.size s.p = b.size - s.p := subW_of_le (by unfold wordSize; omega) hp
  obtain ⟨p, error⟩ := s
  unfold rVarint
  rw [result_bind_of_result (result_get _)]
  cases error with
  | true => rfl
  | false =>
    simp only [Bool.false_eq_true, if_false, result_emit_bind] at hp hsub ⊢
    have hdecode : varintDecode (b.slice p (min (subW b.size p) 9)) = b.decodeAt p := by rw [hsub, Buf.decodeAt]
    simp only [hdecode]
    unfold Buf.varintAt
    by_cases h0 : (b.decodeAt p).1 = 0
    · rw [if_pos h0, if_pos h0, result_bind_of_result (result_set _ _), result_pure, Option.elim_none]
    · rw [if_neg h0, if_neg h0, BufParser.addW_decodeAt hp, result_bind_of_result (result_set _ _),
        result_emit_bind, result_pure, Option.elim_some]

/-! ### What a read tells

The cursor stays inside the buffer. Once the mark is found to be clear, it was clear before, and
the read took place. -/

theorem rBytes_eq_some {len : ℕ} {v : Bytes} (hp : s.p ≤ b.size) (h : (rBytes r b len).result s = some (v, t)) :
    t.p ≤ b.size ∧ (t.error = false →
      s.error = false ∧ s.p + len ≤ b.size ∧ v = b.slice s.p len ∧ t.p = s.p + len) := by
  rw [result_rBytes hp] at h
  split_ifs at h with hfit
  · cases h
    exact ⟨hfit.2, fun _ => ⟨hfit.1, hfit.2, rfl, rfl⟩⟩
  · cases h
    exact ⟨hp, fun h => Bool.noConfusion h⟩

theorem rU32_eq_some {v : ℕ} (hp : s.p ≤ b.size) (h : (rU32 r b).result s = some (v, t)) :
    t.p ≤ b.size ∧ (t.error = false →
      s.error = false ∧ s.p + 4 ≤ b.size ∧ v = Radix.beNat (b.slice s.p 4) ∧ t.p = s.p + 4) := by
  unfold rU32 at h
  obtain ⟨bs, u, hbs, h⟩ := result_bind_eq_some.mp h
  rw [result_bind_of_result (result_get _), result_pure] at h
  cases h
  obtain ⟨hin, hok⟩ := rBytes_eq_some hp hbs
  refine ⟨hin, fun herr => ?_⟩
  obtain ⟨hs, hfit, rfl, hu⟩ := hok herr
  exact ⟨hs, hfit, if_neg (by rw [herr]; exact Bool.noConfusion), hu⟩

theorem rVarint_eq_some {v : ℕ} (hp : s.p ≤ b.size) (h : (rVarint r b).result s = some (v, t)) :
    t.p ≤ b.size ∧ (t.error = false → s.error = false ∧ b.varintAt s.p = some (v, t.p)) := by
  rw [result_rVarint hp] at h
  split_ifs at h with herr
  · cases h
    exact ⟨hp, fun h => absurd (h.symm.trans herr) Bool.noConfusion⟩
  · rcases hd : b.varintAt s.p with _ | ⟨w, q⟩
    · rw [hd, Option.elim_none] at h
      cases h
      exact ⟨hp, fun h => Bool.noConfusion h⟩
    · rw [hd, Option.elim_some] at h
      cases h
      exact ⟨(Buf.varintAt_eq_some hd hp).2.1, fun _ => ⟨Bool.eq_false_iff.mpr herr, rfl⟩⟩

/-! ### Bounds -/

theorem safe_rBytes (hb : b.size = size r) (hp : s.p ≤ b.size) (len : ℕ) :
    Safe (Access.InBounds size) (rBytes r b len) s := by
  have hw := b.size_lt
  have hsub : subW b.size s.p = b.size - s.p := subW_of_le (by unfold wordSize; omega) hp
  have hrem : Access.InBounds size (.remaining r s.p) := by rw [Access.InBounds, ← hb]; exact hp
  unfold rBytes
  rw [safe_get_bind]
  split
  · exact safe_pure _ _
  · rw [safe_emit_bind]
    refine ⟨hrem, ?_⟩
    split
    · rw [safe_set_bind]
      exact safe_pure _ _
    · next hfit =>
      rw [hsub] at hfit
      have hend : s.p + len ≤ size r := by rw [← hb]; omega
      rw [safe_emit_bind, safe_set_bind, safe_emit_bind, addW_of_lt (by unfold wordSize; omega)]
      exact ⟨hend, hend, safe_pure _ _⟩

theorem safe_rBytes_bind (hb : b.size = size r) (hp : s.p ≤ b.size) {len : ℕ} {f : Bytes → StickyParser β}
    (hf : ∀ v t, t.p ≤ b.size → Safe (Access.InBounds size) (f v) t) :
    Safe (Access.InBounds size) (rBytes r b len >>= f) s :=
  safe_bind.mpr ⟨safe_rBytes hb hp len, fun v t h => hf v t (rBytes_eq_some hp h).1⟩

theorem safe_rU32_bind (hb : b.size = size r) (hp : s.p ≤ b.size) {f : ℕ → StickyParser β}
    (hf : ∀ v t, t.p ≤ b.size → Safe (Access.InBounds size) (f v) t) :
    Safe (Access.InBounds size) (rU32 r b >>= f) s := by
  refine safe_bind.mpr ⟨?_, fun v t h => hf v t (rU32_eq_some hp h).1⟩
  refine safe_rBytes_bind hb hp fun v t _ => ?_
  rw [safe_get_bind]
  exact safe_pure _ _

theorem safe_rVarint (hb : b.size = size r) (hp : s.p ≤ b.size) : Safe (Access.InBounds size) (rVarint r b) s := by
  have hw := b.size_lt
  have hsub : subW b.size s.p = b.size - s.p := subW_of_le (by unfold wordSize; omega) hp
  have hrem : Access.InBounds size (.remaining r s.p) := by rw [Access.InBounds, ← hb]; exact hp
  unfold rVarint
  rw [safe_get_bind]
  split
  · exact safe_pure _ _
  · have htouched := varintTouched_le (b.slice s.p (min (b.size - s.p) 9))
    have hdecoded := Buf.decodeAt_le hp
    rw [Buf.length_slice] at htouched
    rw [Buf.decodeAt] at hdecoded
    simp only [hsub, safe_emit_bind]
    refine ⟨hrem, by rw [Access.InBounds, ← hb]; omega, ?_⟩
    split
    · rw [safe_set_bind]
      exact safe_pure _ _
    · rw [safe_set_bind, safe_emit_bind, addW_of_lt (by unfold wordSize; omega)]
      exact ⟨by rw [Access.InBounds, ← hb]; exact hdecoded, safe_pure _ _⟩

theorem safe_rVarint_bind (hb : b.size = size r) (hp : s.p ≤ b.size) {f : ℕ → StickyParser β}
    (hf : ∀ v t, t.p ≤ b.size → Safe (Access.InBounds size) (f v) t) :
    Safe (Access.InBounds size) (rVarint r b >>= f) s :=
  safe_bind.mpr ⟨safe_rVarint hb hp, fun v t h => hf v t (rVarint_eq_some hp h).1⟩

/-! ### Reading what was written -/

variable {p : ℕ} {xs rest : Bytes}

theorem rBytes_of_rest {n : ℕ} (h : b.Rest p (xs ++ rest)) (hn : xs.length = n) :
    (rBytes r b n).result ⟨p, false⟩ = some (xs, ⟨p + xs.length, false⟩) := by
  have hsize := h.size
  rw [List.length_append] at hsize
  rw [← hn, result_rBytes (show p ≤ b.size by omega), if_pos ⟨rfl, by simp only; omega⟩, h.slice]

theorem rU32_of_rest {v : ℕ} (h : b.Rest p (Radix.beBytes 4 v ++ rest)) (hv : v < 2 ^ 32) :
    (rU32 r b).result ⟨p, false⟩ = some (v, ⟨p + (Radix.beBytes 4 v).length, false⟩) := by
  unfold rU32
  rw [result_bind_of_result (rBytes_of_rest h (Radix.length_beBytes 4 v)), result_bind_of_result (result_get _),
    result_pure, if_neg Bool.noConfusion, Radix.beNat_beBytes_of_lt (lt_of_lt_of_eq hv (by norm_num))]

theorem rVarint_of_rest {v : ℕ} (h : b.Rest p (varintEncode v ++ rest)) (hv : v < wordSize) :
    (rVarint r b).result ⟨p, false⟩ = some (v, ⟨p + (varintEncode v).length, false⟩) := by
  have hsize := h.size
  rw [List.length_append] at hsize
  have hat : b.varintAt p = some (v, p + (varintEncode v).length) := by
    rw [length_varintEncode]
    obtain ⟨front, hb, rfl⟩ := h
    exact Buf.varintAt_of_bytes hv hb
  rw [result_rVarint (show p ≤ b.size by omega), if_neg Bool.noConfusion, hat, Option.elim_some]

end

end Bitmessage
