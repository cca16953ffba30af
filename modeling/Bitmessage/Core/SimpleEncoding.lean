import Bitmessage.Core.RoundTrip

/-! The simple encoding of a subject and a body, with the accesses to memory of its four functions: the
sender's text is put together twice in the sources and taken apart twice. -/

namespace Bitmessage

open Traced

/-! ### Decoding -/

/-- `dup_bytes_as_cstr`: the bytes in front of the NUL. -/
def dupBytesAsCstr (b : Buf) (off len : ℕ) : Traced Access Unit Bytes := do
  emit (.read .body (if 0 < len then off else 0) len)
  pure (b.slice off len)

/-- The search for the body from `i` on. -/
def findBody (b : Buf) (i : ℕ) : ℕ → Traced Access Unit (Option ℕ)
  | 0 => pure none
  | fuel + 1 =>
    if addW i 6 ≤ b.size then do
      emit (.read .body i 6)
      if b.slice i 6 = bodyNeedle then pure (some i) else findBody b (addW i 1) fuel
    else pure none

/-- The search for the end of the first line of a subject of `i + n` bytes, from `i` on. -/
def firstLineLen (b : Buf) (i : ℕ) : ℕ → Traced Access Unit ℕ
  | 0 => pure i
  | n + 1 => do
    emit (.read .body (8 + i) 1)
    if b.mem (8 + i) = 0x0a then pure i else firstLineLen b (i + 1) n

/-- The text without a separator: no subject, and all of it is the body. -/
def wholeBody (b : Buf) : Traced Access Unit (Bytes × Bytes) := do
  let subject ← dupBytesAsCstr b 0 0
  let body ← dupBytesAsCstr b 0 b.size
  pure (subject, body)

/-- The text with the separator at `bodyIdx`. -/
def splitBody (b : Buf) (bodyIdx : ℕ) : Traced Access Unit (Bytes × Bytes) := do
  let subjectLen := min (if 8 ≤ bodyIdx then subW bodyIdx 8 else 0) 500
  let lineLen ← firstLineLen b 0 subjectLen
  let subject ← dupBytesAsCstr b 8 lineLen
  let bodyStart := addW bodyIdx 6
  let body ← dupBytesAsCstr b bodyStart (subW b.size bodyStart)
  pure (subject, body)

/-- `body_idx`, missing where it stays `(size_t)-1`. -/
def bodyIndex (b : Buf) : Traced Access Unit (Option ℕ) := if 6 ≤ b.size then findBody b 0 b.size else pure none

/-- The text of `decode_simple`, which stands in two files. -/
def decodeSimpleAt (b : Buf) : Traced Access Unit (Bytes × Bytes) := do
  let bodyIdx ← bodyIndex b
  match bodyIdx with
  | some bodyIdx => if 1 < bodyIdx then splitBody b bodyIdx else wholeBody b
  | none => wholeBody b

/-- `decode_simple` of `trial_decrypt.c`. -/
def msgDecodeSimple (b : Buf) : Traced Access Unit (Bytes × Bytes) := decodeSimpleAt b

/-- `decode_simple` of `broadcast_decrypt.c`. -/
def broadcastDecodeSimple (b : Buf) : Traced Access Unit (Bytes × Bytes) := decodeSimpleAt b

section

variable (b : Buf)

theorem result_dupBytesAsCstr (off len : ℕ) : (dupBytesAsCstr b off len).result () = some (b.slice off len, ()) := by
  rw [dupBytesAsCstr, result_emit_bind, result_pure]

theorem safe_dupBytesAsCstr {off len : ℕ} (h : off + len ≤ b.size) :
    Safe (Access.InBounds fun _ => b.size) (dupBytesAsCstr b off len) () := by
  rw [dupBytesAsCstr, safe_emit_bind]
  refine ⟨?_, safe_pure _ _⟩
  show (if 0 < len then off else 0) + len ≤ b.size
  split_ifs <;> omega

/-- The search finds the first place where the separator stands. -/
theorem result_findBody {i n : ℕ} (hn : b.size ≤ i + n) (hi : i ≤ b.size) : (findBody b i n).result () =
    some ((List.range' i (b.size + 1 - 6 - i)).find? fun i => decide ((b.bytes.drop i).take 6 = bodyNeedle), ()) := by
  have hsize := b.size_lt
  induction n generalizing i with
  | zero =>
    have hnone : b.size + 1 - 6 - i = 0 := by omega
    rw [hnone]
    rfl
  | succ n ih =>
    have hadd : addW i 6 = i + 6 := addW_of_lt (by unfold wordSize; omega)
    have hnext : addW i 1 = i + 1 := addW_of_lt (by unfold wordSize; omega)
    rw [findBody, hadd, hnext]
    by_cases hfit : i + 6 ≤ b.size
    · have hcount : b.size + 1 - 6 - i = (b.size + 1 - 6 - (i + 1)) + 1 := by omega
      rw [if_pos hfit, result_emit_bind, hcount, List.range'_succ, List.find?_cons, b.slice_eq hfit]
      by_cases hmatch : (b.bytes.drop i).take 6 = bodyNeedle
      · rw [if_pos hmatch, decide_eq_true hmatch]
        rfl
      · rw [if_neg hmatch, decide_eq_false hmatch]
        exact ih (by omega) (by omega)
    · have hnone : b.size + 1 - 6 - i = 0 := by omega
      rw [if_neg hfit, hnone]
      rfl

theorem safe_findBody {i : ℕ} (hi : i ≤ b.size) (n : ℕ) :
    Safe (Access.InBounds fun _ => b.size) (findBody b i n) () := by
  have hsize := b.size_lt
  have hadd : addW i 6 = i + 6 := addW_of_lt (by unfold wordSize; omega)
  have hnext : addW i 1 = i + 1 := addW_of_lt (by unfold wordSize; omega)
  induction n generalizing i with
  | zero => exact safe_pure _ _
  | succ n ih =>
    rw [findBody, hadd, hnext]
    split_ifs with hfit hmatch
    · rw [safe_emit_bind]
      exact ⟨hfit, safe_pure _ _⟩
    · rw [safe_emit_bind]
      refine ⟨hfit, ih (by omega) ?_ ?_⟩
      · exact addW_of_lt (by unfold wordSize; omega)
      · exact addW_of_lt (by unfold wordSize; omega)
    · exact safe_pure _ _

/-- The first line ends at the first line feed, or where the subject ends. -/
theorem result_firstLineLen (i n : ℕ) (h : 8 + i + n ≤ b.size) : (firstLineLen b i n).result () =
    some (i + (((b.bytes.drop (8 + i)).take n).takeWhile (· ≠ 0x0a)).length, ()) := by
  induction n generalizing i with
  | zero => simp [firstLineLen]
  | succ n ih =>
    have hbyte : b.bytes.drop (8 + i) = b.mem (8 + i) :: b.bytes.drop (8 + (i + 1)) := by
      have hlt : 8 + i < b.bytes.length := by
        rw [b.length_bytes]
        omega
      rw [List.drop_eq_getElem_cons hlt, Nat.add_assoc]
      simp [Buf.bytes, Buf.slice]
    rw [firstLineLen, result_emit_bind, hbyte, List.take_succ_cons, List.takeWhile_cons]
    by_cases hfeed : b.mem (8 + i) = 0x0a
    · simp [hfeed]
    · rw [if_neg hfeed, ih (i + 1) (by omega)]
      simp [hfeed]
      omega

theorem safe_firstLineLen (i n : ℕ) (h : 8 + i + n ≤ b.size) :
    Safe (Access.InBounds fun _ => b.size) (firstLineLen b i n) () := by
  induction n generalizing i with
  | zero => exact safe_pure _ _
  | succ n ih =>
    rw [firstLineLen, safe_emit_bind]
    refine ⟨show 8 + i + 1 ≤ b.size by omega, ?_⟩
    split_ifs
    · exact safe_pure _ _
    · exact ih (i + 1) (by omega)

theorem result_wholeBody : (wholeBody b).result () = some (([], b.bytes), ()) := by
  rw [wholeBody, result_bind_of_result (result_dupBytesAsCstr b 0 0),
    result_bind_of_result (result_dupBytesAsCstr b 0 b.size)]
  rfl

theorem safe_wholeBody : Safe (Access.InBounds fun _ => b.size) (wholeBody b) () := by
  rw [wholeBody, safe_bind_of_result (result_dupBytesAsCstr b 0 0),
    safe_bind_of_result (result_dupBytesAsCstr b 0 b.size)]
  exact ⟨safe_dupBytesAsCstr b (Nat.zero_le _), safe_dupBytesAsCstr b (Nat.zero_add _).le, safe_pure _ _⟩

/-- The length of the subject, which ends in front of the separator. -/
theorem subjectLen_eq {bodyIdx : ℕ} (h : bodyIdx + 6 ≤ b.size) :
    min (if 8 ≤ bodyIdx then subW bodyIdx 8 else 0) 500 = min (bodyIdx - 8) 500 := by
  have hsize := b.size_lt
  split_ifs with h8
  · rw [subW_of_le (by unfold wordSize; omega) h8]
  · rw [Nat.sub_eq_zero_of_le (by omega)]

theorem bodyStart_eq {bodyIdx : ℕ} (h : bodyIdx + 6 ≤ b.size) :
    addW bodyIdx 6 = bodyIdx + 6 ∧ subW b.size (bodyIdx + 6) = b.size - (bodyIdx + 6) := by
  have hsize := b.size_lt
  exact ⟨addW_of_lt (by unfold wordSize; omega), subW_of_le (by unfold wordSize; omega) h⟩

/-- The subject is the first line between the prefix and the separator. -/
def subjectLine (data : Bytes) (bodyIdx : ℕ) : Bytes :=
  ((data.drop 8).take (min (bodyIdx - 8) 500)).takeWhile (· ≠ 0x0a)

theorem length_subjectLine_le (data : Bytes) (bodyIdx : ℕ) :
    (subjectLine data bodyIdx).length ≤ min (bodyIdx - 8) 500 :=
  ((List.takeWhile_prefix _).length_le).trans (List.length_take_le _ _)

theorem take_subjectLine (data : Bytes) (bodyIdx : ℕ) :
    (data.drop 8).take (subjectLine data bodyIdx).length = subjectLine data bodyIdx := by
  have hprefix : subjectLine data bodyIdx <+: data.drop 8 :=
    (List.takeWhile_prefix _).trans (List.take_prefix _ _)
  exact (List.prefix_iff_eq_take.mp hprefix).symm

theorem result_firstLine {bodyIdx : ℕ} (hpos : 1 < bodyIdx) (h : bodyIdx + 6 ≤ b.size) :
    (firstLineLen b 0 (min (bodyIdx - 8) 500)).result () = some ((subjectLine b.bytes bodyIdx).length, ()) := by
  rw [result_firstLineLen b 0 _ (by omega), Nat.zero_add]
  rfl

theorem result_splitBody {bodyIdx : ℕ} (hpos : 1 < bodyIdx) (h : bodyIdx + 6 ≤ b.size) :
    (splitBody b bodyIdx).result () = some ((subjectLine b.bytes bodyIdx, b.bytes.drop (bodyIdx + 6)), ()) := by
  have hline := length_subjectLine_le b.bytes bodyIdx
  have hsubject : b.slice 8 (subjectLine b.bytes bodyIdx).length = subjectLine b.bytes bodyIdx := by
    rw [b.slice_eq (by omega), take_subjectLine]
  have hbody : b.slice (bodyIdx + 6) (b.size - (bodyIdx + 6)) = b.bytes.drop (bodyIdx + 6) := by
    rw [b.slice_eq (by omega), List.take_of_length_le]
    rw [List.length_drop, b.length_bytes]
  unfold splitBody
  simp only
  rw [subjectLen_eq b h, (bodyStart_eq b h).1, (bodyStart_eq b h).2]
  rw [result_bind_of_result (result_firstLine b hpos h), result_bind_of_result (result_dupBytesAsCstr b 8 _),
    result_bind_of_result (result_dupBytesAsCstr b _ _), result_pure, hsubject, hbody]

theorem safe_splitBody {bodyIdx : ℕ} (hpos : 1 < bodyIdx) (h : bodyIdx + 6 ≤ b.size) :
    Safe (Access.InBounds fun _ => b.size) (splitBody b bodyIdx) () := by
  have hline := length_subjectLine_le b.bytes bodyIdx
  unfold splitBody
  simp only
  rw [subjectLen_eq b h, (bodyStart_eq b h).1, (bodyStart_eq b h).2]
  rw [safe_bind_of_result (result_firstLine b hpos h), safe_bind_of_result (result_dupBytesAsCstr b 8 _),
    safe_bind_of_result (result_dupBytesAsCstr b _ _)]
  refine ⟨safe_firstLineLen b 0 _ (by omega), safe_dupBytesAsCstr b (by omega), safe_dupBytesAsCstr b (by omega),
    safe_pure _ _⟩

theorem result_bodyIndex : (bodyIndex b).result () =
    some ((List.range (b.bytes.length + 1 - 6)).find? fun i => decide ((b.bytes.drop i).take 6 = bodyNeedle), ()) := by
  rw [b.length_bytes, List.range_eq_range']
  unfold bodyIndex
  split_ifs with h6
  · exact result_findBody b (Nat.zero_add _).ge (Nat.zero_le _)
  · have hnone : b.size + 1 - 6 = 0 := by omega
    rw [hnone]
    rfl

theorem safe_bodyIndex : Safe (Access.InBounds fun _ => b.size) (bodyIndex b) () := by
  unfold bodyIndex
  split_ifs
  · exact safe_findBody b (Nat.zero_le _) _
  · exact safe_pure _ _

/-- Where the separator is found it lies inside. -/
theorem le_of_found {bodyIdx : ℕ} (h : ((List.range (b.bytes.length + 1 - 6)).find? fun i =>
    decide ((b.bytes.drop i).take 6 = bodyNeedle)) = some bodyIdx) : bodyIdx + 6 ≤ b.size := by
  have := List.mem_range.mp (List.mem_of_find?_eq_some h)
  rw [b.length_bytes] at this
  omega

/-- The loops compute the subject and the body that the parsers go on with. -/
theorem result_decodeSimpleAt : (decodeSimpleAt b).result () = some (decodeSimple b.bytes, ()) := by
  unfold decodeSimpleAt decodeSimple
  rw [result_bind_of_result (result_bodyIndex b)]
  cases hfind : (List.range (b.bytes.length + 1 - 6)).find? fun i => decide ((b.bytes.drop i).take 6 = bodyNeedle) with
  | none => exact result_wholeBody b
  | some bodyIdx =>
    simp only
    split_ifs with hpos
    · exact result_splitBody b hpos (le_of_found b hfind)
    · exact result_wholeBody b

/-- They read inside the text. -/
theorem safe_decodeSimpleAt : Safe (Access.InBounds fun _ => b.size) (decodeSimpleAt b) () := by
  unfold decodeSimpleAt
  rw [safe_bind_of_result (result_bodyIndex b)]
  refine ⟨safe_bodyIndex b, ?_⟩
  cases hfind : (List.range (b.bytes.length + 1 - 6)).find? fun i => decide ((b.bytes.drop i).take 6 = bodyNeedle) with
  | none => exact safe_wholeBody b
  | some bodyIdx =>
    simp only
    split_ifs with hpos
    · exact safe_splitBody b hpos (le_of_found b hfind)
    · exact safe_wholeBody b

end

/-! ### Encoding -/

/-- `memcpy` to an offset of the area. -/
def copyTo (off : ℕ) (xs : Bytes) : Traced Access Bytes Unit := do
  let area ← get
  emit (.write area.length off xs.length)
  set (area.take off ++ (xs ++ area.drop (off + xs.length)))

section

variable (subject body : CString)

/-- The `len` of `build_simple_message`. -/
def simpleMessageLen : ℕ := addW (addW (addW 8 subject.bytes.length) 6) body.bytes.length

/-- What `build_simple_message` does to the area that it allocates. -/
def buildSimpleMessage : Traced Access Bytes Unit := do
  copyTo 0 subjectMarker
  copyTo 8 subject.bytes
  copyTo (addW 8 subject.bytes.length) bodyNeedle
  copyTo (addW (addW 8 subject.bytes.length) 6) body.bytes

end

/-- A copy behind what was written. -/
theorem result_copyTo (front xs rest : Bytes) : (copyTo front.length xs).result (front ++ rest) =
    some ((), front ++ xs ++ rest.drop xs.length) := by
  rw [copyTo, result_bind_of_result (result_get _), result_emit_bind, result_set, List.take_left, List.append_assoc,
    ← List.drop_drop, List.drop_left]

theorem safe_copyTo {front xs rest : Bytes} (h : xs.length ≤ rest.length) (size : Region → ℕ) :
    Safe (Access.InBounds size) (copyTo front.length xs) (front ++ rest) := by
  rw [copyTo, safe_get_bind, safe_emit_bind]
  refine ⟨?_, safe_set _ _⟩
  show front.length + xs.length ≤ (front ++ rest).length
  rw [List.length_append]
  omega

section

variable {subject body : CString}

theorem simpleMessageLen_eq (h : subject.bytes.length + body.bytes.length + 14 < wordSize) :
    addW 8 subject.bytes.length = 8 + subject.bytes.length ∧
      addW (addW 8 subject.bytes.length) 6 = 8 + subject.bytes.length + 6 ∧
      simpleMessageLen subject body = 8 + subject.bytes.length + 6 + body.bytes.length := by
  have h1 : addW 8 subject.bytes.length = 8 + subject.bytes.length := addW_of_lt (by omega)
  have h2 : addW (8 + subject.bytes.length) 6 = 8 + subject.bytes.length + 6 := addW_of_lt (by omega)
  refine ⟨h1, by rw [h1, h2], ?_⟩
  rw [simpleMessageLen, h1, h2]
  exact addW_of_lt (by omega)

/-- The area holds the text in the end, whatever was in it. -/
theorem buildSimpleMessage_spec (h : subject.bytes.length + body.bytes.length + 14 < wordSize) {area : Bytes}
    (harea : area.length = simpleMessageLen subject body) (size : Region → ℕ) :
    (buildSimpleMessage subject body).result area = some ((), simpleText subject body) ∧
      Safe (Access.InBounds size) (buildSimpleMessage subject body) area := by
  obtain ⟨h8, h14, hlen⟩ := simpleMessageLen_eq h
  have hmarker : subjectMarker.length = 8 := rfl
  have hneedle : bodyNeedle.length = 6 := rfl
  have hfront : (subjectMarker ++ subject.bytes).length = 8 + subject.bytes.length := by
    rw [List.length_append, hmarker]
  have hmiddle : (subjectMarker ++ subject.bytes ++ bodyNeedle).length = 8 + subject.bytes.length + 6 := by
    rw [List.length_append, hfront, hneedle]
  have r1 := result_copyTo [] subjectMarker area
  have r2 := result_copyTo subjectMarker subject.bytes (area.drop 8)
  have r3 := result_copyTo (subjectMarker ++ subject.bytes) bodyNeedle ((area.drop 8).drop subject.bytes.length)
  have r4 := result_copyTo (subjectMarker ++ subject.bytes ++ bodyNeedle) body.bytes
    (((area.drop 8).drop subject.bytes.length).drop 6)
  rw [List.nil_append, List.nil_append, List.length_nil, hmarker] at r1
  rw [hmarker] at r2
  rw [hfront, hneedle] at r3
  rw [hmiddle] at r4
  have hrest : (((area.drop 8).drop subject.bytes.length).drop 6).drop body.bytes.length = [] := by
    apply List.drop_eq_nil_of_le
    simp only [List.length_drop]
    omega
  rw [hrest] at r4
  unfold buildSimpleMessage
  rw [h14, h8]
  constructor
  · rw [result_bind_of_result r1, result_bind_of_result r2, result_bind_of_result r3, r4, simpleText]
    simp only [List.append_assoc, List.append_nil]
  · rw [safe_bind_of_result r1, safe_bind_of_result r2, safe_bind_of_result r3]
    have s2 := @safe_copyTo subjectMarker subject.bytes (area.drop 8) (by rw [List.length_drop]; omega) size
    have s3 := @safe_copyTo (subjectMarker ++ subject.bytes) bodyNeedle ((area.drop 8).drop subject.bytes.length)
      (by simp only [List.length_drop]; omega) size
    have s4 := @safe_copyTo (subjectMarker ++ subject.bytes ++ bodyNeedle) body.bytes
      (((area.drop 8).drop subject.bytes.length).drop 6) (by simp only [List.length_drop]; omega) size
    rw [hmarker] at s2
    rw [hfront] at s3
    rw [hmiddle] at s4
    exact ⟨@safe_copyTo [] subjectMarker area (by omega) size, s2, s3, s4⟩

/-- Both encoders write one text, and both decoders take it apart again; on any other bytes the decoders agree,
and they read inside of them. No object in memory is larger than `PTRDIFF_MAX`. -/
theorem simple_encoding_agrees (hline : (0x0a : UInt8) ∉ subject.bytes) (hlen : subject.bytes.length ≤ 500)
    (hbody : body.bytes.length < 2 ^ 63) :
    (∀ area : Bytes, area.length = simpleMessageLen subject body →
      ∃ text, (buildSimpleMessage subject body).result area = some ((), text) ∧
        simpleEncodedMessage subject body = varintEncode 2 ++ varbytes text ∧
        Safe (Access.InBounds fun _ => 0) (buildSimpleMessage subject body) area ∧
        ∀ b : Buf, b.bytes = text →
          (msgDecodeSimple b).result () = some ((subject.bytes, body.bytes), ()) ∧
          (broadcastDecodeSimple b).result () = some ((subject.bytes, body.bytes), ())) ∧
    ∀ b : Buf, (msgDecodeSimple b).result () = some (decodeSimple b.bytes, ()) ∧
      (broadcastDecodeSimple b).result () = some (decodeSimple b.bytes, ()) ∧
      Safe (Access.InBounds fun _ => b.size) (msgDecodeSimple b) () ∧
      Safe (Access.InBounds fun _ => b.size) (broadcastDecodeSimple b) () := by
  constructor
  · intro area harea
    have hfits : subject.bytes.length + body.bytes.length + 14 < wordSize := by
      unfold wordSize
      omega
    obtain ⟨hresult, hsafe⟩ := buildSimpleMessage_spec hfits harea fun _ => 0
    refine ⟨_, hresult, rfl, hsafe, ?_⟩
    intro b hb
    have hdecode : (decodeSimpleAt b).result () = some ((subject.bytes, body.bytes), ()) := by
      rw [result_decodeSimpleAt, hb, decodeSimple_simpleText body hline hlen]
    exact ⟨hdecode, hdecode⟩
  · intro b
    exact ⟨result_decodeSimpleAt b, result_decodeSimpleAt b, safe_decodeSimpleAt b, safe_decodeSimpleAt b⟩

end

/-- A body that is itself a separator. -/
theorem simple_encoding_agrees_nested :
    let subject : CString := ⟨[0x61], by simp⟩
    let body : CString := ⟨bodyNeedle, by simp [bodyNeedle]⟩
    ∃ text, simpleEncodedMessage subject body = varintEncode 2 ++ varbytes text ∧
      ∀ b : Buf, b.bytes = text → (msgDecodeSimple b).result () = some (([0x61], bodyNeedle), ()) ∧
        (broadcastDecodeSimple b).result () = some (([0x61], bodyNeedle), ()) := by
  intro subject body
  obtain ⟨text, -, henc, -, hdecode⟩ := (@simple_encoding_agrees subject body (by decide) (by decide)
    (by decide)).1 (List.replicate 21 0) rfl
  exact ⟨text, henc, hdecode⟩

end Bitmessage
