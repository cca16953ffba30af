import Bitmessage.Common.CText
import Bitmessage.Lib.BufferedReader

/-! The replies of the control port of Tor. The lines are read through a buffer of 4096 bytes, and a reply is
the lines up to the first whose separator is a space. -/

namespace Bitmessage

open Delivery BufferedReader

/-! ### Lines -/

/-- The end of a line. -/
def crlf : Bytes := [0x0d, 0x0a]

/-- The place of the first carriage return with a line feed behind it. -/
def crlfAt : Bytes → Option ℕ
  | a :: b :: bs => if a = 0x0d ∧ b = 0x0a then some 0 else (crlfAt (b :: bs)).map (· + 1)
  | _ => none

/-- The end of the line is here, or it is found behind the first character. -/
theorem crlfAt_induction {motive : Bytes → ℕ → Prop} (here : ∀ bs, motive (0x0d :: 0x0a :: bs) 0)
    (next : ∀ a b bs j, ¬(a = 0x0d ∧ b = 0x0a) → motive (b :: bs) j → motive (a :: b :: bs) (j + 1))
    {bs : Bytes} {i : ℕ} (h : crlfAt bs = some i) : motive bs i := by
  induction bs generalizing i with
  | nil => cases h
  | cons a bs ih =>
    cases bs with
    | nil => cases h
    | cons b bs =>
      rw [crlfAt] at h
      split_ifs at h with hhere
      · cases h
        rw [hhere.1, hhere.2]
        exact here bs
      · obtain ⟨j, hj, rfl⟩ := Option.map_eq_some_iff.mp h
        exact next a b bs j hhere (ih hj)

theorem crlfAt_spec {bs : Bytes} {i : ℕ} (h : crlfAt bs = some i) :
    bs = bs.take i ++ (crlf ++ bs.drop (i + 2)) ∧ i + 2 ≤ bs.length := by
  refine crlfAt_induction (motive := fun bs i => bs = bs.take i ++ (crlf ++ bs.drop (i + 2)) ∧ i + 2 ≤ bs.length)
    (fun bs => ?_) (fun a b bs j _ ih => ?_) h
  · exact ⟨rfl, Nat.le_add_left 2 bs.length⟩
  · constructor
    · rw [List.take_succ_cons, List.cons_append, show j + 1 + 2 = (j + 2) + 1 from rfl, List.drop_succ_cons, ← ih.1]
    · have hle := ih.2
      rw [List.length_cons]
      omega

theorem crlfAt_append {bs : Bytes} {i : ℕ} (h : crlfAt bs = some i) (rest : Bytes) : crlfAt (bs ++ rest) = some i := by
  refine crlfAt_induction (motive := fun bs i => crlfAt (bs ++ rest) = some i) (fun _ => rfl)
    (fun a b bs j hne ih => ?_) h
  rw [List.cons_append] at ih
  rw [List.cons_append, List.cons_append, crlfAt, if_neg hne, ih]
  rfl

theorem crlfAt_take {bs : Bytes} {i : ℕ} (h : crlfAt bs = some i) : crlfAt (bs.take (i + 2)) = some i := by
  refine crlfAt_induction (motive := fun bs i => crlfAt (bs.take (i + 2)) = some i) (fun _ => rfl)
    (fun a b bs j hne ih => ?_) h
  rw [List.take_succ_cons] at ih
  rw [show j + 1 + 2 = (j + 1) + 1 + 1 from rfl, List.take_succ_cons, List.take_succ_cons, crlfAt, if_neg hne, ih]
  rfl

/-- The frames of the reader are the lines with their ends. -/
def crlfFraming : Framing UInt8 where
  find bs := (crlfAt bs).map (· + 2)
  find_le bs n h := by
    obtain ⟨i, hi, rfl⟩ := Option.map_eq_some_iff.mp h
    exact (crlfAt_spec hi).2
  find_append bs n h rest := by
    obtain ⟨i, hi, rfl⟩ := Option.map_eq_some_iff.mp h
    rw [crlfAt_append hi]
    rfl

/-! ### The reader -/

/-- The size of `buf` in `struct line_reader`. -/
def lineReaderSize : ℕ := 4096

/-- `BM_TOR_CONTROL_LINE_CAP`. -/
def torControlLineCap : ℕ := 512

/-- `struct line_reader`. -/
abbrev LineReader := BufferedReader UInt8 lineReaderSize

/-- `line_reader_next`: a line, or as much of it as `out_line` has room for. -/
def lineReaderNext (r : LineReader) (s : Source UInt8) (outCap : ℕ) : Option (Bytes × LineReader × Source UInt8) :=
  (next crlfFraming (lineReaderSize + 1) r s).map fun x => ((x.1.take (x.1.length - 2)).take (outCap - 1), x.2)

/-- `struct reply_line`. -/
structure ReplyLine where
  code : ℤ
  sep : UInt8
  text : Bytes
  deriving DecidableEq

/-- What `parse_reply_line` makes of the characters of a string. -/
def replyLineOf : Bytes → Option ReplyLine
  | a :: b :: c :: sep :: text =>
    if isDigit a && isDigit b && isDigit c then some ⟨atoi [a, b, c], sep, text.take (torControlLineCap - 1)⟩ else none
  | _ => none

/-- `parse_reply_line`. -/
def parseReplyLine (raw : Bytes) : Option ReplyLine := replyLineOf (cString raw)

/-- `read_full_reply`, with the lines that there is still room for. -/
def readFullReply : ℕ → LineReader → Source UInt8 → Option (List ReplyLine × LineReader × Source UInt8)
  | 0, _, _ => none
  | room + 1, r, s =>
    (lineReaderNext r s torControlLineCap).bind fun x =>
      (parseReplyLine x.1).bind fun line =>
        if line.sep = 0x2b then none
        else if line.sep = 0x20 then some ([line], x.2)
        else (readFullReply room x.2.1 x.2.2).map fun y => (line :: y.1, y.2)

/-- Repeated calls with one reader, each with its number of lines, up to the first that fails. -/
def readReplies : List ℕ → LineReader → Source UInt8 → List (Option (List ReplyLine))
  | [], _, _ => []
  | maxLines :: calls, r, s =>
    match readFullReply maxLines r s with
    | none => [none]
    | some (lines, r, s) => some lines :: readReplies calls r s

/-! ### The stream -/

/-- The first line of a stream, if it fits into the buffer with its end, and what follows. -/
def nextLine (stream : Bytes) : Option (Bytes × Bytes) :=
  (crlfAt (stream.take lineReaderSize)).map fun i => (stream.take i, stream.drop (i + 2))

/-- The reply at the head of a stream, where `line` tells what a line says. -/
def replyOf (line : Bytes → Option ReplyLine) : ℕ → Bytes → Option (List ReplyLine × Bytes)
  | 0, _ => none
  | room + 1, stream =>
    (nextLine stream).bind fun x =>
      (line x.1).bind fun l =>
        if l.sep = 0x2b then none
        else if l.sep = 0x20 then some ([l], x.2)
        else (replyOf line room x.2).map fun y => (l :: y.1, y.2)

def streamReplies (line : Bytes → Option ReplyLine) : List ℕ → Bytes → List (Option (List ReplyLine))
  | [], _ => []
  | maxLines :: calls, stream =>
    match replyOf line maxLines stream with
    | none => [none]
    | some (lines, rest) => some lines :: streamReplies line calls rest

/-- What a line says: its characters up to the capacity, and of these the ones in front of a NUL. -/
def lineText (raw : Bytes) : Option ReplyLine := parseReplyLine (raw.take (torControlLineCap - 1))

theorem nextLine_eq_some_iff {stream raw rest : Bytes} : nextLine stream = some (raw, rest) ↔
    stream = raw ++ (crlf ++ rest) ∧ crlfAt (raw ++ crlf) = some raw.length ∧ raw.length + 2 ≤ lineReaderSize := by
  constructor
  · intro h
    obtain ⟨i, hi, heq⟩ := Option.map_eq_some_iff.mp h
    cases heq
    obtain ⟨hsplit, hle⟩ := crlfAt_spec hi
    rw [List.length_take] at hle
    have hwhole : crlfAt stream = some i := by
      rw [← List.take_append_drop lineReaderSize stream]
      exact crlfAt_append hi _
    have hraw : (stream.take i).length = i := by
      rw [List.length_take]
      omega
    obtain ⟨hstream, -⟩ := crlfAt_spec hwhole
    have htake : stream.take i ++ crlf = stream.take (i + 2) := by
      conv_rhs => rw [hstream, ← List.append_assoc]
      rw [List.take_left' (by rw [List.length_append, hraw]; rfl)]
    refine ⟨hstream, ?_, by omega⟩
    rw [htake, crlfAt_take hwhole, hraw]
  · rintro ⟨rfl, hfirst, hfits⟩
    have hlen : (raw ++ crlf).length = raw.length + 2 := List.length_append
    have htake : (raw ++ (crlf ++ rest)).take lineReaderSize =
        raw ++ crlf ++ rest.take (lineReaderSize - (raw.length + 2)) := by
      rw [← List.append_assoc, List.take_append, List.take_of_length_le (by omega), hlen]
    rw [nextLine, htake, crlfAt_append hfirst, Option.map_some, List.take_left, ← List.append_assoc, ← hlen,
      List.drop_left]

/-- The reader hands out the lines of the stream. -/
theorem lineReaderNext_eq (r : LineReader) (s : Source UInt8) (outCap : ℕ) :
    (lineReaderNext r s outCap).map (fun x => (x.1, x.2.1.unread x.2.2)) =
      (nextLine (r.unread s)).map fun x => (x.1.take (outCap - 1), x.2) := by
  have hnext := @next_eq UInt8 lineReaderSize crlfFraming (lineReaderSize + 1) r s (by omega)
  have hline : (lineReaderNext r s outCap).map (fun x => (x.1, x.2.1.unread x.2.2)) =
      ((next crlfFraming (lineReaderSize + 1) r s).map fun x => (x.1, x.2.1.unread x.2.2)).map fun x =>
        ((x.1.take (x.1.length - 2)).take (outCap - 1), x.2) := by
    rw [lineReaderNext, Option.map_map, Option.map_map]
    rfl
  rw [hline, hnext, firstFrame, nextLine]
  cases hfind : crlfAt ((r.unread s).take lineReaderSize) with
  | none =>
    have : crlfFraming.find ((r.unread s).take lineReaderSize) = none := by
      show (crlfAt _).map (· + 2) = none
      rw [hfind]
      rfl
    rw [this]
    rfl
  | some i =>
    have : crlfFraming.find ((r.unread s).take lineReaderSize) = some (i + 2) := by
      show (crlfAt _).map (· + 2) = some (i + 2)
      rw [hfind]
      rfl
    have hle := (crlfAt_spec hfind).2
    rw [List.length_take] at hle
    have hlen : ((r.unread s).take (i + 2)).length = i + 2 := by
      rw [List.length_take]
      omega
    rw [this]
    simp only [Option.map_some, hlen, Nat.add_sub_cancel, List.take_take]
    rw [show min (min (outCap - 1) i) (i + 2) = min (outCap - 1) i by omega]

/-- A call takes the reply at the head of what is unread. -/
theorem readFullReply_eq (room : ℕ) (r : LineReader) (s : Source UInt8) :
    (readFullReply room r s).map (fun x => (x.1, x.2.1.unread x.2.2)) = replyOf lineText room (r.unread s) := by
  induction room generalizing r s with
  | zero => rfl
  | succ room ih =>
    have hnext := lineReaderNext_eq r s torControlLineCap
    rw [readFullReply, replyOf]
    cases hread : lineReaderNext r s torControlLineCap with
    | none =>
      rw [hread, Option.map_none, eq_comm, Option.map_eq_none_iff] at hnext
      rw [hnext]
      rfl
    | some x =>
      rw [hread, Option.map_some, eq_comm, Option.map_eq_some_iff] at hnext
      obtain ⟨⟨raw, rest⟩, hline, heq⟩ := hnext
      obtain ⟨htext, hrest⟩ := Prod.mk.inj heq
      simp only at htext hrest
      rw [hline, Option.bind_some, Option.bind_some, ← htext, lineText]
      simp only
      cases parseReplyLine (raw.take (torControlLineCap - 1)) with
      | none => rfl
      | some l =>
        simp only [Option.bind_some]
        split_ifs
        · rfl
        · rw [Option.map_some, ← hrest]
        · rw [Option.map_map, hrest, ← ih, Option.map_map]
          rfl

/-- So do repeated calls with one reader. -/
theorem readReplies_eq (calls : List ℕ) (r : LineReader) (s : Source UInt8) :
    readReplies calls r s = streamReplies lineText calls (r.unread s) := by
  induction calls generalizing r s with
  | nil => rfl
  | cons maxLines calls ih =>
    have hreply := readFullReply_eq maxLines r s
    rw [readReplies, streamReplies, ← hreply]
    cases readFullReply maxLines r s with
    | none => rfl
    | some x => exact congrArg _ (ih x.2.1 x.2.2)

/-- A stream begins with the lines of a reply: none of them has a line end in it, only the last has a space for
its separator, and all say what the reply holds. -/
def ReplySplit (line : Bytes → Option ReplyLine) (maxLines : ℕ) (stream : Bytes) (lines : List ReplyLine)
    (rest : Bytes) : Prop :=
  ∃ raws : List Bytes, stream = (raws.map (· ++ crlf)).flatten ++ rest ∧ raws.map line = lines.map some ∧
    lines.length ≤ maxLines ∧ (∀ raw ∈ raws, crlfAt (raw ++ crlf) = some raw.length ∧ raw.length + 2 ≤ lineReaderSize) ∧
    ∃ front last, lines = front ++ [last] ∧ last.sep = 0x20 ∧ ∀ l ∈ front, l.sep ≠ 0x20 ∧ l.sep ≠ 0x2b

theorem replyOf_eq_some_iff {line : Bytes → Option ReplyLine} {maxLines : ℕ} {stream rest : Bytes}
    {lines : List ReplyLine} :
    replyOf line maxLines stream = some (lines, rest) ↔ ReplySplit line maxLines stream lines rest := by
  induction maxLines generalizing stream lines with
  | zero =>
    constructor
    · intro h
      cases h
    rintro ⟨raws, -, -, hlen, -, front, last, rfl, -⟩
    rw [List.length_append, List.length_singleton] at hlen
    omega
  | succ room ih =>
    rw [replyOf]
    constructor
    · intro h
      obtain ⟨⟨raw, tail⟩, hnext, hbind⟩ := Option.bind_eq_some_iff.mp h
      obtain ⟨l, hl, hend⟩ := Option.bind_eq_some_iff.mp hbind
      obtain ⟨rfl, hfirst, hfits⟩ := nextLine_eq_some_iff.mp hnext
      simp only at hend hl
      split_ifs at hend with hplus hspace
      · cases hend
        refine ⟨[raw], by simp, by simp [hl], by simp, ?_, [], l, rfl, hspace, by simp⟩
        rintro _ (_ | ⟨_, ⟨⟩⟩)
        exact ⟨hfirst, hfits⟩
      · obtain ⟨⟨ls, rest'⟩, hrest, heq⟩ := Option.map_eq_some_iff.mp hend
        cases heq
        obtain ⟨raws, hstream, hsay, hlen, hall, front, last, rfl, hlast, hfront⟩ := ih.mp hrest
        refine ⟨raw :: raws, ?_, ?_, Nat.succ_le_succ hlen, ?_, l :: front, last, rfl, hlast, ?_⟩
        · rw [List.map_cons, List.flatten_cons, hstream, List.append_assoc, List.append_assoc]
        · rw [List.map_cons, List.map_cons, hsay, hl]
        · rintro _ (_ | ⟨_, hmem⟩)
          · exact ⟨hfirst, hfits⟩
          · exact hall _ hmem
        · rintro _ (_ | ⟨_, hmem⟩)
          · exact ⟨hspace, hplus⟩
          · exact hfront _ hmem
    · rintro ⟨raws, rfl, hsay, hlen, hall, front, last, rfl, hlast, hfront⟩
      cases raws with
      | nil =>
        have := congrArg List.length hsay
        simp at this
      | cons raw raws =>
        obtain ⟨hfirst, hfits⟩ := hall raw List.mem_cons_self
        have hnext : nextLine (((raw :: raws).map (· ++ crlf)).flatten ++ rest) =
            some (raw, (raws.map (· ++ crlf)).flatten ++ rest) := by
          rw [nextLine_eq_some_iff, List.map_cons, List.flatten_cons, List.append_assoc, List.append_assoc]
          exact ⟨rfl, hfirst, hfits⟩
        rw [hnext, Option.bind_some]
        cases front with
        | nil =>
          rw [List.nil_append, List.map_cons, List.map_cons, List.cons.injEq] at hsay
          have hnil : raws = [] := List.map_eq_nil_iff.mp hsay.2
          simp only
          rw [hsay.1, Option.bind_some, if_neg (by rw [hlast]; decide), if_pos hlast, hnil]
          rfl
        | cons l front =>
          rw [List.cons_append, List.map_cons, List.map_cons, List.cons.injEq] at hsay
          obtain ⟨hspace, hplus⟩ := hfront l List.mem_cons_self
          have hrest : replyOf line room ((raws.map (· ++ crlf)).flatten ++ rest) = some (front ++ [last], rest) :=
            ih.mpr ⟨raws, rfl, hsay.2, by rw [List.cons_append, List.length_cons] at hlen; omega,
              fun r hr => hall r (List.mem_cons_of_mem raw hr), front, last, rfl, hlast,
              fun m hm => hfront m (List.mem_cons_of_mem l hm)⟩
          simp only
          rw [hsay.1, Option.bind_some, if_neg hplus, if_neg hspace, hrest]
          rfl

/-- The replies do not depend on the pieces in which the stream arrives: they are the lines up to each first
separator that is a space, taken off the stream one behind the other. The window of the reader stays in its
buffer, and a line is refused only when it does not fit there with its end. -/
theorem tor_control_replies (calls : List ℕ) (s : Source UInt8) :
    readReplies calls fresh s = streamReplies lineText calls (delivered s) ∧
    (∀ (r : LineReader) (t : Source UInt8) (outCap : ℕ) (x : Bytes × LineReader × Source UInt8),
      lineReaderNext r t outCap = some x →
        x.2.1.start ≤ x.2.1.buf.length ∧ x.2.1.buf.length ≤ lineReaderSize ∧
        ∃ raw, r.unread t = raw ++ (crlf ++ x.2.1.unread x.2.2) ∧ crlfAt (raw ++ crlf) = some raw.length ∧
          x.1 = raw.take (outCap - 1)) ∧
    (∀ (r : LineReader) (t : Source UInt8) (outCap : ℕ), lineReaderNext r t outCap = none →
      ∀ i, crlfAt (r.unread t) = some i → lineReaderSize < i + 2) ∧
    ∀ (maxLines : ℕ) (stream rest : Bytes) (lines : List ReplyLine),
      replyOf lineText maxLines stream = some (lines, rest) ↔ ReplySplit lineText maxLines stream lines rest := by
  refine ⟨readReplies_eq calls fresh s, ?_, ?_, fun _ _ _ _ => replyOf_eq_some_iff⟩
  · intro r t outCap x hx
    refine ⟨x.2.1.start_le, x.2.1.length_le, ?_⟩
    have hnext := lineReaderNext_eq r t outCap
    rw [hx, Option.map_some, eq_comm, Option.map_eq_some_iff] at hnext
    obtain ⟨⟨raw, rest⟩, hline, heq⟩ := hnext
    obtain ⟨htext, hrest⟩ := Prod.mk.inj heq
    obtain ⟨hstream, hfirst, -⟩ := nextLine_eq_some_iff.mp hline
    exact ⟨raw, hrest ▸ hstream, hfirst, htext.symm⟩
  · intro r t outCap hnone i hi
    have hnext := lineReaderNext_eq r t outCap
    rw [hnone, Option.map_none, eq_comm, Option.map_eq_none_iff, nextLine, Option.map_eq_none_iff] at hnext
    by_contra hfits
    have htake : crlfAt ((r.unread t).take lineReaderSize) = some i := by
      have hsplit : (r.unread t).take lineReaderSize =
          (r.unread t).take (i + 2) ++ ((r.unread t).drop (i + 2)).take (lineReaderSize - (i + 2)) := by
        rw [← List.take_add]
        congr 1
        omega
      rw [hsplit]
      exact crlfAt_append (crlfAt_take hi) _
    rw [htake] at hnext
    cases hnext

/-- What a line says when a NUL is a character like any other. -/
def claimedText (raw : Bytes) : Option ReplyLine := replyLineOf (raw.take (torControlLineCap - 1))

/-- The text of a line ends at a NUL. -/
theorem tor_control_text_cut : ¬ ∀ (calls : List ℕ) (s : Source UInt8),
    readReplies calls fresh s = streamReplies claimedText calls (delivered s) := by
  intro h
  have := h [1] [.data 0x32 [0x35, 0x30, 0x20, 0x61, 0x00, 0x62, 0x0d, 0x0a]]
  revert this
  decide +kernel

end Bitmessage
