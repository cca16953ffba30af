import Bitmessage.Common.CText

/-! A text file that is read with `fgets` into a buffer of fixed size. A line that does not fit comes in
pieces, and a reader of lines takes each for a line of its own. -/

namespace Bitmessage

/-! ### Reading -/

/-- `fgets` with room for so many characters in front of the NUL: what it stores, and what is left. -/
def fgets : ℕ → Bytes → Bytes × Bytes
  | 0, file => ([], file)
  | _ + 1, [] => ([], [])
  | room + 1, c :: file => if c = 0x0a then ([c], file) else (c :: (fgets room file).1, (fgets room file).2)

/-- Everything that `fgets` stores until the end of the file. -/
def fgetsFrom (room : ℕ) : ℕ → Bytes → List Bytes
  | 0, _ => []
  | fuel + 1, file => if file = [] then [] else (fgets room file).1 :: fgetsFrom room fuel (fgets room file).2

def fgetsAll (room : ℕ) (file : Bytes) : List Bytes := fgetsFrom room file.length file

/-- The lines of a text: what stands between the line feeds. -/
def logicalLines (file : Bytes) : List Bytes := file.splitOn 0x0a

/-- Characters in front of the first line feed are stored as long as there is room. -/
theorem fgets_append {line : Bytes} (hline : 0x0a ∉ line) (room : ℕ) (rest : Bytes) :
    fgets (line.length + room) (line ++ rest) = (line ++ (fgets room rest).1, (fgets room rest).2) := by
  induction line with
  | nil => rw [List.length_nil, Nat.zero_add, List.nil_append, List.nil_append]
  | cons c line ih =>
    have hc : c ≠ 0x0a := fun h => hline (h ▸ List.mem_cons_self)
    rw [List.length_cons, Nat.add_right_comm, List.cons_append, fgets, if_neg hc,
      ih fun hm => hline (List.mem_cons_of_mem c hm)]
    rfl

/-- A line is read whole when it leaves room for its line feed. -/
theorem fgets_line {room : ℕ} {line : Bytes} (hline : 0x0a ∉ line) (h : line.length < room) (rest : Bytes) :
    fgets room (line ++ 0x0a :: rest) = (line ++ [0x0a], rest) := by
  obtain ⟨k, rfl⟩ := Nat.exists_eq_add_of_lt h
  rw [Nat.add_assoc, fgets_append hline]
  rfl

/-- Without a line feed in reach as much is read as there is room for. -/
theorem fgets_piece {room : ℕ} {line : Bytes} (hline : 0x0a ∉ line) (h : room ≤ line.length) (rest : Bytes) :
    fgets room (line ++ rest) = (line.take room, line.drop room ++ rest) := by
  have hlength : (line.take room).length + 0 = room := by rw [List.length_take, Nat.min_eq_left h, Nat.add_zero]
  have hfront : 0x0a ∉ line.take room := fun hm => hline (List.mem_of_mem_take hm)
  have hfull := fgets_append hfront 0 (line.drop room ++ rest)
  rw [hlength, ← List.append_assoc, List.take_append_drop, fgets, List.append_nil] at hfull
  exact hfull

/-- The last line of a file need not end. -/
theorem fgets_last {room : ℕ} {line : Bytes} (hline : 0x0a ∉ line) (h : line.length < room) :
    fgets room line = (line, []) := by
  obtain ⟨k, rfl⟩ := Nat.exists_eq_add_of_lt h
  have hlast := fgets_append hline (k + 1) []
  rw [List.append_nil] at hlast
  rw [Nat.add_assoc, hlast, fgets, List.append_nil]

theorem length_fgets (room : ℕ) (file : Bytes) :
    (fgets room file).1.length + (fgets room file).2.length = file.length ∧
      (0 < room → file ≠ [] → (fgets room file).2.length < file.length) := by
  induction room generalizing file with
  | zero => exact ⟨Nat.zero_add _, fun h => by cases h⟩
  | succ room ih =>
    cases file with
    | nil => exact ⟨rfl, fun _ h => absurd rfl h⟩
    | cons c file =>
      rw [fgets]
      split_ifs with hc
      · exact ⟨Nat.add_comm _ _, fun _ _ => Nat.lt_succ_self _⟩
      · have hlen := (ih file).1
        simp only [List.length_cons]
        omega

/-- What is stored comes from the front of the file. -/
theorem fgets_append_rest (room : ℕ) (file : Bytes) : (fgets room file).1 ++ (fgets room file).2 = file := by
  induction room generalizing file with
  | zero => rfl
  | succ room ih =>
    cases file with
    | nil => rfl
    | cons c file =>
      rw [fgets]
      split_ifs with hc
      · rfl
      · rw [List.cons_append, ih]

/-- The file is shorter after each call, so its length is fuel enough. -/
theorem fgetsFrom_eq {room fuel : ℕ} (hroom : 0 < room) {file : Bytes} (hfuel : file.length ≤ fuel) :
    fgetsFrom room fuel file = fgetsAll room file := by
  have henough : ∀ (fuel fuel' : ℕ) (file : Bytes), file.length ≤ fuel → file.length ≤ fuel' →
      fgetsFrom room fuel file = fgetsFrom room fuel' file := by
    intro fuel
    induction fuel with
    | zero =>
      intro fuel' file h _
      cases List.length_eq_zero_iff.mp (Nat.le_zero.mp h)
      cases fuel' <;> rfl
    | succ fuel ih =>
      intro fuel' file h h'
      cases fuel' with
      | zero =>
        cases List.length_eq_zero_iff.mp (Nat.le_zero.mp h')
        rfl
      | succ fuel' =>
        rw [fgetsFrom, fgetsFrom]
        split_ifs with hempty
        · rfl
        · have hless := (length_fgets room file).2 hroom hempty
          rw [ih fuel' _ (by omega) (by omega)]
  exact henough fuel _ file hfuel le_rfl

theorem fgetsAll_nil (room : ℕ) : fgetsAll room [] = [] := rfl

theorem fgetsAll_eq {room : ℕ} (hroom : 0 < room) {file : Bytes} (hne : file ≠ []) :
    fgetsAll room file = (fgets room file).1 :: fgetsAll room (fgets room file).2 := by
  have hless := (length_fgets room file).2 hroom hne
  obtain ⟨n, hn⟩ := Nat.exists_eq_succ_of_ne_zero (List.length_pos_iff.mpr hne).ne'
  rw [fgetsAll, hn, fgetsFrom, if_neg hne, fgetsFrom_eq hroom (by omega)]

theorem fgetsAll_line {room : ℕ} {line : Bytes} (hline : 0x0a ∉ line) (h : line.length < room) (rest : Bytes) :
    fgetsAll room (line ++ 0x0a :: rest) = (line ++ [0x0a]) :: fgetsAll room rest := by
  rw [fgetsAll_eq (by omega) (by simp), fgets_line hline h]

theorem fgetsAll_piece {room : ℕ} (hroom : 0 < room) {line : Bytes} (hline : 0x0a ∉ line) (h : room ≤ line.length)
    (rest : Bytes) : fgetsAll room (line ++ rest) = line.take room :: fgetsAll room (line.drop room ++ rest) := by
  have hne : line ++ rest ≠ [] := by
    intro hnil
    rw [(List.append_eq_nil_iff.mp hnil).1, List.length_nil] at h
    omega
  rw [fgetsAll_eq hroom hne, fgets_piece hline h]

/-- A line that fits is one piece. -/
theorem fgetsAll_last {room : ℕ} {line : Bytes} (hline : 0x0a ∉ line) (h : line.length < room) (hne : line ≠ []) :
    fgetsAll room line = [line] := by
  rw [fgetsAll_eq (by omega) hne, fgets_last hline h, fgetsAll_nil]

/-- The pieces have the characters of the file. -/
theorem subset_of_mem_fgetsAll {room : ℕ} {file piece : Bytes} (h : piece ∈ fgetsAll room file) : piece ⊆ file := by
  have hfrom : ∀ (fuel : ℕ) (file : Bytes), piece ∈ fgetsFrom room fuel file → piece ⊆ file := by
    intro fuel
    induction fuel with
    | zero => exact fun _ hmem => absurd hmem List.not_mem_nil
    | succ fuel ih =>
      intro file hmem
      have hfile := fgets_append_rest room file
      rw [fgetsFrom] at hmem
      split_ifs at hmem with hempty
      · exact absurd hmem List.not_mem_nil
      · rcases List.mem_cons.mp hmem with rfl | hrest
        · exact fun b hb => hfile ▸ List.mem_append_left _ hb
        · exact fun b hb => hfile ▸ List.mem_append_right _ (ih _ hrest hb)
  exact hfrom _ file h

/-! ### Lines -/

theorem not_mem_of_mem_logicalLines {file line : Bytes} (h : line ∈ logicalLines file) : 0x0a ∉ line := by
  induction file generalizing line with
  | nil =>
    rw [logicalLines, List.splitOn_nil, List.mem_singleton] at h
    rw [h]
    exact List.not_mem_nil
  | cons c file ih =>
    rw [logicalLines, List.splitOn_cons_eq_if_modifyHead] at h
    obtain ⟨first, rest, hsplit⟩ := List.exists_cons_of_ne_nil (List.splitOn_ne_nil (0x0a : UInt8) file)
    have hfirst := @ih first (by rw [logicalLines, hsplit]; exact List.mem_cons_self)
    split_ifs at h with hc
    · rcases List.mem_cons.mp h with rfl | hmem
      · exact List.not_mem_nil
      · exact ih hmem
    · rw [hsplit, List.modifyHead_cons] at h
      rcases List.mem_cons.mp h with rfl | hmem
      · rw [List.mem_cons, not_or]
        exact ⟨fun heq => hc (by rw [← heq]; rfl), hfirst⟩
      · exact @ih line (by rw [logicalLines, hsplit]; exact List.mem_cons_of_mem first hmem)

section

variable {σ : Type*} {f : σ → Bytes → σ}

/-- What the pieces of a line do, one behind the other. -/
def applyPieces (room : ℕ) (f : σ → Bytes → σ) (s : σ) (line : Bytes) : σ := (fgetsAll room line).foldl f s

/-- A reader for which the line feed at the end of a piece does not count. -/
structure IgnoresLineFeed (f : σ → Bytes → σ) : Prop where
  append : ∀ s piece, f s (piece ++ [0x0a]) = f s piece
  nil : ∀ s, f s [] = s

theorem foldl_fgetsAll_line (hf : IgnoresLineFeed f) {room : ℕ} (hroom : 0 < room) {line : Bytes} (hline : 0x0a ∉ line)
    (rest : Bytes) (s : σ) : (fgetsAll room (line ++ 0x0a :: rest)).foldl f s =
      (fgetsAll room rest).foldl f (applyPieces room f s line) := by
  induction hn : line.length using Nat.strongRecOn generalizing line s with
  | _ n ih =>
    rcases Nat.lt_or_ge line.length room with hshort | hlong
    · rw [fgetsAll_line hline hshort, List.foldl_cons, hf.append, applyPieces]
      by_cases hne : line = []
      · rw [hne, hf.nil, fgetsAll_nil, List.foldl_nil]
      · rw [fgetsAll_last hline hshort hne]
        rfl
    · have hdrop : 0x0a ∉ line.drop room := fun hm => hline (List.mem_of_mem_drop hm)
      have hless : (line.drop room).length < n := by
        rw [List.length_drop]
        omega
      have hpieces := fgetsAll_piece hroom hline hlong []
      rw [List.append_nil, List.append_nil] at hpieces
      rw [fgetsAll_piece hroom hline hlong, List.foldl_cons, ih _ hless hdrop _ rfl, applyPieces, applyPieces, hpieces,
        List.foldl_cons]

/-- A file is read line by line, each in its pieces. -/
theorem foldl_fgetsAll (hf : IgnoresLineFeed f) {room : ℕ} (hroom : 0 < room) {lines : List Bytes}
    (hlines : ∀ line ∈ lines, 0x0a ∉ line) (s : σ) :
    (fgetsAll room ([0x0a].intercalate lines)).foldl f s = lines.foldl (applyPieces room f) s := by
  induction lines generalizing s with
  | nil => rfl
  | cons line lines ih =>
    have hline := hlines line List.mem_cons_self
    cases lines with
    | nil =>
      rw [List.intercalate_singleton]
      rfl
    | cons next lines =>
      rw [List.intercalate_cons_cons, List.append_assoc, List.singleton_append,
        foldl_fgetsAll_line hf hroom hline, ih fun l hl => hlines l (List.mem_cons_of_mem line hl)]
      rfl

theorem foldl_fgetsAll_file (hf : IgnoresLineFeed f) {room : ℕ} (hroom : 0 < room) (file : Bytes) (s : σ) :
    (fgetsAll room file).foldl f s = (logicalLines file).foldl (applyPieces room f) s := by
  have hfile : [0x0a].intercalate (logicalLines file) = file := List.intercalate_splitOn 0x0a
  have := @foldl_fgetsAll σ f hf room hroom (logicalLines file) (fun _ hline => not_mem_of_mem_logicalLines hline) s
  rwa [hfile] at this

/-- A line that fits into the buffer acts as a whole, with the line feed or without. -/
theorem applyPieces_of_length_le (hf : IgnoresLineFeed f) {room : ℕ} {line : Bytes} (hline : 0x0a ∉ line)
    (hroom : 0 < room) (h : line.length ≤ room) (s : σ) : applyPieces room f s line = f s line := by
  rw [applyPieces]
  by_cases hne : line = []
  · rw [hne, fgetsAll_nil, hf.nil]
    rfl
  · rcases Nat.lt_or_ge line.length room with hshort | hlong
    · rw [fgetsAll_last hline hshort hne]
      rfl
    · have hpieces := fgetsAll_piece hroom hline hlong []
      rw [List.append_nil, List.append_nil, List.take_of_length_le h, List.drop_of_length_le h] at hpieces
      rw [hpieces]
      rfl

theorem foldl_applyPieces (hf : IgnoresLineFeed f) {room : ℕ} (hroom : 0 < room) {lines : List Bytes}
    (hlines : ∀ line ∈ lines, 0x0a ∉ line ∧ line.length ≤ room) (s : σ) :
    lines.foldl (applyPieces room f) s = lines.foldl f s := by
  induction lines generalizing s with
  | nil => rfl
  | cons line lines ih =>
    have hline := hlines line List.mem_cons_self
    rw [List.foldl_cons, List.foldl_cons, applyPieces_of_length_le hf hline.1 hroom hline.2,
      ih fun l hl => hlines l (List.mem_cons_of_mem line hl)]

end

end Bitmessage
