import Bitmessage.Cli.KeysDat

/-! What the import of `keys.dat` sends: the address sections of the file that have both keys, each once and in
their order, in batches. A section is read here from the lines behind its header; the program builds it up line
by line. -/

namespace Bitmessage

/-! ### Sections -/

/-- A section with its pairs in their order. -/
structure KeysDatSection where
  name : Bytes
  pairs : List (Bytes × Bytes)
  deriving DecidableEq

/-- The pairs in front of the next header. -/
def bodyPairs : List KeysDatLine → List (Bytes × Bytes)
  | [] => []
  | .ignored :: lines => bodyPairs lines
  | .header _ :: _ => []
  | .pair key value :: lines => (key, value) :: bodyPairs lines

/-- The section that a header starts, if it is one of an address. -/
def headedSection (header : Option Bytes) (pairs : List (Bytes × Bytes)) : Option KeysDatSection :=
  header.bind fun name => if ascii "BM-" <+: name then some ⟨name, pairs⟩ else none

def addressSections : List KeysDatLine → List KeysDatSection
  | [] => []
  | .header header :: lines => (headedSection header (bodyPairs lines)).toList ++ addressSections lines
  | .ignored :: lines => addressSections lines
  | .pair _ _ :: lines => addressSections lines

/-- The address sections of a file. -/
def fileSections (file : Bytes) : List KeysDatSection := addressSections ((logicalLines file).map keysDatLine)

namespace KeysDatSection

/-- The last value of a key. -/
def last (sec : KeysDatSection) (key : KeysDatKey) : Option Bytes :=
  sec.pairs.reverse.findSome? fun p => if keysDatKey p.1 = some key then some p.2 else none

def hasKeys (sec : KeysDatSection) : Bool := (sec.last .privSigningKey).isSome && (sec.last .privEncryptionKey).isSome

def text (sec : KeysDatSection) (key : KeysDatKey) : Bytes := (sec.last key).getD []

def isChan (sec : KeysDatSection) : Bool := (sec.last .chan).elim false fun value => sameLetters value (ascii "true")

/-- The entry that is sent for a section. -/
def json (sec : KeysDatSection) : JsonValue :=
  .object ([jsonMember "address" (jsonText sec.name),
    jsonMember "signingWIF" (jsonText (sec.text .privSigningKey)),
    jsonMember "encryptionWIF" (jsonText (sec.text .privEncryptionKey)),
    jsonMember "label" (jsonText (sec.text .label)),
    jsonMember "nonceTrialsPerByte" (jsonInt (difficultyOr ((sec.last .nonceTrialsPerByte).elim 0 strtoll))),
    jsonMember "payloadLengthExtraBytes"
      (jsonInt (difficultyOr ((sec.last .payloadLengthExtraBytes).elim 0 strtoll)))] ++
    if sec.isChan then [jsonMember "isChan" (.bool true)] else [])

/-- The texts of a section fit into the fields of `struct keys_dat_entry`. -/
structure FieldsFit (sec : KeysDatSection) : Prop where
  name : sec.name.length ≤ 63
  label : (sec.text .label).length ≤ 255
  signing : (sec.text .privSigningKey).length ≤ 255
  encryption : (sec.text .privEncryptionKey).length ≤ 255

/-- The entry of the program for a section. -/
def entry (sec : KeysDatSection) : KeysDatEntry PlainText where
  address := sec.name.take 63
  label := (sec.text .label).take 255
  signingWif := (sec.text .privSigningKey).take 255
  encryptionWif := (sec.text .privEncryptionKey).take 255
  nonceTrialsPerByte := (sec.last .nonceTrialsPerByte).elim 0 strtoll
  payloadLengthExtraBytes := (sec.last .payloadLengthExtraBytes).elim 0 strtoll
  hasSigning := (sec.last .privSigningKey).isSome
  hasEncryption := (sec.last .privEncryptionKey).isSome
  isChan := sec.isChan

theorem json_entry {sec : KeysDatSection} (h : sec.FieldsFit) : sec.entry.json plainTexts = sec.json := by
  simp only [KeysDatEntry.json, entry, json, plainTexts, List.take_of_length_le h.name, List.take_of_length_le h.label,
    List.take_of_length_le h.signing, List.take_of_length_le h.encryption]

theorem last_concat (name : Bytes) (pairs : List (Bytes × Bytes)) (p : Bytes × Bytes) (key : KeysDatKey) :
    (mk name (pairs ++ [p])).last key = if keysDatKey p.1 = some key then some p.2 else (mk name pairs).last key := by
  rw [last, List.reverse_append, List.reverse_singleton, List.singleton_append, List.findSome?_cons]
  split_ifs <;> rfl

/-- One more pair of the section sets the entry as the program does. -/
theorem entry_concat (name : Bytes) (pairs : List (Bytes × Bytes)) (p : Bytes × Bytes) :
    (mk name (pairs ++ [p])).entry = (mk name pairs).entry.setPair plainTexts p := by
  rw [entry, KeysDatEntry.setPair]
  simp only [text, isChan, last_concat]
  cases hkey : keysDatKey p.1 with
  | none => rfl
  | some key => cases key <;> rfl

end KeysDatSection

/-! ### Sections while the lines are read -/

/-- The sections that have ended, and the one that has not. -/
structure SectionScan where
  ended : List KeysDatSection
  current : Option KeysDatSection

def SectionScan.line (s : SectionScan) : KeysDatLine → SectionScan
  | .ignored => s
  | .header header => ⟨s.ended ++ s.current.toList, headedSection header []⟩
  | .pair key value => { s with current := s.current.map fun sec => ⟨sec.name, sec.pairs ++ [(key, value)]⟩ }

def SectionScan.all (s : SectionScan) : List KeysDatSection := s.ended ++ s.current.toList

theorem headedSection_append (header : Option Bytes) (pairs more : List (Bytes × Bytes)) :
    headedSection header (pairs ++ more) =
      (headedSection header pairs).map fun sec => ⟨sec.name, sec.pairs ++ more⟩ := by
  cases header with
  | none => rfl
  | some name =>
    rw [headedSection, headedSection, Option.bind_some, Option.bind_some]
    split_ifs <;> rfl

/-- Scanning finds the sections of the lines. -/
theorem all_foldl (lines : List KeysDatLine) (s : SectionScan) :
    (lines.foldl SectionScan.line s).all =
      s.ended ++ (s.current.map fun sec => ⟨sec.name, sec.pairs ++ bodyPairs lines⟩).toList ++
        addressSections lines := by
  induction lines generalizing s with
  | nil =>
    show s.ended ++ s.current.toList = _
    cases s.current with
    | none => simp [addressSections]
    | some sec => simp [addressSections, bodyPairs]
  | cons line lines ih =>
    rw [List.foldl_cons, ih]
    cases line with
    | ignored => rfl
    | header header =>
      have hbody := headedSection_append header [] (bodyPairs lines)
      show s.ended ++ s.current.toList ++ ((headedSection header []).map _).toList ++ addressSections lines =
        s.ended ++ (s.current.map fun sec => ⟨sec.name, sec.pairs ++ []⟩).toList ++
          ((headedSection header (bodyPairs lines)).toList ++ addressSections lines)
      rw [← hbody, List.nil_append, List.append_assoc _ _ (addressSections lines)]
      congr 2
      cases s.current with
      | none => rfl
      | some sec =>
        rw [Option.map_some, List.append_nil]
    | pair key value =>
      have hcurrent : ((s.current.map fun sec => KeysDatSection.mk sec.name (sec.pairs ++ [(key, value)])).map
          fun sec => KeysDatSection.mk sec.name (sec.pairs ++ bodyPairs lines)) =
          s.current.map fun sec => KeysDatSection.mk sec.name (sec.pairs ++ (key, value) :: bodyPairs lines) := by
        cases s.current with
        | none => rfl
        | some sec =>
          rw [Option.map_some, Option.map_some, Option.map_some, List.append_assoc, List.singleton_append]
      show s.ended ++ ((s.current.map fun sec => KeysDatSection.mk sec.name (sec.pairs ++ [(key, value)])).map
          fun sec => KeysDatSection.mk sec.name (sec.pairs ++ bodyPairs lines)).toList ++ addressSections lines = _
      rw [hcurrent]
      rfl

/-! ### Batches -/

/-- A reply to a batch of so many entries that is no failure has one result for each. -/
def AnswersEach (reply : Option (ℤ × Bytes)) (entries : ℕ) : Prop :=
  ∀ items, (callRpcRaw reply).bind resultItems = some items → items.length = entries

theorem countResults_add {reply : Option (ℤ × Bytes)} {entries : ℕ} (h : AnswersEach reply entries) :
    (countResults entries reply).1 + (countResults entries reply).2 = entries := by
  rw [countResults]
  cases hitems : (callRpcRaw reply).bind resultItems with
  | none => exact Nat.zero_add entries
  | some items =>
    have hlength := List.length_eq_countP_add_countP isSuccess (l := items)
    simp only [Bool.not_eq_true] at hlength
    rw [← h items hitems, hlength]
    congr 1
    apply List.countP_congr
    intro item _
    cases isSuccess item <;> simp

section

variable (server : List Bytes → Option (ℤ × Bytes)) (storePassphrase : CString)

/-- The requests of an import were these batches. -/
structure SentBatches (batches : List (List JsonValue)) (s : KeysDatImport PlainText) : Prop where
  sent : s.sent = batches.map (importRequest storePassphrase)
  size : ∀ b ∈ batches, 0 < b.length ∧ b.length ≤ keysDatBatchSize
  counts : (∀ i b, batches[i]? = some b → AnswersEach (server (s.sent.take (i + 1))) b.length) →
    s.imported + s.failed = batches.flatten.length

/-- The sections that have ended are in the batches or wait for the next, where there is room for so many. -/
structure HoldsSections (room : ℕ) (ended : List KeysDatSection) (s : KeysDatImport PlainText) : Prop where
  entries : ∃ batches, SentBatches server storePassphrase batches s ∧
    batches.flatten ++ s.batch.map (KeysDatEntry.json plainTexts) =
      (ended.filter KeysDatSection.hasKeys).map fun sec => sec.entry.json plainTexts
  waiting : s.batch.length ≤ room
  skipped : s.skippedNoKeys + (ended.filter KeysDatSection.hasKeys).length = ended.length

/-- The entry under construction is that of the section. -/
def Constructs (current : Option KeysDatSection) (s : KeysDatImport PlainText) : Prop :=
  match current with
  | none => s.inAddressSection = false
  | some sec => s.inAddressSection = true ∧ s.cur = sec.entry

end

variable {server : List Bytes → Option (ℤ × Bytes)} {storePassphrase : CString}

/-- A flush makes the waiting entries one more batch. -/
theorem SentBatches.flush {batches : List (List JsonValue)} {s : KeysDatImport PlainText}
    (h : SentBatches server storePassphrase batches s) (hsize : s.batch.length ≤ keysDatBatchSize) :
    ∃ batches', SentBatches server storePassphrase batches' (s.flush plainTexts server storePassphrase) ∧
      batches'.flatten = batches.flatten ++ s.batch.map (KeysDatEntry.json plainTexts) ∧
      (s.flush plainTexts server storePassphrase).batch = [] := by
  rw [KeysDatImport.flush]
  split_ifs with hempty
  · exact ⟨batches, h, by rw [hempty, List.map_nil, List.append_nil], hempty⟩
  · have hpos : 0 < s.batch.length := List.length_pos_iff.mpr hempty
    refine ⟨batches ++ [s.batch.map (KeysDatEntry.json plainTexts)], ?_,
      by rw [List.flatten_append, List.flatten_singleton], rfl⟩
    refine ⟨?_, ?_, ?_⟩
    · rw [List.map_append, h.sent]
      rfl
    · intro b hb
      rcases List.mem_append.mp hb with hb | hb
      · exact h.size b hb
      · rw [List.mem_singleton.mp hb, List.length_map]
        exact ⟨hpos, hsize⟩
    · intro hanswers
      have hlen : s.sent.length = batches.length := by rw [h.sent, List.length_map]
      have hbefore : s.imported + s.failed = batches.flatten.length := by
        apply h.counts
        intro i b hb
        have hi := (List.getElem?_eq_some_iff.mp hb).1
        have := hanswers i b (by rw [List.getElem?_append_left hi, hb])
        rwa [List.take_append_of_le_length (by omega)] at this
      have hnow := hanswers batches.length (s.batch.map (KeysDatEntry.json plainTexts)) (by simp)
      rw [List.length_map, List.take_of_length_le (by rw [List.length_append, List.length_singleton]; omega)] at hnow
      have hcounts : (countResults s.batch.length (server (s.sent ++
          [importRequest storePassphrase (s.batch.map (KeysDatEntry.json plainTexts))]))).1 +
          (countResults s.batch.length (server (s.sent ++
            [importRequest storePassphrase (s.batch.map (KeysDatEntry.json plainTexts))]))).2 = s.batch.length :=
        countResults_add hnow
      rw [List.flatten_append, List.flatten_singleton, List.length_append, List.length_map, ← hbefore]
      show s.imported + _ + (s.failed + _) = _
      omega

theorem HoldsSections.skip {room : ℕ} {ended : List KeysDatSection} {s : KeysDatImport PlainText}
    (h : HoldsSections server storePassphrase room ended s) {sec : KeysDatSection} (hkeys : sec.hasKeys = false) :
    HoldsSections server storePassphrase room (ended ++ [sec]) { s with skippedNoKeys := s.skippedNoKeys + 1 } := by
  obtain ⟨batches, hsent, hflatten⟩ := h.entries
  have hfilter : (ended ++ [sec]).filter KeysDatSection.hasKeys = ended.filter KeysDatSection.hasKeys := by
    rw [List.filter_append, List.filter_singleton, hkeys]
    exact List.append_nil _
  have hskipped := h.skipped
  refine ⟨⟨batches, ⟨hsent.sent, hsent.size, hsent.counts⟩, by rw [hfilter]; exact hflatten⟩, h.waiting, ?_⟩
  rw [hfilter, List.length_append, List.length_singleton]
  show s.skippedNoKeys + 1 + _ = _
  omega

theorem HoldsSections.push {room : ℕ} {ended : List KeysDatSection} {s : KeysDatImport PlainText}
    (h : HoldsSections server storePassphrase room ended s) {sec : KeysDatSection} (hkeys : sec.hasKeys = true) :
    HoldsSections server storePassphrase (room + 1) (ended ++ [sec]) { s with batch := s.batch ++ [sec.entry] } := by
  obtain ⟨batches, hsent, hflatten⟩ := h.entries
  have hfilter : (ended ++ [sec]).filter KeysDatSection.hasKeys = ended.filter KeysDatSection.hasKeys ++ [sec] := by
    rw [List.filter_append, List.filter_singleton, hkeys]
    rfl
  refine ⟨⟨batches, ⟨hsent.sent, hsent.size, hsent.counts⟩, ?_⟩, ?_, ?_⟩
  · rw [List.map_append, ← List.append_assoc, hflatten, hfilter, List.map_append]
    rfl
  · have hwaiting := h.waiting
    rw [List.length_append, List.length_singleton]
    omega
  · have hskipped := h.skipped
    rw [hfilter, List.length_append, List.length_append, List.length_singleton]
    show s.skippedNoKeys + _ = _
    omega

/-- The section under construction ends, in the batch or among those that are skipped. -/
theorem HoldsSections.closeSection {room : ℕ} {ended : List KeysDatSection} {current : Option KeysDatSection}
    {s : KeysDatImport PlainText} (h : HoldsSections server storePassphrase room ended s)
    (hcur : Constructs current s) :
    HoldsSections server storePassphrase (room + 1) (ended ++ current.toList) s.closeSection := by
  rw [KeysDatImport.closeSection]
  cases current with
  | none =>
    have hout : s.inAddressSection = false := hcur
    rw [hout, if_neg (by decide), Option.toList_none, List.append_nil]
    exact ⟨h.entries, Nat.le_succ_of_le h.waiting, h.skipped⟩
  | some sec =>
    obtain ⟨hin, hentry⟩ := hcur
    have hboth : (s.cur.hasSigning && s.cur.hasEncryption) = sec.hasKeys := by
      rw [hentry]
      rfl
    rw [if_pos hin, hboth, Option.toList_some]
    cases hkeys : sec.hasKeys with
    | false =>
      have hskip := h.skip hkeys
      rw [if_neg (by decide)]
      exact ⟨hskip.entries, Nat.le_succ_of_le hskip.waiting, hskip.skipped⟩
    | true =>
      have hpush := h.push hkeys
      rw [← hentry] at hpush
      rw [if_pos rfl]
      exact hpush

theorem HoldsSections.flush {ended : List KeysDatSection} {s : KeysDatImport PlainText}
    (h : HoldsSections server storePassphrase keysDatBatchSize ended s) :
    HoldsSections server storePassphrase 0 ended (s.flush plainTexts server storePassphrase) := by
  obtain ⟨batches, hsent, hflatten⟩ := h.entries
  obtain ⟨batches', hsent', hflatten', hempty⟩ := hsent.flush h.waiting
  refine ⟨⟨batches', hsent', ?_⟩, by rw [hempty]; exact le_rfl, ?_⟩
  · rw [hempty, List.map_nil, List.append_nil, hflatten', hflatten]
  · rw [KeysDatImport.flush]
    split_ifs
    · exact h.skipped
    · exact h.skipped

/-- At a header the section ends and a batch that is full with it is sent. -/
theorem endSection_eq (server : List Bytes → Option (ℤ × Bytes)) (storePassphrase : CString)
    (s : KeysDatImport PlainText) :
    s.endSection plainTexts server storePassphrase = s.closeSection ∧ s.closeSection.batch.length < keysDatBatchSize ∨
      s.endSection plainTexts server storePassphrase = s.closeSection ∧ s.closeSection.batch = s.batch ∨
      s.endSection plainTexts server storePassphrase = s.closeSection.flush plainTexts server storePassphrase := by
  rw [KeysDatImport.endSection, KeysDatImport.closeSection]
  split_ifs with hin hkeys hfull
  · exact .inr (.inr rfl)
  · refine .inl ⟨rfl, ?_⟩
    rw [List.length_append, List.length_singleton]
    omega
  · exact .inr (.inl ⟨rfl, rfl⟩)
  · exact .inr (.inl ⟨rfl, rfl⟩)

theorem HoldsSections.endSection {ended : List KeysDatSection} {current : Option KeysDatSection}
    {s : KeysDatImport PlainText} (h : HoldsSections server storePassphrase (keysDatBatchSize - 1) ended s)
    (hcur : Constructs current s) :
    HoldsSections server storePassphrase (keysDatBatchSize - 1) (ended ++ current.toList)
      (s.endSection plainTexts server storePassphrase) := by
  have hclose := h.closeSection hcur
  rcases endSection_eq server storePassphrase s with ⟨heq, hroom⟩ | ⟨heq, hsame⟩ | heq
  · rw [heq]
    exact ⟨hclose.entries, Nat.le_sub_one_of_lt hroom, hclose.skipped⟩
  · rw [heq]
    exact ⟨hclose.entries, by rw [hsame]; exact h.waiting, hclose.skipped⟩
  · rw [heq]
    have hflush := hclose.flush
    exact ⟨hflush.entries, hflush.waiting.trans (Nat.zero_le _), hflush.skipped⟩

theorem constructs_openSection (s : KeysDatImport PlainText) (header : Option Bytes) :
    Constructs (headedSection header []) (s.openSection plainTexts header) := by
  cases header with
  | none => rfl
  | some name =>
    rw [headedSection, Option.bind_some, KeysDatImport.openSection]
    split_ifs with hname
    · exact ⟨rfl, rfl⟩
    · rfl

/-- What is sent and counted does not depend on the entry under construction. -/
theorem HoldsSections.congr {room : ℕ} {ended : List KeysDatSection} {s s' : KeysDatImport PlainText}
    (h : HoldsSections server storePassphrase room ended s) (hbatch : s'.batch = s.batch) (hsent : s'.sent = s.sent)
    (himported : s'.imported = s.imported) (hfailed : s'.failed = s.failed)
    (hskipped : s'.skippedNoKeys = s.skippedNoKeys) : HoldsSections server storePassphrase room ended s' := by
  obtain ⟨batches, hbatches, hflatten⟩ := h.entries
  refine ⟨⟨batches, ⟨by rw [hsent]; exact hbatches.sent, hbatches.size, ?_⟩, by rw [hbatch]; exact hflatten⟩,
    by rw [hbatch]; exact h.waiting, by rw [hskipped]; exact h.skipped⟩
  rw [hsent, himported, hfailed]
  exact hbatches.counts

theorem HoldsSections.openSection {room : ℕ} {ended : List KeysDatSection} {s : KeysDatImport PlainText}
    (h : HoldsSections server storePassphrase room ended s) (header : Option Bytes) :
    HoldsSections server storePassphrase room ended (s.openSection plainTexts header) := by
  cases header with
  | none => exact h.congr rfl rfl rfl rfl rfl
  | some name =>
    rw [KeysDatImport.openSection]
    split_ifs
    · exact h.congr rfl rfl rfl rfl rfl
    · exact h.congr rfl rfl rfl rfl rfl

/-- One line. -/
theorem holds_line {scan : SectionScan} {s : KeysDatImport PlainText}
    (h : HoldsSections server storePassphrase (keysDatBatchSize - 1) scan.ended s) (hcur : Constructs scan.current s)
    (text : Bytes) :
    HoldsSections server storePassphrase (keysDatBatchSize - 1) (scan.line (keysDatLine text)).ended
        (s.line plainTexts server storePassphrase text) ∧
      Constructs (scan.line (keysDatLine text)).current (s.line plainTexts server storePassphrase text) := by
  rw [KeysDatImport.line]
  cases keysDatLine text with
  | ignored => exact ⟨h, hcur⟩
  | header header =>
    exact ⟨(h.endSection hcur).openSection header, constructs_openSection _ header⟩
  | pair key value =>
    cases hscan : scan.current with
    | none =>
      have hout : s.inAddressSection = false := by rwa [hscan] at hcur
      show HoldsSections _ _ _ scan.ended (if s.inAddressSection = true then _ else s) ∧
        Constructs (scan.current.map _) (if s.inAddressSection = true then _ else s)
      rw [hout, if_neg (by decide), hscan]
      exact ⟨h, hout⟩
    | some sec =>
      obtain ⟨hin, hentry⟩ : s.inAddressSection = true ∧ s.cur = sec.entry := by rwa [hscan] at hcur
      show HoldsSections _ _ _ scan.ended (if s.inAddressSection = true then _ else s) ∧
        Constructs (scan.current.map _) (if s.inAddressSection = true then _ else s)
      rw [if_pos hin, hscan]
      refine ⟨h.congr rfl rfl rfl rfl rfl, hin, ?_⟩
      show s.cur.setPair plainTexts (key, value) = _
      rw [hentry, KeysDatSection.entry_concat]

theorem holds_lines (lines : List Bytes) {scan : SectionScan} {s : KeysDatImport PlainText}
    (h : HoldsSections server storePassphrase (keysDatBatchSize - 1) scan.ended s) (hcur : Constructs scan.current s) :
    HoldsSections server storePassphrase (keysDatBatchSize - 1)
        ((lines.map keysDatLine).foldl SectionScan.line scan).ended
        (lines.foldl (KeysDatImport.line plainTexts server storePassphrase) s) ∧
      Constructs ((lines.map keysDatLine).foldl SectionScan.line scan).current
        (lines.foldl (KeysDatImport.line plainTexts server storePassphrase) s) := by
  induction lines generalizing scan s with
  | nil => exact ⟨h, hcur⟩
  | cons text lines ih =>
    have hline := holds_line h hcur text
    exact ih hline.1 hline.2

/-- At the end of the file all sections of the lines have been sent or skipped. -/
theorem holds_importLines (lines : List Bytes) :
    HoldsSections server storePassphrase 0 (addressSections (lines.map keysDatLine))
      (importLines plainTexts server storePassphrase lines) := by
  have hstart : HoldsSections server storePassphrase (keysDatBatchSize - 1) [] (.start plainTexts) :=
    ⟨⟨[], ⟨rfl, nofun, fun _ => rfl⟩, rfl⟩, Nat.zero_le _, rfl⟩
  have hcur : Constructs (⟨[], none⟩ : SectionScan).current (.start plainTexts) := rfl
  have hlines := holds_lines lines hstart hcur
  have hall := all_foldl (lines.map keysDatLine) ⟨[], none⟩
  have hflush := (hlines.1.closeSection hlines.2).flush
  rw [← SectionScan.all, hall] at hflush
  exact hflush

/-! ### The arrays of the program -/

def KeysDatEntry.texts (e : KeysDatEntry CharArray) : KeysDatEntry PlainText where
  address := e.address.text
  label := e.label.text
  signingWif := e.signingWif.text
  encryptionWif := e.encryptionWif.text
  nonceTrialsPerByte := e.nonceTrialsPerByte
  payloadLengthExtraBytes := e.payloadLengthExtraBytes
  hasSigning := e.hasSigning
  hasEncryption := e.hasEncryption
  isChan := e.isChan

def KeysDatImport.texts (s : KeysDatImport CharArray) : KeysDatImport PlainText where
  cur := s.cur.texts
  inAddressSection := s.inAddressSection
  batch := s.batch.map KeysDatEntry.texts
  sent := s.sent
  imported := s.imported
  failed := s.failed
  skippedNoKeys := s.skippedNoKeys

theorem zero_not_mem_trimInplace {text : Bytes} (h : 0 ∉ text) : 0 ∉ trimInplace text := by
  intro hmem
  exact h ((List.dropWhile_suffix _).subset ((List.rdropWhile_prefix _ _).subset hmem))

theorem zero_not_mem_keysDatLine (line : Bytes) : 0 ∉ trimInplace ((cString line).takeWhile (· ≠ 0x0a)) := by
  apply zero_not_mem_trimInplace
  intro hmem
  exact zero_not_mem_cString line ((List.takeWhile_prefix _).subset hmem)

theorem keysDatLine_header {line name : Bytes} (h : keysDatLine line = .header (some name)) : 0 ∉ name := by
  have hzero := zero_not_mem_keysDatLine line
  rw [keysDatLine] at h
  split_ifs at h with _ _ hbracket
  · injection h with h
    injection h with h
    rw [← h]
    intro hmem
    exact hzero ((List.takeWhile_prefix _).subset (List.mem_of_mem_tail hmem))
  · cases h

theorem keysDatLine_pair {line key value : Bytes} (h : keysDatLine line = .pair key value) : 0 ∉ value := by
  have hzero := zero_not_mem_keysDatLine line
  rw [keysDatLine] at h
  split_ifs at h
  injection h with _ h
  rw [← h]
  apply zero_not_mem_trimInplace
  intro hmem
  exact hzero ((List.dropWhile_suffix _).subset (List.mem_of_mem_tail hmem))

theorem texts_blankEntry : (blankEntry charArrays).texts = blankEntry plainTexts := by
  have hblank (room : ℕ) : (charArrays.blank room).text = [] := CharArray.text_zeros room
  simp only [blankEntry, KeysDatEntry.texts, hblank]
  rfl

theorem texts_openEntry {name : Bytes} (hname : 0 ∉ name) :
    (openEntry charArrays name).texts = openEntry plainTexts name := by
  have hblank (room : ℕ) : (charArrays.blank room).text = [] := CharArray.text_zeros room
  have hput : (charArrays.put (charArrays.blank 63) name).text = name.take 63 := CharArray.text_strncpy _ hname
  simp only [openEntry, blankEntry, KeysDatEntry.texts, hblank, hput]
  rfl

theorem texts_setPair (cur : KeysDatEntry CharArray) (key : Bytes) {value : Bytes} (hvalue : 0 ∉ value) :
    (cur.setPair charArrays (key, value)).texts = cur.texts.setPair plainTexts (key, value) := by
  have hput (array : CharArray 255) : (charArrays.put array value).text = value.take 255 := array.text_strncpy hvalue
  rw [KeysDatEntry.setPair, KeysDatEntry.setPair]
  cases keysDatKey key with
  | none => rfl
  | some k =>
    cases k with
    | label | privSigningKey | privEncryptionKey =>
      simp only [Option.elim_some, KeysDatEntry.set, KeysDatEntry.texts, hput]
      rfl
    | _ => rfl

theorem texts_flush (s : KeysDatImport CharArray) :
    (s.flush charArrays server storePassphrase).texts = s.texts.flush plainTexts server storePassphrase := by
  have hjson : s.texts.batch.map (KeysDatEntry.json plainTexts) = s.batch.map (KeysDatEntry.json charArrays) := by
    rw [KeysDatImport.texts, List.map_map]
    rfl
  have hlength : s.texts.batch.length = s.batch.length := List.length_map _
  have hempty : s.texts.batch = [] ↔ s.batch = [] := List.map_eq_nil_iff
  rw [KeysDatImport.flush, KeysDatImport.flush, hjson, hlength]
  by_cases h : s.batch = []
  · rw [if_pos h, if_pos (hempty.mpr h)]
  · rw [if_neg h, if_neg fun h' => h (hempty.mp h')]
    rfl

theorem texts_closeSection (s : KeysDatImport CharArray) : s.closeSection.texts = s.texts.closeSection := by
  have hin : s.texts.inAddressSection = s.inAddressSection := rfl
  have hsigning : s.texts.cur.hasSigning = s.cur.hasSigning := rfl
  have hencryption : s.texts.cur.hasEncryption = s.cur.hasEncryption := rfl
  rw [KeysDatImport.closeSection, KeysDatImport.closeSection, hin, hsigning, hencryption]
  split_ifs
  · simp only [KeysDatImport.texts, List.map_append, List.map_singleton]
  · rfl
  · rfl

theorem texts_endSection (s : KeysDatImport CharArray) :
    (s.endSection charArrays server storePassphrase).texts = s.texts.endSection plainTexts server storePassphrase := by
  have hlength : s.texts.batch.length = s.batch.length := List.length_map _
  have hpush : KeysDatImport.texts { s with batch := s.batch ++ [s.cur] } =
      { s.texts with batch := s.texts.batch ++ [s.texts.cur] } := by
    simp only [KeysDatImport.texts, List.map_append, List.map_singleton]
  have hin : s.texts.inAddressSection = s.inAddressSection := rfl
  have hsigning : s.texts.cur.hasSigning = s.cur.hasSigning := rfl
  have hencryption : s.texts.cur.hasEncryption = s.cur.hasEncryption := rfl
  rw [KeysDatImport.endSection, KeysDatImport.endSection, hlength, hin, hsigning, hencryption]
  split_ifs
  · rw [texts_flush, hpush]
    rfl
  · exact hpush
  · rfl
  · rfl

theorem texts_line (s : KeysDatImport CharArray) (text : Bytes) :
    (s.line charArrays server storePassphrase text).texts = s.texts.line plainTexts server storePassphrase text := by
  rw [KeysDatImport.line, KeysDatImport.line]
  cases hline : keysDatLine text with
  | ignored => rfl
  | header header =>
    show ((s.endSection charArrays server storePassphrase).openSection charArrays header).texts =
      (s.texts.endSection plainTexts server storePassphrase).openSection plainTexts header
    rw [← texts_endSection]
    cases header with
    | none =>
      simp only [KeysDatImport.openSection, KeysDatImport.texts, texts_blankEntry]
    | some name =>
      rw [KeysDatImport.openSection, KeysDatImport.openSection]
      split_ifs
      · simp only [KeysDatImport.texts, texts_openEntry (keysDatLine_header hline)]
      · simp only [KeysDatImport.texts, texts_blankEntry]
  | pair key value =>
    have hin : s.texts.inAddressSection = s.inAddressSection := rfl
    simp only [hin]
    split_ifs
    · simp only [KeysDatImport.texts, texts_setPair s.cur key (keysDatLine_pair hline)]
    · rfl

theorem texts_importLines (lines : List Bytes) :
    (importLines charArrays server storePassphrase lines).texts =
      importLines plainTexts server storePassphrase lines := by
  have hstart : (KeysDatImport.start charArrays).texts = .start plainTexts := by
    simp only [KeysDatImport.start, KeysDatImport.texts, texts_blankEntry, List.map_nil]
  have hfold : ∀ (lines : List Bytes) (s : KeysDatImport CharArray),
      (lines.foldl (KeysDatImport.line charArrays server storePassphrase) s).texts =
        lines.foldl (KeysDatImport.line plainTexts server storePassphrase) s.texts := by
    intro lines
    induction lines with
    | nil => exact fun _ => rfl
    | cons text lines ih =>
      intro s
      rw [List.foldl_cons, List.foldl_cons, ih, texts_line]
  rw [importLines, importLines, texts_flush, texts_closeSection, hfold, hstart]

/-! ### The file -/

theorem keysDatLine_append (line : Bytes) : keysDatLine (line ++ [0x0a]) = keysDatLine line := by
  have hcut (text : Bytes) : (text ++ [0x0a]).takeWhile (fun c : UInt8 => decide (c ≠ 0x0a)) =
      text.takeWhile fun c => decide (c ≠ 0x0a) := by
    rw [List.takeWhile_append]
    split_ifs with hwhole
    · rw [List.takeWhile_cons_of_neg (by decide), List.append_nil]
      exact ((List.takeWhile_prefix _).eq_of_length hwhole).symm
    · rfl
  have hline : (cString (line ++ [0x0a])).takeWhile (fun c : UInt8 => decide (c ≠ 0x0a)) =
      (cString line).takeWhile fun c => decide (c ≠ 0x0a) := by
    rcases cString_append_singleton line (c := 0x0a) (by decide) with h | h
    · rw [h]
    · rw [h, hcut]
  rw [keysDatLine, hline, keysDatLine]

theorem line_ignoresLineFeed : IgnoresLineFeed (KeysDatImport.line plainTexts server storePassphrase) where
  append := by
    intro s piece
    rw [KeysDatImport.line, keysDatLine_append, KeysDatImport.line]
  nil := fun _ => rfl

/-- A file whose lines fit into the buffer is imported line by line. -/
theorem texts_importKeysDat {file : Bytes} (hlines : ∀ line ∈ logicalLines file, line.length < keysDatLineMax) :
    (importKeysDat server storePassphrase (some file)).1.texts =
      importLines plainTexts server storePassphrase (logicalLines file) := by
  have hfits : ∀ line ∈ logicalLines file, 0x0a ∉ line ∧ line.length ≤ keysDatLineMax - 1 :=
    fun line hline => ⟨not_mem_of_mem_logicalLines hline, Nat.le_sub_one_of_lt (hlines line hline)⟩
  show (importLines charArrays server storePassphrase (fgetsAll (keysDatLineMax - 1) file)).texts = _
  rw [texts_importLines, importLines, foldl_fgetsAll_file line_ignoresLineFeed (by decide),
    foldl_applyPieces line_ignoresLineFeed (by decide) hfits, importLines]

/-- The import sends each address section that has both keys, once and in the order of the file, and counts all. -/
theorem keys_dat_import_faithful (server : List Bytes → Option (ℤ × Bytes)) (storePassphrase : CString) (file : Bytes)
    (hlines : ∀ line ∈ logicalLines file, line.length < keysDatLineMax)
    (hfields : ∀ sec ∈ fileSections file, sec.FieldsFit) :
    ∃ batches : List (List JsonValue),
      (importKeysDat server storePassphrase (some file)).1.sent = batches.map (importRequest storePassphrase) ∧
      batches.flatten = ((fileSections file).filter KeysDatSection.hasKeys).map KeysDatSection.json ∧
      (∀ b ∈ batches, 0 < b.length ∧ b.length ≤ keysDatBatchSize) ∧
      ((∀ i b, batches[i]? = some b →
          AnswersEach (server ((importKeysDat server storePassphrase (some file)).1.sent.take (i + 1))) b.length) →
        (importKeysDat server storePassphrase (some file)).1.imported +
          (importKeysDat server storePassphrase (some file)).1.failed +
          (importKeysDat server storePassphrase (some file)).1.skippedNoKeys = (fileSections file).length) := by
  have hholds := @holds_importLines server storePassphrase (logicalLines file)
  rw [← texts_importKeysDat hlines, ← fileSections] at hholds
  obtain ⟨batches, hsent, hflatten⟩ := hholds.entries
  have hbatch : (importKeysDat server storePassphrase (some file)).1.texts.batch = [] :=
    List.length_eq_zero_iff.mp (Nat.le_zero.mp hholds.waiting)
  rw [hbatch, List.map_nil, List.append_nil] at hflatten
  have hjson : ((fileSections file).filter KeysDatSection.hasKeys).map (fun sec => sec.entry.json plainTexts) =
      ((fileSections file).filter KeysDatSection.hasKeys).map KeysDatSection.json := by
    apply List.map_congr_left
    intro sec hsec
    exact KeysDatSection.json_entry (hfields sec (List.mem_of_mem_filter hsec))
  refine ⟨batches, hsent.sent, hflatten.trans hjson, hsent.size, ?_⟩
  intro hanswers
  have hcounts := hsent.counts hanswers
  have hskipped := hholds.skipped
  rw [hflatten, List.length_map] at hcounts
  show (importKeysDat server storePassphrase (some file)).1.texts.imported +
    (importKeysDat server storePassphrase (some file)).1.texts.failed +
    (importKeysDat server storePassphrase (some file)).1.texts.skippedNoKeys = _
  omega

/-- A section with both keys, one without, and one of no address between them. -/
def sampleKeysDat : Bytes :=
  ascii "[BM-a]\nlabel = x\nprivsigningkey=s\nprivencryptionkey=e\n[other]\nlabel=y\n[BM-b]\nlabel=z\n"

theorem sample_sections : fileSections sampleKeysDat =
    [⟨ascii "BM-a",
        [(ascii "label", ascii "x"), (ascii "privsigningkey", ascii "s"), (ascii "privencryptionkey", ascii "e")]⟩,
      ⟨ascii "BM-b", [(ascii "label", ascii "z")]⟩] := by decide +kernel

/-- A daemon that imports one address. -/
def sampleDaemon (_requests : List Bytes) : Option (ℤ × Bytes) :=
  some (200, ascii "\x7b\"result\":[\x7b\"success\":true\x7d]\x7d")

def samplePassphrase : CString := CString.of (ascii "secret")

/-- One section is sent, one is skipped. -/
theorem keys_dat_import_sample :
    ∃ batches : List (List JsonValue),
      (importKeysDat sampleDaemon samplePassphrase (some sampleKeysDat)).1.sent =
        batches.map (importRequest samplePassphrase) ∧ batches.flatten.length = 1 ∧
      (importKeysDat sampleDaemon samplePassphrase (some sampleKeysDat)).1.imported +
        (importKeysDat sampleDaemon samplePassphrase (some sampleKeysDat)).1.failed +
        (importKeysDat sampleDaemon samplePassphrase (some sampleKeysDat)).1.skippedNoKeys = 2 := by
  have hlines : ∀ line ∈ logicalLines sampleKeysDat, line.length < keysDatLineMax := by decide +kernel
  have hfields : ∀ sec ∈ fileSections sampleKeysDat, sec.FieldsFit := by
    intro sec hsec
    rw [sample_sections] at hsec
    simp only [List.mem_cons, List.not_mem_nil, or_false] at hsec
    rcases hsec with rfl | rfl
    · exact ⟨by decide +kernel, by decide +kernel, by decide +kernel, by decide +kernel⟩
    · exact ⟨by decide +kernel, by decide +kernel, by decide +kernel, by decide +kernel⟩
  obtain ⟨batches, hsent, hflatten, hsize, hcounts⟩ :=
    keys_dat_import_faithful sampleDaemon samplePassphrase sampleKeysDat hlines hfields
  have hsections : ((fileSections sampleKeysDat).filter KeysDatSection.hasKeys).length = 1 := by decide +kernel
  have hlength : batches.flatten.length = 1 := by
    rw [hflatten, List.length_map, hsections]
  have hreply : ∀ requests, ((callRpcRaw (sampleDaemon requests)).bind resultItems).map List.length = some 1 := by
    intro requests
    show ((callRpcRaw (sampleDaemon [])).bind resultItems).map List.length = some 1
    decide +kernel
  refine ⟨batches, hsent, hlength, ?_⟩
  rw [hcounts]
  · decide +kernel
  · intro i b hb items hitems
    have hmem := List.mem_of_getElem? hb
    have hle : b.length ≤ batches.flatten.length := (List.sublist_flatten_of_mem hmem).length_le
    have hone := hreply ((importKeysDat sampleDaemon samplePassphrase (some sampleKeysDat)).1.sent.take (i + 1))
    rw [hitems] at hone
    have hitem : items.length = 1 := Option.some.inj hone
    have := (hsize b hmem).1
    omega

end Bitmessage
