import Bitmessage.Common.TextFile

/-! The configuration file, which is read once at start. The loader keeps each text in an array of characters;
the same code over plain texts says what the arrays hold. -/

namespace Bitmessage

/-! ### The configuration -/

/-- `struct bm_config_file`. -/
structure ConfigFile (T : ℕ → Type) where
  testnet : ℤ
  noConnect : ℤ
  maxOutboundConnections : ℤ
  apiPort : ℤ
  inboundPort : ℤ
  torControl : ℤ
  torControlSocket : T 255
  torControlHost : T 255
  torControlPort : ℤ
  torVirtualPort : ℤ
  onionAddress : T 255
  defaultNonceTrialsPerByte : ℕ
  defaultPayloadLengthExtraBytes : ℕ
  pqEnabled : ℤ

variable {T : ℕ → Type} (field : TextField T)

/-- `set_defaults`. -/
def setDefaults : ConfigFile T where
  testnet := 0
  noConnect := 0
  maxOutboundConnections := 3
  apiPort := 8442
  inboundPort := 0
  torControl := 0
  torControlSocket := field.put (field.blank 255) (ascii "/run/tor/control")
  torControlHost := field.put (field.blank 255) (ascii "127.0.0.1")
  torControlPort := 9051
  torVirtualPort := 8444
  onionAddress := field.blank 255
  defaultNonceTrialsPerByte := 1000
  defaultPayloadLengthExtraBytes := 1000
  pqEnabled := 0

/-- What a pair sets. -/
inductive ConfigSetting where
  | testnet (v : ℤ)
  | noConnect (v : ℤ)
  | maxOutboundConnections (v : ℤ)
  | apiPort (v : ℤ)
  | inboundPort (v : ℤ)
  | torControl (v : ℤ)
  | torControlSocket (value : Bytes)
  | torControlHost (value : Bytes)
  | torControlPort (v : ℤ)
  | torVirtualPort (v : ℤ)
  | onionAddress (value : Bytes)
  | defaultNonceTrialsPerByte (v : ℕ)
  | defaultPayloadLengthExtraBytes (v : ℕ)
  | pqEnabled (v : ℤ)

/-- The comparisons of `apply_kv`. What it does not know, and what must be positive and is not, it only logs. -/
def configSetting (sectionName key value : Bytes) : Option ConfigSetting :=
  if sectionName = ascii "network" then
    if key = ascii "testnet" then some (.testnet (atoi value))
    else if key = ascii "no_connect" then some (.noConnect (atoi value))
    else if key = ascii "max_outbound_connections" then
      if atoi value ≤ 0 then none else some (.maxOutboundConnections (atoi value))
    else none
  else if sectionName = ascii "identity" then
    if key = ascii "default_nonce_trials_per_byte" then
      if strtoll value ≤ 0 then none else some (.defaultNonceTrialsPerByte (strtoll value).toNat)
    else if key = ascii "default_payload_length_extra_bytes" then
      if strtoll value ≤ 0 then none else some (.defaultPayloadLengthExtraBytes (strtoll value).toNat)
    else none
  else if sectionName = ascii "api" then
    if key = ascii "port" then some (.apiPort (atoi value)) else none
  else if sectionName = ascii "inbound" then
    if key = ascii "port" then some (.inboundPort (atoi value)) else none
  else if sectionName = ascii "tor" then
    if key = ascii "control" then some (.torControl (atoi value))
    else if key = ascii "control_socket" then some (.torControlSocket value)
    else if key = ascii "control_host" then some (.torControlHost value)
    else if key = ascii "control_port" then some (.torControlPort (atoi value))
    else if key = ascii "virtual_port" then some (.torVirtualPort (atoi value))
    else if key = ascii "onion_address" then some (.onionAddress value)
    else none
  else if sectionName = ascii "pq" then
    if key = ascii "enabled" then some (.pqEnabled (atoi value)) else none
  else none

/-- The assignments of `apply_kv`. -/
def ConfigFile.set (out : ConfigFile T) : ConfigSetting → ConfigFile T
  | .testnet v => { out with testnet := v }
  | .noConnect v => { out with noConnect := v }
  | .maxOutboundConnections v => { out with maxOutboundConnections := v }
  | .apiPort v => { out with apiPort := v }
  | .inboundPort v => { out with inboundPort := v }
  | .torControl v => { out with torControl := v }
  | .torControlSocket value => { out with torControlSocket := field.put out.torControlSocket value }
  | .torControlHost value => { out with torControlHost := field.put out.torControlHost value }
  | .torControlPort v => { out with torControlPort := v }
  | .torVirtualPort v => { out with torVirtualPort := v }
  | .onionAddress value => { out with onionAddress := field.put out.onionAddress value }
  | .defaultNonceTrialsPerByte v => { out with defaultNonceTrialsPerByte := v }
  | .defaultPayloadLengthExtraBytes v => { out with defaultPayloadLengthExtraBytes := v }
  | .pqEnabled v => { out with pqEnabled := v }

/-- `apply_kv`. -/
def applyKv (out : ConfigFile T) (sectionName key value : Bytes) : ConfigFile T :=
  (configSetting sectionName key value).elim out (out.set field)

/-! ### The lines -/

/-- What a line is, without the white space around it. -/
inductive ConfigLine where
  /-- A blank line, a comment, or a line without `=`. -/
  | ignored
  | header (name : Bytes)
  | pair (key value : Bytes)

def configLine (line : Bytes) : ConfigLine :=
  let trimmed := trim (cString line)
  if trimmed = [] ∨ trimmed.head? = some 0x23 ∨ trimmed.head? = some 0x3b then .ignored
  else if trimmed.head? = some 0x5b ∧ trimmed.getLast? = some 0x5d then .header trimmed.dropLast.tail
  else if 0x3d ∈ trimmed then
    .pair (trim (trimmed.takeWhile (· ≠ 0x3d))) (trim (trimmed.dropWhile (· ≠ 0x3d)).tail)
  else .ignored

/-- What the loader carries from line to line: the configuration and `section`. -/
structure ConfigLoad (T : ℕ → Type) where
  out : ConfigFile T
  sectionName : T 63

def configStart : ConfigLoad T := ⟨setDefaults field, field.blank 63⟩

/-- The body of the loop of `bm_config_file_load`. -/
def applyConfigLine (s : ConfigLoad T) (line : Bytes) : ConfigLoad T :=
  match configLine line with
  | .ignored => s
  | .header name => { s with sectionName := field.put s.sectionName name }
  | .pair key value => { s with out := applyKv field s.out (field.text s.sectionName) key value }

/-- The size of `line` without the NUL. -/
def configLineRoom : ℕ := 511

/-- `bm_config_file_load`, for a file that may not be there. -/
def bmConfigFileLoad : Option Bytes → ConfigFile CharArray × ℕ
  | none => (setDefaults charArrays, 0)
  | some file => (((fgetsAll configLineRoom file).foldl (applyConfigLine charArrays) (configStart charArrays)).out, 1)

/-! ### What a configuration file says -/

/-- The pairs of some lines, each with the name in the most recent header. -/
def configPairs (sectionName : Bytes) : List Bytes → List (Bytes × Bytes × Bytes)
  | [] => []
  | line :: lines =>
    match configLine line with
    | .ignored => configPairs sectionName lines
    | .header name => configPairs name lines
    | .pair key value => (sectionName, key, value) :: configPairs sectionName lines

/-- The pairs of a file, which is split at line feeds only. -/
def filePairs (file : Bytes) : List (Bytes × Bytes × Bytes) := configPairs [] (logicalLines file)

/-- The configuration that the pairs make of the defaults, one after the other. -/
def logicalConfig (pairs : List (Bytes × Bytes × Bytes)) : ConfigFile PlainText :=
  pairs.foldl (fun out p => applyKv plainTexts out p.1 p.2.1 p.2.2) (setDefaults plainTexts)

/-- The last value that is given for a key of a section. -/
def lastValue (sectionName key : Bytes) (pairs : List (Bytes × Bytes × Bytes)) : Option Bytes :=
  pairs.reverse.findSome? fun p => if p.1 = sectionName ∧ p.2.1 = key then some p.2.2 else none

/-! ### The arrays hold the texts -/

/-- What the arrays of a configuration hold. -/
def ConfigFile.texts (c : ConfigFile CharArray) : ConfigFile PlainText where
  testnet := c.testnet
  noConnect := c.noConnect
  maxOutboundConnections := c.maxOutboundConnections
  apiPort := c.apiPort
  inboundPort := c.inboundPort
  torControl := c.torControl
  torControlSocket := c.torControlSocket.text
  torControlHost := c.torControlHost.text
  torControlPort := c.torControlPort
  torVirtualPort := c.torVirtualPort
  onionAddress := c.onionAddress.text
  defaultNonceTrialsPerByte := c.defaultNonceTrialsPerByte
  defaultPayloadLengthExtraBytes := c.defaultPayloadLengthExtraBytes
  pqEnabled := c.pqEnabled

def ConfigLoad.texts (s : ConfigLoad CharArray) : ConfigLoad PlainText := ⟨s.out.texts, s.sectionName.text⟩

theorem zero_not_mem_trim {text : Bytes} (h : 0 ∉ text) : 0 ∉ trim text := by
  intro hmem
  exact h ((List.dropWhile_suffix _).subset ((List.rdropWhile_prefix _ _).subset hmem))

theorem configLine_header {line name : Bytes} (h : configLine line = .header name) : 0 ∉ name := by
  have hzero := zero_not_mem_trim (zero_not_mem_cString line)
  rw [configLine] at h
  split_ifs at h
  injection h with h
  rw [← h]
  intro hmem
  exact hzero (List.dropLast_subset _ (List.mem_of_mem_tail hmem))

theorem configLine_pair {line key value : Bytes} (h : configLine line = .pair key value) : 0 ∉ value := by
  have hzero := zero_not_mem_trim (zero_not_mem_cString line)
  rw [configLine] at h
  split_ifs at h
  injection h with _ h
  rw [← h]
  apply zero_not_mem_trim
  intro hmem
  exact hzero ((List.dropWhile_suffix _).subset (List.mem_of_mem_tail hmem))

theorem texts_setDefaults : (setDefaults charArrays).texts = setDefaults plainTexts := by
  have hsocket := (CharArray.zeros 255).text_strncpy (show 0 ∉ ascii "/run/tor/control" by decide)
  have hhost := (CharArray.zeros 255).text_strncpy (show 0 ∉ ascii "127.0.0.1" by decide)
  rw [setDefaults, ConfigFile.texts]
  simp only [charArrays, hsocket, hhost, CharArray.text_zeros]
  rfl

/-- A text that is set is the value of its key. -/
def ConfigSetting.TextOf (sectionName key value : Bytes) : ConfigSetting → Prop
  | .torControlSocket text => sectionName = ascii "tor" ∧ key = ascii "control_socket" ∧ text = value
  | .torControlHost text => sectionName = ascii "tor" ∧ key = ascii "control_host" ∧ text = value
  | .onionAddress text => sectionName = ascii "tor" ∧ key = ascii "onion_address" ∧ text = value
  | _ => True

theorem forall_mem_ite {α : Type*} {p : Prop} [Decidable p] {P : α → Prop} {a b : Option α} (ha : p → ∀ x ∈ a, P x)
    (hb : ∀ x ∈ b, P x) : ∀ x ∈ (if p then a else b), P x := by
  split_ifs with hp
  · exact ha hp
  · exact hb

theorem configSetting_textOf (sectionName key value : Bytes) :
    ∀ setting ∈ configSetting sectionName key value, setting.TextOf sectionName key value := by
  rw [configSetting]
  repeat' refine forall_mem_ite (fun _ => ?_) ?_
  all_goals
    intro setting hsetting
    cases hsetting
  all_goals trivial

/-- A pair does to the texts what it does to the arrays. -/
theorem texts_applyKv (out : ConfigFile CharArray) (sectionName key : Bytes) {value : Bytes} (hvalue : 0 ∉ value) :
    (applyKv charArrays out sectionName key value).texts = applyKv plainTexts out.texts sectionName key value := by
  have hput (array : CharArray 255) {text : Bytes} (htext : text = value) :
      (charArrays.put array text).text = text.take 255 := by
    rw [htext]
    exact array.text_strncpy hvalue
  rw [applyKv, applyKv]
  have htext := configSetting_textOf sectionName key value
  cases hs : configSetting sectionName key value with
  | none => rfl
  | some setting =>
    have hvalue := htext setting hs
    show (out.set charArrays setting).texts = out.texts.set plainTexts setting
    cases setting with
    | torControlSocket text | torControlHost text | onionAddress text =>
      simp only [ConfigFile.set, ConfigFile.texts, hput _ hvalue.2.2]
      rfl
    | _ => rfl

theorem texts_applyConfigLine (s : ConfigLoad CharArray) (line : Bytes) :
    (applyConfigLine charArrays s line).texts = applyConfigLine plainTexts s.texts line := by
  rw [applyConfigLine, applyConfigLine]
  cases hline : configLine line with
  | ignored => rfl
  | header name =>
    have hput : (charArrays.put s.sectionName name).text = plainTexts.put s.sectionName.text name :=
      s.sectionName.text_strncpy (configLine_header hline)
    simp only [ConfigLoad.texts, hput]
  | pair key value =>
    simp only [ConfigLoad.texts, texts_applyKv _ _ _ (configLine_pair hline)]
    rfl

theorem texts_foldl (lines : List Bytes) (s : ConfigLoad CharArray) :
    (lines.foldl (applyConfigLine charArrays) s).texts = lines.foldl (applyConfigLine plainTexts) s.texts := by
  induction lines generalizing s with
  | nil => rfl
  | cons line lines ih => rw [List.foldl_cons, List.foldl_cons, ih, texts_applyConfigLine]

/-! ### Lines and pairs -/

/-- The names of the sections are shorter than what is kept of a header. -/
theorem take_eq_iff {name known : Bytes} {room : ℕ} (h : known.length < room) :
    name.take room = known ↔ name = known := by
  constructor
  · intro htake
    have hlen := congrArg List.length htake
    rw [List.length_take] at hlen
    rw [← htake, List.take_of_length_le (by omega)]
  · intro hname
    rw [hname, List.take_of_length_le h.le]

theorem configSetting_take (name key value : Bytes) :
    configSetting (name.take 63) key value = configSetting name key value := by
  have hknown (known : String) (h : (ascii known).length < 63) : (name.take 63 = ascii known) = (name = ascii known) :=
    propext (take_eq_iff h)
  simp only [configSetting, hknown "network" (by decide), hknown "identity" (by decide), hknown "api" (by decide),
    hknown "inbound" (by decide), hknown "tor" (by decide), hknown "pq" (by decide)]

/-- Line by line the pairs of the lines are applied. -/
theorem foldl_applyConfigLine (lines : List Bytes) (out : ConfigFile PlainText) (name : Bytes) :
    (lines.foldl (applyConfigLine plainTexts) ⟨out, name.take 63⟩).out =
      (configPairs name lines).foldl (fun out p => applyKv plainTexts out p.1 p.2.1 p.2.2) out := by
  induction lines generalizing out name with
  | nil => rfl
  | cons line lines ih =>
    rw [List.foldl_cons, applyConfigLine, configPairs]
    cases configLine line with
    | ignored => exact ih out name
    | header next => exact ih out next
    | pair key value =>
      show (lines.foldl (applyConfigLine plainTexts)
        ⟨applyKv plainTexts out (name.take 63) key value, name.take 63⟩).out = _
      rw [applyKv, configSetting_take, ← applyKv]
      exact ih _ name

theorem lastValue_concat (sectionName key : Bytes) (pairs : List (Bytes × Bytes × Bytes)) (p : Bytes × Bytes × Bytes) :
    lastValue sectionName key (pairs ++ [p]) =
      if p.1 = sectionName ∧ p.2.1 = key then some p.2.2 else lastValue sectionName key pairs := by
  rw [lastValue, List.reverse_append, List.reverse_singleton, List.singleton_append, List.findSome?_cons]
  split_ifs <;> rfl

/-- The keys of the texts, all of them in the section `tor`. -/
inductive TextKey where
  | controlSocket
  | controlHost
  | onionAddress

def TextKey.key : TextKey → Bytes
  | .controlSocket => ascii "control_socket"
  | .controlHost => ascii "control_host"
  | .onionAddress => ascii "onion_address"

def TextKey.get (out : ConfigFile PlainText) : TextKey → Bytes
  | .controlSocket => out.torControlSocket
  | .controlHost => out.torControlHost
  | .onionAddress => out.onionAddress

theorem get_applyKv (t : TextKey) (out : ConfigFile PlainText) (name key value : Bytes) :
    t.get (applyKv plainTexts out name key value) =
      if name = ascii "tor" ∧ key = t.key then value.take 255 else t.get out := by
  by_cases h : name = ascii "tor" ∧ key = t.key
  · rw [if_pos h, h.1, h.2]
    cases t <;> rfl
  · have htext := configSetting_textOf name key value
    rw [if_neg h, applyKv]
    cases hs : configSetting name key value with
    | none => rfl
    | some setting =>
      have hof := htext setting hs
      cases t <;> cases setting <;> first | rfl | exact absurd ⟨hof.1, hof.2.1⟩ h

/-- A text is the last value of its key, as far as there is room for it. -/
theorem get_logicalConfig (t : TextKey) (pairs : List (Bytes × Bytes × Bytes)) :
    t.get (logicalConfig pairs) =
      (lastValue (ascii "tor") t.key pairs).elim (t.get (setDefaults plainTexts)) fun value => value.take 255 := by
  induction pairs using List.reverseRecOn with
  | nil => rfl
  | append_singleton pairs p ih =>
    rw [logicalConfig, List.foldl_append, List.foldl_cons, List.foldl_nil, get_applyKv, ← logicalConfig, ih,
      lastValue_concat]
    split_ifs <;> rfl

/-! ### The loader -/

/-- A comment says nothing, whatever its length. -/
theorem configLine_comment {blank rest : Bytes} {c : UInt8} (hblank : ∀ b ∈ blank, isSpace b = true ∧ b ≠ 0)
    (hc : c = 0x23 ∨ c = 0x3b) : configLine (blank ++ c :: rest) = .ignored := by
  have hspace : ¬isSpace c ∧ c ≠ 0 := by
    rcases hc with rfl | rfl <;> decide
  have hstring : cString (blank ++ c :: rest) = blank ++ c :: cString rest := by
    rw [cString, List.takeWhile_append_of_pos fun b hb => decide_eq_true (hblank b hb).2, ← cString,
      cString_cons hspace.2]
  have htrim : trim (blank ++ c :: cString rest) = (c :: cString rest).rdropWhile isSpace := by
    rw [trim, List.dropWhile_append_of_pos fun b hb => (hblank b hb).1, List.dropWhile_cons_of_neg hspace.1]
  have hhead : ((c :: cString rest).rdropWhile isSpace).head? = some c := by
    obtain ⟨dropped, hdropped⟩ := List.rdropWhile_prefix isSpace (c :: cString rest)
    cases hr : (c :: cString rest).rdropWhile isSpace with
    | nil =>
      have hall := List.rdropWhile_eq_nil_iff.mp hr c List.mem_cons_self
      exact absurd hall hspace.1
    | cons d more =>
      rw [hr, List.cons_append] at hdropped
      injection hdropped with hd
      rw [hd]
      rfl
  rw [configLine, hstring, htrim]
  exact if_pos (by rw [hhead]; rcases hc with rfl | rfl <;> simp)

/-- Neither does a line without `=`, unless it is a header. -/
theorem configLine_no_pair {line : Bytes} (h : 0x3d ∉ line) (key value : Bytes) :
    configLine line ≠ .pair key value := by
  have htrim : 0x3d ∉ trim (cString line) := by
    intro hmem
    exact h ((List.takeWhile_prefix _).subset
      ((List.dropWhile_suffix _).subset ((List.rdropWhile_prefix _ _).subset hmem)))
  rw [configLine]
  split_ifs <;> simp

theorem configLine_append (line : Bytes) : configLine (line ++ [0x0a]) = configLine line := by
  have htrim : trim (cString (line ++ [0x0a])) = trim (cString line) := by
    rcases cString_append_singleton line (c := 0x0a) (by decide) with h | h
    · rw [h]
    · rw [h, trim_append_space _ (by decide)]
  rw [configLine, htrim, configLine]

theorem applyConfigLine_ignoresLineFeed : IgnoresLineFeed (applyConfigLine field) where
  append := by
    intro s piece
    rw [applyConfigLine, configLine_append, applyConfigLine]
  nil := fun _ => rfl

/-- What the loader has after the file that these lines make, read through the buffer. -/
def loaded (lines : List Bytes) : ConfigLoad PlainText :=
  ((fgetsAll configLineRoom ([0x0a].intercalate lines)).foldl (applyConfigLine charArrays)
    (configStart charArrays)).texts

/-- What the lines say, each taken as a whole. -/
def said (lines : List Bytes) : ConfigLoad PlainText :=
  lines.foldl (applyConfigLine plainTexts) (configStart plainTexts)

theorem texts_configStart : (configStart charArrays).texts = configStart plainTexts := by
  have hname : (charArrays.blank 63).text = [] := CharArray.text_zeros 63
  rw [configStart, ConfigLoad.texts, texts_setDefaults, hname]
  rfl

theorem loaded_eq {lines : List Bytes} (hlines : ∀ line ∈ lines, 0x0a ∉ line) :
    loaded lines = lines.foldl (applyPieces configLineRoom (applyConfigLine plainTexts)) (configStart plainTexts) := by
  rw [loaded, texts_foldl, texts_configStart,
    foldl_fgetsAll (applyConfigLine_ignoresLineFeed plainTexts) (by decide) hlines]

theorem said_out (lines : List Bytes) : (said lines).out = logicalConfig (configPairs [] lines) :=
  foldl_applyConfigLine lines (setDefaults plainTexts) []

/-- The line fits into the buffer, or what it is cut into does the same, one piece after the other. -/
def ActsWhole (s : ConfigLoad PlainText) (line : Bytes) : Prop :=
  line.length ≤ configLineRoom ∨
    applyPieces configLineRoom (applyConfigLine plainTexts) s line = applyConfigLine plainTexts s line

theorem applyConfigLine_ignored {line : Bytes} (h : configLine line = .ignored) (s : ConfigLoad T) :
    applyConfigLine field s line = s := by
  rw [applyConfigLine, h]

/-- A line that says nothing acts as a whole when nothing it is cut into is a header or a pair. -/
theorem ActsWhole.of_ignored {line : Bytes} (hline : configLine line = .ignored)
    (hpieces : ∀ piece ∈ fgetsAll configLineRoom line, configLine piece = .ignored) (s : ConfigLoad PlainText) :
    ActsWhole s line := by
  right
  rw [applyConfigLine_ignored plainTexts hline, applyPieces]
  refine List.foldlRecOn (fgetsAll configLineRoom line) (applyConfigLine plainTexts) (motive := (· = s)) rfl ?_
  intro s' hs' piece hpiece
  rw [applyConfigLine_ignored plainTexts (hpieces piece hpiece), hs']

/-- The first piece of a comment is a comment, so that this is asked of the later ones. -/
theorem ActsWhole.comment {blank rest : Bytes} {c : UInt8} (hblank : ∀ b ∈ blank, isSpace b = true ∧ b ≠ 0)
    (hc : c = 0x23 ∨ c = 0x3b) (hroom : blank.length < configLineRoom) (hline : 0x0a ∉ blank ++ c :: rest)
    (hlater : ∀ piece ∈ (fgetsAll configLineRoom (blank ++ c :: rest)).tail, configLine piece = .ignored)
    (s : ConfigLoad PlainText) : ActsWhole s (blank ++ c :: rest) := by
  rcases Nat.lt_or_ge (blank ++ c :: rest).length configLineRoom with hshort | hlong
  · exact .inl hshort.le
  · have hfirst : (blank ++ c :: rest).take configLineRoom =
        blank ++ c :: rest.take (configLineRoom - blank.length - 1) := by
      rw [List.take_append, List.take_of_length_le hroom.le, List.take_cons (by omega)]
    have hpieces := fgetsAll_piece (by decide) hline hlong []
    rw [List.append_nil, List.append_nil, hfirst] at hpieces
    refine ActsWhole.of_ignored (configLine_comment hblank hc) (fun piece hpiece => ?_) s
    rw [hpieces] at hpiece hlater
    rcases List.mem_cons.mp hpiece with rfl | hmem
    · exact configLine_comment hblank hc
    · exact hlater piece hmem

/-- No piece of a line without `=` is a pair, so that this is asked of headers. -/
theorem ActsWhole.no_pair {line : Bytes} (hpair : 0x3d ∉ line) (hheader : ∀ name, configLine line ≠ .header name)
    (hpieces : ∀ piece ∈ fgetsAll configLineRoom line, ∀ name, configLine piece ≠ .header name)
    (s : ConfigLoad PlainText) : ActsWhole s line := by
  have hignored : ∀ text : Bytes, 0x3d ∉ text → (∀ name, configLine text ≠ .header name) →
      configLine text = .ignored := by
    intro text hnone hname
    cases htext : configLine text with
    | ignored => rfl
    | header name => exact absurd htext (hname name)
    | pair key value => exact absurd htext (configLine_no_pair hnone key value)
  refine ActsWhole.of_ignored (hignored line hpair hheader) (fun piece hpiece => ?_) s
  exact hignored piece (fun hmem => hpair (subset_of_mem_fgetsAll hpiece hmem)) (hpieces piece hpiece)

/-- The loader follows the logical lines of a file. -/
structure FollowsLines (file : Bytes) : Prop where
  /-- The configuration is what the pairs of the lines make of the defaults, -/
  config : (bmConfigFileLoad (some file)).1.texts = logicalConfig (filePairs file)
  /-- each text in it is the last value of its key, -/
  text : ∀ t : TextKey, t.get (bmConfigFileLoad (some file)).1.texts =
    (lastValue (ascii "tor") t.key (filePairs file)).elim (t.get (setDefaults plainTexts)) fun value => value.take 255
  /-- and so it is after every line, with the section that is in force there. -/
  each : ∀ k, loaded ((logicalLines file).take k) = said ((logicalLines file).take k)

theorem said_concat (lines : List Bytes) (line : Bytes) :
    said (lines ++ [line]) = applyConfigLine plainTexts (said lines) line := by
  rw [said, List.foldl_append]
  rfl

theorem loaded_concat {lines : List Bytes} {line : Bytes} (hlines : ∀ l ∈ lines ++ [line], 0x0a ∉ l) :
    loaded (lines ++ [line]) = applyPieces configLineRoom (applyConfigLine plainTexts) (loaded lines) line := by
  rw [loaded_eq hlines, loaded_eq fun l hl => hlines l (List.mem_append_left _ hl), List.foldl_append]
  rfl

theorem ActsWhole.eq {s : ConfigLoad PlainText} {line : Bytes} (h : ActsWhole s line) (hline : 0x0a ∉ line) :
    applyPieces configLineRoom (applyConfigLine plainTexts) s line = applyConfigLine plainTexts s line := by
  rcases h with hshort | hwhole
  · exact applyPieces_of_length_le (applyConfigLine_ignoresLineFeed plainTexts) hline (by decide) hshort s
  · exact hwhole

/-- The configuration follows the logical lines exactly when no line is cut into pieces that do something else. -/
theorem config_file_load_iff (file : Bytes) :
    FollowsLines file ↔
      ∀ k line, (logicalLines file)[k]? = some line → ActsWhole (said ((logicalLines file).take k)) line := by
  have hlines (k : ℕ) : ∀ line ∈ (logicalLines file).take k, 0x0a ∉ line :=
    fun line hline => not_mem_of_mem_logicalLines (List.mem_of_mem_take hline)
  have htake {k : ℕ} {line : Bytes} (hk : (logicalLines file)[k]? = some line) :
      (logicalLines file).take (k + 1) = (logicalLines file).take k ++ [line] := by
    rw [List.take_add_one, hk]
    rfl
  have hloaded {k : ℕ} {line : Bytes} (hk : (logicalLines file)[k]? = some line) :
      loaded ((logicalLines file).take (k + 1)) =
        applyPieces configLineRoom (applyConfigLine plainTexts) (loaded ((logicalLines file).take k)) line := by
    rw [htake hk]
    exact loaded_concat (htake hk ▸ hlines (k + 1))
  constructor
  · intro h k line hk
    right
    have hnext := h.each (k + 1)
    rw [hloaded hk, htake hk, said_concat, h.each k] at hnext
    exact hnext
  · intro h
    have heach : ∀ k, loaded ((logicalLines file).take k) = said ((logicalLines file).take k) := by
      intro k
      induction k with
      | zero =>
        rw [loaded_eq (hlines 0)]
        rfl
      | succ k ih =>
        cases hk : (logicalLines file)[k]? with
        | none =>
          have hlen := List.getElem?_eq_none_iff.mp hk
          rw [List.take_of_length_le hlen] at ih
          rw [List.take_of_length_le (by omega)]
          exact ih
        | some line =>
          rw [hloaded hk, htake hk, said_concat, ih]
          exact (h k line hk).eq (not_mem_of_mem_logicalLines (List.mem_of_getElem? hk))
    have hconfig : (bmConfigFileLoad (some file)).1.texts = logicalConfig (filePairs file) := by
      have hfile : [0x0a].intercalate (logicalLines file) = file := List.intercalate_splitOn 0x0a
      have hall := heach (logicalLines file).length
      rw [List.take_length, loaded, hfile] at hall
      rw [filePairs, ← said_out, ← hall]
      rfl
    exact ⟨hconfig, fun t => by rw [hconfig, get_logicalConfig], heach⟩

theorem FollowsLines.apiPort {file : Bytes} (h : FollowsLines file) :
    (bmConfigFileLoad (some file)).1.apiPort = (logicalConfig (filePairs file)).apiPort := by
  rw [← h.config]
  rfl

/-- What is behind the first 511 bytes of a comment is read as a line of its own. -/
theorem comment_cut :
    let file := ascii "[api]\n#" ++ List.replicate 510 0x78 ++ ascii "port=1"
    (bmConfigFileLoad (some file)).1.apiPort = 1 ∧ (logicalConfig (filePairs file)).apiPort = 8442 ∧
      ¬FollowsLines file := by
  intro file
  have hcode : (bmConfigFileLoad (some file)).1.apiPort = 1 := by decide +kernel
  have hlines : (logicalConfig (filePairs file)).apiPort = 8442 := by decide +kernel
  refine ⟨hcode, hlines, fun h => ?_⟩
  have hport := h.apiPort
  rw [hcode, hlines] at hport
  exact absurd hport (by decide)

end Bitmessage
