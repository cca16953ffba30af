import Bitmessage.Common.Json
import Bitmessage.Common.TextFile

/-! The import of `keys.dat` by the command line client: a reader of lines with one entry under construction,
and the entries sent to the daemon in batches. The daemon is a function of the requests it has been sent. -/

namespace Bitmessage

/-! ### Lines -/

def isBlank (c : UInt8) : Bool := c = 0x20 || c = 0x09

/-- `trim_inplace`. -/
def trimInplace (text : Bytes) : Bytes := (text.dropWhile isBlank).rdropWhile fun c => isBlank c || c = 0x0d

/-- `strcasecmp` finds no difference. -/
def sameLetters (a b : Bytes) : Bool := a.map toLower = b.map toLower

/-- What a line is; a header without its bracket has no name. -/
inductive KeysDatLine where
  | ignored
  | header (name : Option Bytes)
  | pair (key value : Bytes)

def keysDatLine (line : Bytes) : KeysDatLine :=
  let trimmed := trimInplace ((cString line).takeWhile (· ≠ 0x0a))
  if trimmed = [] ∨ trimmed.head? = some 0x23 ∨ trimmed.head? = some 0x3b then .ignored
  else if trimmed.head? = some 0x5b then
    .header (if 0x5d ∈ trimmed then some (trimmed.takeWhile (· ≠ 0x5d)).tail else none)
  else if 0x3d ∈ trimmed then
    .pair (trimInplace (trimmed.takeWhile (· ≠ 0x3d))) (trimInplace (trimmed.dropWhile (· ≠ 0x3d)).tail)
  else .ignored

/-- The keys of a section that are looked at. -/
inductive KeysDatKey where
  | label
  | privSigningKey
  | privEncryptionKey
  | nonceTrialsPerByte
  | payloadLengthExtraBytes
  | chan
  deriving DecidableEq

def keysDatKey (key : Bytes) : Option KeysDatKey :=
  if sameLetters key (ascii "label") then some .label
  else if sameLetters key (ascii "privsigningkey") then some .privSigningKey
  else if sameLetters key (ascii "privencryptionkey") then some .privEncryptionKey
  else if sameLetters key (ascii "noncetrialsperbyte") then some .nonceTrialsPerByte
  else if sameLetters key (ascii "payloadlengthextrabytes") then some .payloadLengthExtraBytes
  else if sameLetters key (ascii "chan") then some .chan
  else none

/-! ### Entries -/

/-- `struct keys_dat_entry`. -/
structure KeysDatEntry (T : ℕ → Type) where
  address : T 63
  label : T 255
  signingWif : T 255
  encryptionWif : T 255
  nonceTrialsPerByte : ℤ
  payloadLengthExtraBytes : ℤ
  hasSigning : Bool
  hasEncryption : Bool
  isChan : Bool

section

variable {T : ℕ → Type} (field : TextField T)

/-- The entry after `memset`. -/
def blankEntry : KeysDatEntry T where
  address := field.blank 63
  label := field.blank 255
  signingWif := field.blank 255
  encryptionWif := field.blank 255
  nonceTrialsPerByte := 0
  payloadLengthExtraBytes := 0
  hasSigning := false
  hasEncryption := false
  isChan := false

def openEntry (name : Bytes) : KeysDatEntry T :=
  { blankEntry field with address := field.put (field.blank 63) name }

def KeysDatEntry.set (cur : KeysDatEntry T) (value : Bytes) : KeysDatKey → KeysDatEntry T
  | .label => { cur with label := field.put cur.label value }
  | .privSigningKey => { cur with signingWif := field.put cur.signingWif value, hasSigning := true }
  | .privEncryptionKey => { cur with encryptionWif := field.put cur.encryptionWif value, hasEncryption := true }
  | .nonceTrialsPerByte => { cur with nonceTrialsPerByte := strtoll value }
  | .payloadLengthExtraBytes => { cur with payloadLengthExtraBytes := strtoll value }
  | .chan => { cur with isChan := sameLetters value (ascii "true") }

def KeysDatEntry.setPair (cur : KeysDatEntry T) (pair : Bytes × Bytes) : KeysDatEntry T :=
  (keysDatKey pair.1).elim cur (cur.set field pair.2)

/-! ### Requests -/

def jsonText (text : Bytes) : JsonValue := .string (CString.of text)

def jsonInt (n : ℤ) : JsonValue := .number (Binary64.ofInt n)

/-- A member with a name of the program. -/
def jsonMember (name : String) (value : JsonValue) : CString × JsonValue := (CString.of (ascii name), value)

def difficultyOr (n : ℤ) : ℤ := if 0 < n then n else 1000

/-- An entry as `flush_keys_dat_batch` writes it. -/
def KeysDatEntry.json (e : KeysDatEntry T) : JsonValue :=
  .object ([jsonMember "address" (jsonText (field.text e.address)),
    jsonMember "signingWIF" (jsonText (field.text e.signingWif)),
    jsonMember "encryptionWIF" (jsonText (field.text e.encryptionWif)),
    jsonMember "label" (jsonText (field.text e.label)),
    jsonMember "nonceTrialsPerByte" (jsonInt (difficultyOr e.nonceTrialsPerByte)),
    jsonMember "payloadLengthExtraBytes" (jsonInt (difficultyOr e.payloadLengthExtraBytes))] ++
    if e.isChan then [jsonMember "isChan" (.bool true)] else [])

end

/-- The body of the request `importAddressesBulk`. -/
def importRequest (storePassphrase : CString) (entries : List JsonValue) : Bytes :=
  bmJsonSerialize (.object [jsonMember "jsonrpc" (jsonText (ascii "2.0")),
    jsonMember "method" (jsonText (ascii "importAddressesBulk")),
    jsonMember "params" (.array [.array entries, .string storePassphrase]),
    jsonMember "id" (jsonInt 1)])

/-- `call_rpc_raw` behind the request: the response, unless there is no answer, it is refused, or it is an error. -/
def callRpcRaw : Option (ℤ × Bytes) → Option JsonValue
  | none => none
  | some (status, body) =>
    if status = 401 then none
    else (bmJsonParse (cString body)).bind fun v => if (v.objectGet (ascii "error")).isSome then none else some v

/-- One result says that its address has been imported. -/
def isSuccess (item : JsonValue) : Bool :=
  match item.objectGet (ascii "success") with
  | some (.bool b) => b
  | _ => false

/-- The items of a response, if it has them. -/
def resultItems (response : JsonValue) : Option (List JsonValue) :=
  match response.objectGet (ascii "result") with
  | some (.array items) => some items
  | _ => none

/-- What a batch of so many entries adds to `imported` and `failed`. -/
def countResults (entries : ℕ) (reply : Option (ℤ × Bytes)) : ℕ × ℕ :=
  match (callRpcRaw reply).bind resultItems with
  | some items => (items.countP isSuccess, items.countP fun item => !isSuccess item)
  | none => (0, entries)

/-! ### The import -/

/-- `KEYS_DAT_BATCH_SIZE` -/
def keysDatBatchSize : ℕ := 300

/-- `KEYS_DAT_LINE_MAX` -/
def keysDatLineMax : ℕ := 4096

structure KeysDatImport (T : ℕ → Type) where
  cur : KeysDatEntry T
  inAddressSection : Bool
  batch : List (KeysDatEntry T)
  /-- The bodies of the requests so far. -/
  sent : List Bytes
  imported : ℕ
  failed : ℕ
  skippedNoKeys : ℕ

section

variable {T : ℕ → Type} (field : TextField T) (server : List Bytes → Option (ℤ × Bytes)) (storePassphrase : CString)

namespace KeysDatImport

def start : KeysDatImport T where
  cur := blankEntry field
  inAddressSection := false
  batch := []
  sent := []
  imported := 0
  failed := 0
  skippedNoKeys := 0

/-- `flush_keys_dat_batch`. -/
def flush (s : KeysDatImport T) : KeysDatImport T :=
  if s.batch = [] then s
  else
    let sent := s.sent ++ [importRequest storePassphrase (s.batch.map (KeysDatEntry.json field))]
    let counts := countResults s.batch.length (server sent)
    { s with batch := [], sent := sent, imported := s.imported + counts.1, failed := s.failed + counts.2 }

/-- The section under construction ends at the end of the file. -/
def closeSection (s : KeysDatImport T) : KeysDatImport T :=
  if s.inAddressSection then
    if s.cur.hasSigning && s.cur.hasEncryption then { s with batch := s.batch ++ [s.cur] }
    else { s with skippedNoKeys := s.skippedNoKeys + 1 }
  else s

/-- It ends at the next header, where a full batch is sent at once. -/
def endSection (s : KeysDatImport T) : KeysDatImport T :=
  if s.inAddressSection then
    if s.cur.hasSigning && s.cur.hasEncryption then
      if keysDatBatchSize ≤ s.batch.length + 1 then
        flush field server storePassphrase { s with batch := s.batch ++ [s.cur] }
      else { s with batch := s.batch ++ [s.cur] }
    else { s with skippedNoKeys := s.skippedNoKeys + 1 }
  else s

def openSection (s : KeysDatImport T) : Option Bytes → KeysDatImport T
  | some name =>
    if ascii "BM-" <+: name then { s with cur := openEntry field name, inAddressSection := true }
    else { s with cur := blankEntry field, inAddressSection := false }
  | none => { s with cur := blankEntry field, inAddressSection := false }

/-- The body of the loop of `import_keys_dat`. -/
def line (s : KeysDatImport T) (text : Bytes) : KeysDatImport T :=
  match keysDatLine text with
  | .ignored => s
  | .header name => (s.endSection field server storePassphrase).openSection field name
  | .pair key value => if s.inAddressSection then { s with cur := s.cur.setPair field (key, value) } else s

end KeysDatImport

/-- `import_keys_dat` after the file is open. -/
def importLines (pieces : List Bytes) : KeysDatImport T :=
  (pieces.foldl (KeysDatImport.line field server storePassphrase) (.start field)).closeSection.flush field server
    storePassphrase

end

/-- `import_keys_dat`: how the import ends, and whether the client exits with success. -/
def importKeysDat (server : List Bytes → Option (ℤ × Bytes)) (storePassphrase : CString) :
    Option Bytes → KeysDatImport CharArray × Bool
  | none => (.start charArrays, false)
  | some file =>
    let s := importLines charArrays server storePassphrase (fgetsAll (keysDatLineMax - 1) file)
    (s, s.failed = 0)

end Bitmessage
