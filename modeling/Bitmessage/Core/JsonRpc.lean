import Mathlib.Data.Nat.Notation
import Mathlib.Data.Int.Notation

/-! JSON-RPC 2.0 as the API server speaks it. The parser and the printer of JSON are
outside: a request is the value that the parser delivers, and a response is an
identifier with a result or an error. Handlers are outside as well; `processOneRequest`
says which requests get as far as one. -/

namespace Bitmessage

/-- A JSON value. Strings are the bytes up to the first zero, as the source reads them. -/
inductive Json where
  | null
  | bool (b : Bool)
  | number (value : Rat)
  | string (s : String)
  | array (items : List Json)
  | object (members : List (String × Json))

/-- `json_obj_get`: the first member of the name. -/
def Json.get? : Json → String → Option Json
  | .object members, key => (members.find? fun m => m.1 == key).map Prod.snd
  | _, _ => none

/-- `json_cstr`. -/
def Json.cstr : Json → Option String
  | .string s => some s
  | _ => none

/-- A request object without an identifier. -/
def Json.isNotification : Json → Bool
  | .object members => ((Json.object members).get? "id").isNone
  | _ => false

inductive ResponseBody where
  | result (value : Json)
  | error (code : ℤ) (message : String)

structure Response where
  id : Json
  body : ResponseBody

/-- `BM_JSONRPC_ERR_PARSE` and its siblings. -/
def errParse : ℤ := -32700
def errInvalidRequest : ℤ := -32600
def errMethodNotFound : ℤ := -32601
def errServer : ℤ := -32000

/-- `BM_JSONRPC_MAX_BATCH_SIZE`. -/
def maxBatchSize : ℕ := 256

/-- The identifier of a response: a string or a number is repeated, everything else becomes null. -/
def responseId : Option Json → Json
  | some (.string s) => .string s
  | some (.number value) => .number value
  | _ => .null

/-- `build_response`. -/
def buildResponse (id result : Option Json) (errorCode : ℤ) (errorMsg : Option String) : Response where
  id := responseId id
  body := match errorMsg with
    | some message => .error errorCode message
    | none => .result (result.getD .null)

/-- The names in `METHODS`. -/
def methods : List String :=
  ["unlockAddress", "unlockAllAddresses", "unlockAddresses", "exportAddress", "lockAddress",
    "lockAllAddresses", "deleteAddress", "convertAddressToV4", "convertV3AddressesToV4", "listAddresses",
    "createDeterministicAddress", "setAddressLabel", "importAddress", "importAddressesBulk", "joinChan",
    "cachePubkey", "sendMessage", "sendBroadcast", "getInboxMessages", "getSentMessages", "trashMessage",
    "addSubscription", "removeSubscription", "listSubscriptions", "addAddressBookEntry",
    "deleteAddressBookEntry", "listAddressBookEntries", "getSocksProxyOnion", "setSocksProxyOnion",
    "getSocksProxyClearnet", "setSocksProxyClearnet", "addPeer", "listConnections", "getNetworkStats"]

/-- The methods whose handlers send. -/
def isSendMethod (method : String) : Bool := method == "sendMessage" || method == "sendBroadcast"

/-- How far a request gets in `process_one_request`. -/
inductive Dispatch where
  | respond (r : Response)
  | ignore
  | run (method : String)

/-- `process_one_request` up to the handler. -/
def processOneRequest (req : Json) : Dispatch :=
  match req with
  | .object _ =>
    match (req.get? "method").bind Json.cstr with
    | none =>
      if req.isNotification then .ignore
      else .respond (buildResponse (req.get? "id") none errInvalidRequest (some "Invalid request: missing method"))
    | some method =>
      if method ∈ methods then .run method
      else if req.isNotification then .ignore
      else .respond (buildResponse (req.get? "id") none errMethodNotFound (some "Method not found"))
  | _ => .respond (buildResponse none none errInvalidRequest (some "Invalid request: not a JSON object"))

/-- What `process_jsonrpc_request` does with a body: answer it at once, or process its requests. -/
inductive Plan where
  | answer (r : Response)
  | process (batch : Bool) (items : List Json)

/-- `process_jsonrpc_request` up to its loop. The body may fail to parse. -/
def processJsonrpcRequest : Option Json → Plan
  | none => .answer (buildResponse none none errParse (some "Parse error: invalid JSON"))
  | some (.array items) =>
    if items.length = 0 then
      .answer (buildResponse none none errInvalidRequest (some "Invalid request: empty batch"))
    else if maxBatchSize < items.length then
      .answer (buildResponse none none errInvalidRequest
        (some "Invalid request: batch too large (max 256 requests)"))
    else .process true items
  | some root => .process false [root]

/-- What a handler returns: a result, or a message for the error. -/
structure HandlerReply where
  result : Option Json
  error : Option String

/-- The response to a request whose handler has replied; a notification has none. -/
def handlerResponse (req : Json) (reply : HandlerReply) : Option Response :=
  if req.isNotification then none
  else some (buildResponse (req.get? "id") reply.result errServer reply.error)

/-- A response repeats the identifier of its request. -/
theorem id_of_respond {req : Json} {r : Response} (h : processOneRequest req = .respond r) :
    r.id = responseId (req.get? "id") ∧ req.isNotification = false := by
  cases req with
  | object members =>
    simp only [processOneRequest] at h
    split at h
    · split at h
      · cases h
      · next hnot =>
        cases h
        exact ⟨rfl, Bool.eq_false_iff.mpr hnot⟩
    · split at h
      · cases h
      · split at h
        · cases h
        · next hnot =>
          cases h
          exact ⟨rfl, Bool.eq_false_iff.mpr hnot⟩
  | _ =>
    cases h
    exact ⟨rfl, rfl⟩

/-- Only notifications are ignored. -/
theorem isNotification_of_ignore {req : Json} (h : processOneRequest req = .ignore) : req.isNotification = true := by
  cases req with
  | object members =>
    simp only [processOneRequest] at h
    split at h
    · split at h
      · assumption
      · cases h
    · split at h
      · cases h
      · split at h
        · assumption
        · cases h
  | _ => cases h

end Bitmessage
