import CertTrans.Log.LogLookup

/-!
The read endpoints of `HttpHandler` in `handler.cc`: `get-sth`,
`get-proof-by-hash`, `get-sth-consistency` and `get-entries`, with the query
helpers of `libevent_wrapper.cc` they read their parameters through.

A request is its command and its parsed query; a reply is `SendJsonError`'s
status and message or `SendJsonReply`'s status and body.  The base64 decoder
`util::FromBase64` (the resolver library's `b64_pton`) is a parameter, and
the byte strings of a reply body are kept as bytes rather than base64 text.
-/

namespace CertTrans

namespace HttpHandler

/-- `evhttp_cmd_type`. -/
inductive Command
  | get
  | post
  | head
  | put
  | delete
  | options
  | trace
  | connect
  | patch
deriving DecidableEq, Repr

/-- `libevent::QueryParams`, a `std::multimap<string, string>`, as its
entries. -/
abbrev QueryParams := List (String × String)

structure Request where
  command : Command
  query : QueryParams
deriving DecidableEq, Repr

def httpOk : Nat := 200

def httpBadRequest : Nat := 400

def httpBadMethod : Nat := 405

def httpInternal : Nat := 500

structure EntryJson where
  leafInput : ByteString
  extraData : ByteString
  sct : Option ByteString
deriving DecidableEq, Repr

inductive Json
  | sth (sth : SignedTreeHead)
  | proof (leafIndex : Nat) (auditPath : List ByteString)
  | consistency (proof : List ByteString)
  | entries (entries : List EntryJson)
deriving DecidableEq, Repr

inductive Reply
  | json (code : Nat) (body : Json)
  | error (code : Nat) (message : String)
deriving DecidableEq, Repr

/-- `GetParam`: the value of a parameter given exactly once; a duplicate
parameter is invalid. -/
def getParam (query : QueryParams) (param : String) : Option String :=
  match query.filter (·.1 == param) with
  | [(_, value)] => some value
  | _ => none

def isSpace (c : Char) : Bool :=
  c == ' ' || c == '\t' || c == '\n' || c == '\x0b' || c == '\x0c' || c == '\r'

def readDigits : List Char → Nat → Nat
  | [], n => n
  | c :: cs, n => if c.isDigit then readDigits cs (10 * n + (c.toNat - '0'.toNat)) else n

/-- `strtol(value, NULL, 10)`, with `none` where it sets `errno` (a value that
overflows a 64-bit `long`).  No digits read as `0`. -/
def strtol (value : String) : Option Int :=
  let cs := value.toList.dropWhile isSpace
  let (negative, digits) : Bool × List Char :=
    match cs with
    | '-' :: rest => (true, rest)
    | '+' :: rest => (false, rest)
    | _ => (false, cs)
  let n := readDigits digits 0
  let num : Int := if negative then -(n : Int) else n
  if num < -2 ^ 63 ∨ num > 2 ^ 63 - 1 then none else some num

/-- `GetIntParam`: `-1` for a missing, duplicate or malformed parameter, and
for one that does not fit the `int` it is read into. -/
def getIntParam (query : QueryParams) (param : String) : Int :=
  match getParam query param with
  | none => -1
  | some value =>
      match strtol value with
      | none => -1
      | some num => if num < -2 ^ 31 ∨ num > 2 ^ 31 - 1 then -1 else num

/-- `GetBoolParam`: a parameter given exactly once as `true`. -/
def getBoolParam (query : QueryParams) (param : String) : Bool :=
  match getParam query param with
  | some value => value == "true"
  | none => false

variable (th : TreeHasher) (fromBase64 : String → ByteString)

/-- `GetSTH`. -/
def getSTH (l : LogLookup) (req : Request) : Reply :=
  if req.command ≠ .get then .error httpBadMethod "Method not allowed."
  else .json httpOk (.sth l.latestTreeHead)

/-- `GetProof`: the audit path of a leaf hash in the tree of a given size. -/
def getProof (l : LogLookup) (req : Request) : Reply × LogLookup :=
  if req.command ≠ .get then (.error httpBadMethod "Method not allowed.", l)
  else
    match getParam req.query "hash" with
    | none => (.error httpBadRequest "Missing or invalid \"hash\" parameter.", l)
    | some b64Hash =>
        let hash := fromBase64 b64Hash
        if hash.isEmpty then (.error httpBadRequest "Invalid \"hash\" parameter.", l)
        else
          let treeSize := getIntParam req.query "tree_size"
          if treeSize < 0 ∨ treeSize > l.latestTreeHead.treeSize then
            (.error httpBadRequest "Missing or invalid \"tree_size\" parameter.", l)
          else
            match l.auditProofByHash th hash treeSize.toNat with
            | none => (.error httpBadRequest "Couldn't find hash.", l)
            | some (proof, l) => (.json httpOk (.proof proof.leafIndex proof.pathNode), l)

/-- `GetConsistency`: the consistency proof between two tree sizes. -/
def getConsistency (l : LogLookup) (req : Request) : Reply × LogLookup :=
  if req.command ≠ .get then (.error httpBadMethod "Method not allowed.", l)
  else
    let first := getIntParam req.query "first"
    if first < 0 then (.error httpBadRequest "Missing or invalid \"first\" parameter.", l)
    else
      let second := getIntParam req.query "second"
      if second < first then (.error httpBadRequest "Missing or invalid \"second\" parameter.", l)
      else
        let (consistency, l) := l.consistencyProof th first.toNat second.toNat
        (.json httpOk (.consistency consistency), l)

section GetEntries

variable (serializeForLeaf serializeExtraData serializeSCT : LoggedEntry → Option ByteString)

def entryJson (includeScts : Bool) (entry : LoggedEntry) : Option EntryJson := do
  let leafInput ← serializeForLeaf entry
  let extraData ← serializeExtraData entry
  let sct ← if includeScts then some <$> serializeSCT entry else pure none
  return ⟨leafInput, extraData, sct⟩

def getEntriesFrom (includeScts : Bool) (i last : Int) :
    List LoggedEntry → Option (List EntryJson)
  | [] => some []
  | entry :: rest =>
      if last < i ∨ entry.sequenceNumber.getD 0 ≠ i then some []
      else do
        let jsonEntry ← entryJson serializeForLeaf serializeExtraData serializeSCT includeScts entry
        let rest ← getEntriesFrom includeScts (i + 1) last rest
        return jsonEntry :: rest

def entriesReply : Option (List EntryJson) → Reply
  | none => .error httpInternal "Serialization failed."
  | some [] => .error httpBadRequest "Entry not found."
  | some jsonEntries => .json httpOk (.entries jsonEntries)

/-- `BlockingGetEntries` over `db_->ScanEntries`, given as `scanEntries`. -/
def blockingGetEntries (scanEntries : Int → Except String (List LoggedEntry)) (start last : Int)
    (includeScts : Bool) : Except String Reply := do
  let entries ← scanEntries start
  return entriesReply
    (getEntriesFrom serializeForLeaf serializeExtraData serializeSCT includeScts start last entries)

/-- `GetEntries`, with the flag `max_leaf_entries_per_response` (an `int32`,
`1000` by default). -/
def getEntries (maxLeafEntriesPerResponse : Int)
    (scanEntries : Int → Except String (List LoggedEntry)) (req : Request) :
    Except String Reply :=
  if req.command ≠ .get then return .error httpBadMethod "Method not allowed."
  else
    let start := getIntParam req.query "start"
    if start < 0 then return .error httpBadRequest "Missing or invalid \"start\" parameter."
    else
      let last := getIntParam req.query "end"
      if last < start then return .error httpBadRequest "Missing or invalid \"end\" parameter."
      else
        let last := min last (start + maxLeafEntriesPerResponse)
        let includeScts := getBoolParam req.query "include_scts"
        blockingGetEntries serializeForLeaf serializeExtraData serializeSCT scanEntries start last
          includeScts

end GetEntries

inductive Event
  | notifySTH (scanEntries : Int → Except String (List LoggedEntry)) (sth : SignedTreeHead)
  | getSTH (req : Request)
  | getProof (req : Request)
  | getConsistency (req : Request)

variable (serializeForLeaf : LoggedEntry → ByteString)

def step (l : LogLookup) : Event → Except String LogLookup
  | .notifySTH scanEntries sth => l.updateFromSTH th serializeForLeaf scanEntries sth
  | .getSTH _ => return l
  | .getProof req => return (getProof th fromBase64 l req).2
  | .getConsistency req => return (getConsistency th l req).2

def run (events : List Event) : Except String LogLookup :=
  events.foldlM (step th fromBase64 serializeForLeaf) LogLookup.new

end HttpHandler

end CertTrans
