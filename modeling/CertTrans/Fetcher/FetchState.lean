import CertTrans.Fetcher.Replication

/-!
`FetchLogEntries` (`fetcher.cc`): bringing the local database up to the tree size of a peer group.

A `FetchState` keeps `start_`, the first index it has not settled, and the list of `Range`s past
it, each one fetched (`HAVE`), being fetched (`FETCHING`) or wanted (`WANT`).  `WalkEntries`
prunes the list at its front, merges neighbours in one state, and starts fetches of at most
`fetcher_batch_size` entries until `fetcher_concurrent_fetches` ranges are being fetched;
`WriteToDatabase` inserts what a fetch brought back and marks its range.

A `Range*` is the address of a node of the list: a range carries its address, and the state
allocates fresh ones.  `WriteToDatabase` finds its range by that address.  The database is a
parameter, through the two calls the fetcher makes on it, and so are the two flags.  The task of
the fetch is the status it returned with, `none` while it runs.  The peer group's tree size is
an `int64_t` that is `-1` without peers, hence an `Int`.

The fetches in flight and the callbacks they end in are the events of `FetchState.Fetcher.step`:
a walk, which the code runs from the constructor and whenever a range task is done, may happen
at any time here; a fetch may complete at any time once started.
-/

namespace CertTrans

inductive Range.State
  | haveEntries
  | fetching
  | want
deriving DecidableEq, Repr

structure Range where
  id : Nat
  state : Range.State
  size : Nat
deriving DecidableEq, Repr

structure DatabaseOps (DB : Type) where
  treeSize : DB → Nat
  createSequencedEntry : DB → LoggedEntryPB → Database.WriteResult × DB

inductive TaskStatus
  | ok
  | cancelled
  | failedPrecondition (message : String)
  | internal (message : String)
deriving DecidableEq, Repr

structure FetchState where
  start : Nat
  entries : List Range := []
  nextId : Nat := 0
  status : Option TaskStatus := none
deriving DecidableEq, Repr

structure FetchState.Fetch where
  index : Nat
  range : Nat
  endIndex : Int
deriving DecidableEq, Repr

inductive FetchState.FetchResult
  | failed
  | fetched (entries : List AsyncLogClient.Entry)

inductive FetchState.WriteStop
  | format
  | sctVerifyFailed (message : String)
  | createFailed
deriving DecidableEq, Repr

namespace FetchState

/-- `Task::Return`: only the first status counts. -/
def returnTask (s : FetchState) (status : TaskStatus) : FetchState :=
  match s.status with
  | none => { s with status := some status }
  | some _ => s

def init (dbTreeSize : Nat) (remoteTreeSize : Int) : FetchState :=
  if remoteTreeSize ≤ dbTreeSize then { start := dbTreeSize, status := some .ok }
  else { start := dbTreeSize, entries := [⟨0, .want, (remoteTreeSize - dbTreeSize).toNat⟩], nextId := 1 }

def prune (remoteTreeSize : Int) : Nat → List Range → Nat × List Range
  | start, [] => (start, [])
  | start, r :: rest =>
    if r.state = .haveEntries ∨ (r.state = .want ∧ remoteTreeSize < start) then
      prune remoteTreeSize (start + r.size) rest
    else (start, r :: rest)

def coalesce (current : Range) : List Range → Range × List Range
  | [] => (current, [])
  | next :: rest =>
    if next.state = current.state then coalesce { current with size := current.size + next.size } rest
    else (current, next :: rest)

theorem length_coalesce_le (current : Range) (rest : List Range) :
    (coalesce current rest).2.length ≤ rest.length := by
  induction rest generalizing current with
  | nil => exact le_refl _
  | cons next rest ih =>
    rw [coalesce]
    split
    · exact (ih _).trans (Nat.le_succ _)
    · exact le_refl _

def coalesceRange (current : Range) (rest : List Range) : Range × List Range :=
  if current.state ≠ .fetching then coalesce current rest else (current, rest)

theorem length_coalesceRange_le (current : Range) (rest : List Range) :
    (coalesceRange current rest).2.length ≤ rest.length := by
  unfold coalesceRange
  split
  · exact length_coalesce_le current rest
  · exact le_refl _

def splitRange (batchSize nextId : Nat) (current : Range) (rest : List Range) :
    Range × List Range × Nat :=
  if current.size > batchSize then
    ({ current with size := batchSize }, ⟨nextId, .want, current.size - batchSize⟩ :: rest, nextId + 1)
  else (current, rest, nextId)

variable (batchSize concurrentFetches : Nat)

def walkFrom (remoteTreeSize : Int) (index numFetch nextId : Nat) (ranges : List Range) :
    List Range × List Fetch × Nat :=
  match ranges with
  | [] => ([], [], nextId)
  | current :: rest =>
    match hstate : (coalesceRange current rest).1.state with
    | .haveEntries =>
      if numFetch ≥ concurrentFetches ∨ index ≥ remoteTreeSize then
        ((coalesceRange current rest).1 :: (coalesceRange current rest).2, [], nextId)
      else
        let next := walkFrom remoteTreeSize (index + (coalesceRange current rest).1.size) numFetch
          nextId (coalesceRange current rest).2
        ((coalesceRange current rest).1 :: next.1, next.2.1, next.2.2)
    | .fetching =>
      if numFetch + 1 ≥ concurrentFetches ∨ index ≥ remoteTreeSize then
        ((coalesceRange current rest).1 :: (coalesceRange current rest).2, [], nextId)
      else
        let next := walkFrom remoteTreeSize (index + (coalesceRange current rest).1.size)
          (numFetch + 1) nextId (coalesceRange current rest).2
        ((coalesceRange current rest).1 :: next.1, next.2.1, next.2.2)
    | .want =>
      if index ≥ remoteTreeSize then
        ((coalesceRange current rest).1 :: (coalesceRange current rest).2, [], nextId)
      else
        let split := splitRange batchSize nextId (coalesceRange current rest).1
          (coalesceRange current rest).2
        let fetching : Range := { split.1 with state := .fetching }
        let fetch : Fetch := ⟨index, fetching.id, index + fetching.size - 1⟩
        if numFetch + 1 ≥ concurrentFetches then (fetching :: split.2.1, [fetch], split.2.2)
        else
          let next := walkFrom remoteTreeSize (index + fetching.size) (numFetch + 1) split.2.2
            split.2.1
          (fetching :: next.1, fetch :: next.2.1, next.2.2)
termination_by (concurrentFetches - numFetch, ranges.length)
decreasing_by
  · apply Prod.Lex.right
    have := length_coalesceRange_le current rest
    simp only [List.length_cons]
    omega
  · apply Prod.Lex.left
    omega
  · apply Prod.Lex.left
    omega

theorem walkFrom_fetches_sublist (remoteTreeSize : Int) (index numFetch nextId : Nat)
    (ranges : List Range) :
    ((walkFrom batchSize concurrentFetches remoteTreeSize index numFetch nextId ranges).2.1.map
      Fetch.range).Sublist
      ((walkFrom batchSize concurrentFetches remoteTreeSize index numFetch nextId ranges).1.map
        Range.id) := by
  fun_induction walkFrom batchSize concurrentFetches remoteTreeSize index numFetch nextId ranges
  case case1 | case2 | case4 | case6 => exact List.nil_sublist _
  case case3 ih | case5 ih => exact ih.cons _
  case case7 => exact (List.nil_sublist _).cons_cons _
  case case8 ih => exact ih.cons_cons _

/-- `WalkEntries` at a time the peer group has `remoteTreeSize` entries: the state after it,
and the fetches it started. -/
def walkEntries (remoteTreeSize : Int) (cancelRequested : Bool) (s : FetchState) :
    FetchState × List Fetch :=
  if s.status.isSome then (s, [])
  else if cancelRequested then (s.returnTask .cancelled, [])
  else
    let pruned := prune remoteTreeSize s.start s.entries
    if pruned.2 = [] then ({ s with start := pruned.1, entries := [] }.returnTask .ok, [])
    else
      let walked := walkFrom batchSize concurrentFetches remoteTreeSize pruned.1 0 s.nextId pruned.2
      ({ s with start := pruned.1, entries := walked.1, nextId := walked.2.2 }, walked.2.1)

/-- `updateRange id f ranges` puts `f r` in place of the range `r` at address `id`. -/
def updateRange (id : Nat) (f : Range → List Range) : List Range → List Range
  | [] => []
  | r :: rest => if r.id = id then f r ++ rest else r :: updateRange id f rest

def markFetched (nextId processed : Nat) (range : Range) : List Range :=
  if processed > 0 then
    if range.size > processed then
      [{ range with state := .haveEntries, size := processed }, ⟨nextId, .want, range.size - processed⟩]
    else [{ range with state := .haveEntries }]
  else [{ range with state := .want }]

section Write

variable {DB : Type} (database : DatabaseOps DB) (config : SerializerConfig)
  (verifier : LogVerifier) (now : UInt64)

def writeEntries (index : Nat) : List AsyncLogClient.Entry → DB →
    Except String (Nat × Option WriteStop × DB)
  | [], db => .ok (0, none, db)
  | entry :: rest, db => do
    match ← writeToDatabaseEntry config verifier now index entry with
    | .error .format => return (0, some .format, db)
    | .error (.sctVerifyFailed message) => return (0, some (.sctVerifyFailed message), db)
    | .ok cert =>
      match database.createSequencedEntry db cert with
      | (.ok, db) => do
        let written ← writeEntries (index + 1) rest db
        return (written.1 + 1, written.2.1, written.2.2)
      | (.sequenceNumberAlreadyInUse, db) => return (0, some .createFailed, db)

/-- `WriteToDatabase` for the fetch `fetch`, when it completes with `result`. -/
def writeToDatabase (s : FetchState) (db : DB) (fetch : Fetch) (result : FetchResult) :
    Except String (FetchState × DB) :=
  match result with
  | .failed => .ok ({ s with entries := updateRange fetch.range (fun r => [{ r with state := .want }]) s.entries }, db)
  | .fetched entries => do
    if entries = [] then throw "Check failed: retval->size() > 0"
    let written ← writeEntries database config verifier now fetch.index entries db
    match written.2.1 with
    | some (.sctVerifyFailed message) => return (s.returnTask (.failedPrecondition message), written.2.2)
    | _ =>
      let s := { s with entries := updateRange fetch.range (markFetched s.nextId written.1) s.entries,
                        nextId := s.nextId + 1 }
      if written.1 < entries.length then
        return (s.returnTask (.internal "could not write some entries to the database"), written.2.2)
      else return (s, written.2.2)

end Write

structure Fetcher (DB : Type) where
  state : FetchState
  db : DB
  pending : List Fetch

inductive Event
  | walk (remoteTreeSize : Int) (cancelRequested : Bool)
  | complete (fetch : Fetch) (now : UInt64) (result : FetchResult)

section Run

variable {DB : Type} (database : DatabaseOps DB) (config : SerializerConfig) (verifier : LogVerifier)

/-- `FetchLogEntries` on `db` against a peer group of `remoteTreeSize` entries, before the walk
of the constructor. -/
def Fetcher.start (db : DB) (remoteTreeSize : Int) : Fetcher DB :=
  { state := init (database.treeSize db) remoteTreeSize, db, pending := [] }

def Fetcher.step (f : Fetcher DB) : Event → Except String (Fetcher DB)
  | .walk remoteTreeSize cancelRequested =>
    let walked := f.state.walkEntries batchSize concurrentFetches remoteTreeSize cancelRequested
    .ok { f with state := walked.1, pending := f.pending ++ walked.2 }
  | .complete fetch now result =>
    if fetch ∈ f.pending then do
      let written ← f.state.writeToDatabase database config verifier now f.db fetch result
      return { state := written.1, db := written.2, pending := f.pending.erase fetch }
    else .ok f

def Fetcher.run (f : Fetcher DB) (events : List Event) : Except String (Fetcher DB) :=
  events.foldlM (fun f e => f.step batchSize concurrentFetches database config verifier e) f

end Run

end FetchState

end CertTrans
