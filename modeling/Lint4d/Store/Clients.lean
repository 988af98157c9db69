import Lint4d.Store.SnapshotViews

/-!
# The store and its clients

Besides the tables and the leases, a run has what the clients of the store
hold: builders and their copies, seals between two of their transactions,
headers that were found and readers.  One event is one transaction of one
client, so the transactions of different calls interleave in every order.

Nothing a client holds is used up: a builder that was cloned, a seal that is
tried again and a header that is read twice are events on the same value.
-/

namespace Lint4d.Store

open Lint4d.Lib Lint4d.Cache Lint4d.Facts

variable (digests : Digests)

/-! ## What clients hold -/

/-- A call of `seal_snapshot` between two of its transactions. -/
structure SealCall where
  builder : SnapshotBuilder
  terms : SnapshotSeal
  stream : SealStream
deriving DecidableEq

/-- A snapshot reader and the header it was opened with. -/
structure SnapshotReader where
  header : SnapshotHeader
  reader : ManifestReader Hasher
deriving DecidableEq

def SnapshotReader.new (header : SnapshotHeader) : SnapshotReader :=
  { header, reader := readSnapshot header }

/-- A bypass inside a batch leaves the reader as one before it does, so a client's transaction
has only the latter. -/
def SnapshotReader.nextBatch (txn : ReadTxn) (tables : Tables) (reader : SnapshotReader) :
    SnapshotReader :=
  { reader with
    reader := ((memberSource digests reader.header.id).nextBatch txn.undisturbed reader.reader
      tables).1 }

structure Clients where
  world : World
  builders : List SnapshotBuilder
  seals : List SealCall
  headers : List SnapshotHeader
  readers : List SnapshotReader

/-- An empty scope and no clients yet. -/
def Clients.initial (seq : Nat) : Clients where
  world := .initial seq
  builders := []
  seals := []
  headers := []
  readers := []

/-! ## Events -/

inductive Event where
  /-- A process opens or drops its store or runs an operation other than a seal. -/
  | act (step : Step)
  | startSeal (builder : SnapshotBuilder) (terms : SnapshotSeal)
  /-- One read transaction of a seal's streaming loop. -/
  | streamBatch (call : SealCall) (txn : ReadTxn)
  /-- The write transaction of a seal whose digest was streamed. -/
  | commitSeal (call : SealCall) (process : Nat) (txn : Txn)
  | findSnapshots (context : CanonicalKey) (txn : ReadTxn)
  | readSnapshot (header : SnapshotHeader)
  /-- The next batch of the reader at an index. -/
  | nextBatch (index : Nat) (txn : ReadTxn)

/-- The builder an operation is called with. -/
def Op.builder : Op → Option SnapshotBuilder
  | addMembers builder _ => some builder
  | sealSnapshot builder _ _ _ => some builder
  | retireBuild builder => some builder
  | _ => none

variable (clients : Clients)

/-- A client has the builder the step needs; a seal commits through its call. -/
def Clients.offers (step : Step) : Bool :=
  match step.action with
  | .run (.sealSnapshot ..) => false
  | .run op => op.builder.all fun builder => builder ∈ clients.builders
  | _ => true

/-- What a committed step returns. -/
def World.reply (world : World) (step : Step) : Option Reply :=
  match step.action, world.leases step.process with
  | .run op, some lease =>
    match (op.run digests step.txn lease world.tables).2 with
    | .ok (_, reply) => some reply
    | .error _ => none
  | _, _ => none

/-- The builder a call returns, or leaves in its argument. -/
def Reply.issued : Reply → Option SnapshotBuilder
  | builder issued => some issued
  | _ => none

/-- The sealing step of a call whose stream has ended. -/
def SealCall.step (call : SealCall) (digest : Digest) (process : Nat) (txn : Txn) : Step where
  process := process
  action := .run (.sealSnapshot call.builder call.terms call.stream.count digest)
  txn := txn

/-- The step of the store that an event takes, if the clients can take it. -/
def Clients.storeStep : Event → Option Step
  | .act step => if clients.offers step then some step else none
  | .commitSeal call process txn =>
    if call ∈ clients.seals then
      match call.stream.digest digests with
      | .ok digest => some (call.step digest process txn)
      | .error _ => none
    else none
  | _ => none

/-- What an event adds to what the clients hold. -/
def Clients.gain (event : Event) : Clients :=
  match event with
  | .startSeal builder terms =>
    if builder ∈ clients.builders then
      { clients with seals := clients.seals ++ [{ builder, terms, stream := {} }] }
    else clients
  | .streamBatch call txn =>
    if call ∈ clients.seals ∧ call.stream.finished = false then
      match Store.streamBatch call.builder call.terms txn call.stream clients.world.tables with
      | .ok stream => { clients with seals := clients.seals ++ [{ call with stream }] }
      | .error _ => clients
    else clients
  | .findSnapshots context txn =>
    match Store.findSnapshots digests context txn clients.world.tables with
    | .ok (.hit headers) => { clients with headers := clients.headers ++ headers }
    | _ => clients
  | .readSnapshot header =>
    if header ∈ clients.headers then
      { clients with readers := clients.readers ++ [.new header] }
    else clients
  | .nextBatch index txn =>
    { clients with
      readers := clients.readers.modify index (.nextBatch digests txn clients.world.tables) }
  | _ => clients

lemma Clients.gain_world (event : Event) :
    (clients.gain digests event).world = clients.world := by
  cases event with
  | streamBatch =>
    simp only [gain]
    split
    · split <;> rfl
    · rfl
  | startSeal | findSnapshots | readSnapshot =>
    simp only [gain]
    split <;> rfl
  | _ => rfl

/-- The clients after a step of the store. -/
def Clients.afterStep (step : Step) : Clients :=
  { clients with
    world := clients.world.step digests step
    builders := clients.builders ++ ((clients.world.reply digests step).bind Reply.issued).toList }

def Clients.step (clients : Clients) (event : Event) : Clients :=
  match clients.storeStep digests event with
  | some step => clients.afterStep digests step
  | none => clients.gain digests event

def Clients.run (events : List Event) : Clients :=
  events.foldl (Clients.step digests) clients

lemma Clients.run_append (events later : List Event) :
    clients.run digests (events ++ later) = (clients.run digests events).run digests later :=
  List.foldl_append ..

lemma Clients.run_append_singleton (events : List Event) (event : Event) :
    clients.run digests (events ++ [event]) = (clients.run digests events).step digests event :=
  List.foldl_append ..

/-! ## Commits -/

/-- The build and the revision that a step adds members to or seals. -/
def Step.revision (step : Step) : Option (Nonce × Nat) :=
  match step.action with
  | .run (.addMembers builder _) => some (builder.id, builder.revision)
  | .run (.sealSnapshot builder _ _ _) => some (builder.id, builder.revision)
  | _ => none

/-- The build and the revision that an event commits. -/
def Clients.committed (event : Event) : Option (Nonce × Nat) :=
  (clients.storeStep digests event).bind fun step =>
    if (clients.world.reply digests step).isSome then step.revision else none

/-- The builds and revisions that a run commits, in order. -/
def Clients.commitLog (clients : Clients) : List Event → List (Nonce × Nat)
  | [] => []
  | event :: events =>
    (clients.committed digests event).toList ++ commitLog (clients.step digests event) events

end Lint4d.Store
