import Lint4d.Store.Publish
import Lint4d.Store.Stream

/-!
# Snapshots

`store/snapshots.rs`: a builder adds member records in batches whose first
write compares and increments the build revision.  A seal streams the manifest
digest in several read transactions and then compares and sets once.  Readers
stream the members of a sealed snapshot under a witness that recomputes the
sealed digest.
-/

namespace Lint4d.Store

open Lint4d.Lib Lint4d.Cache

variable (digests : Digests)

/-! ## Builders -/

/-- The right to add members to one building snapshot and seal it.  A copy shares
the token. -/
structure SnapshotBuilder where
  id : Nonce
  token : Nonce
  revision : Nat
  context : Digest
deriving DecidableEq

variable (builder : SnapshotBuilder)

/-- Same token, same revision, still building. -/
def SnapshotBuilder.holds (row : SnapshotRow) : Bool :=
  row.snapshotId = builder.id && row.builderToken = builder.token &&
    row.buildRevision = builder.revision && row.state = .building

variable (tables : Tables)

def heldRow (builder : SnapshotBuilder) : Option SnapshotRow :=
  tables.snapshots.rows.find? builder.holds

/-- The stored member count while `builder` still holds its build. -/
def heldCount (builder : SnapshotBuilder) : Option Nat :=
  (heldRow tables builder).map SnapshotRow.memberCount

lemma heldRow_eq_some {tables : Tables} {builder : SnapshotBuilder} {row : SnapshotRow}
    (h : heldRow tables builder = some row) :
    row ∈ tables.snapshots ∧ row.snapshotId = builder.id ∧ row.builderToken = builder.token ∧
      row.buildRevision = builder.revision ∧ row.state = .building := by
  have hholds := List.find?_some h
  simp only [SnapshotBuilder.holds, Bool.and_eq_true, decide_eq_true_eq] at hholds
  exact ⟨List.mem_of_find?_eq_some h, hholds.1.1.1, hholds.1.1.2, hholds.1.2, hholds.2⟩

/-- A build without members. -/
def SnapshotRow.begun (context : Digest) (id token : Nonce) : SnapshotRow where
  snapshotId := id
  contextKey := context
  state := .building
  builderToken := token
  buildRevision := 0
  memberCount := 0
  discoveryEvidence := none
  coverage := none
  sealedDigest := none
  publicationSeq := none

/-- The statements of `begin_snapshot`; the ID and the token are fresh nonces. -/
def insertSnapshot (context : CanonicalKey) (id token : Nonce) (lease : ProcessLease)
    (now : Nat) (tables : Tables) : Except Bypass (Tables × SnapshotBuilder) := do
  let (tables, _) ← putManifest digests tables context
  let snapshots ← insertRow tables.snapshots (.begun (context.digest digests) id token)
  let tables := ensureRow { tables with snapshots } lease now
  let leaseHolds ← insertRow tables.leaseHolds { leaseId := lease.id, snapshotId := id }
  pure ({ tables with leaseHolds }, { id, token, revision := 0, context := context.digest digests })

def beginSnapshot (context : CanonicalKey) (id token : Nonce) (txn : Txn) (lease : ProcessLease)
    (tables : Tables) : ProcessLease × Except Bypass (Tables × SnapshotBuilder) :=
  match checkManifestSize context with
  | .error bypass => (lease, .error bypass)
  | .ok () => write txn lease tables (insertSnapshot digests context id token lease txn.later)

/-! ## Members -/

/-- One more batch of members. -/
def SnapshotRow.advance (added : Nat) (row : SnapshotRow) : SnapshotRow :=
  { row with buildRevision := row.buildRevision + 1, memberCount := row.memberCount + added }

/-- Compare and increment the build revision, and make room for the members. -/
def advanceRevision (added : Nat) (tables : Tables) :
    Except Bypass (Tables × Nat) :=
  match heldRow tables builder with
  | none => .error .builderFenced
  | some row =>
    -- the `CHECK` on `member_count`
    if maxSnapshotMembers < row.memberCount + added then .error (.tooLarge (.members added))
    else .ok ({ tables with
      snapshots := tables.snapshots.update builder.holds (.advance added) fun _ => rfl },
      row.memberCount)

variable (snapshot : Nonce)

/-- Copy a live record's source key into the snapshot. -/
def insertMember (ordinal : Nat) (record : Digest) (tables : Tables) :
    Except Bypass Tables :=
  match tables.memberRecords.find? record with
  | none => .error .missingReference
  | some row =>
    if row.stored.lifecycle ≠ .live then .error .retiring
    else if tables.snapshotMembers.any fun member =>
        member.snapshotId = snapshot && member.sourceKey = row.stored.sourceKey then
      .error .duplicateMember
    else do
      let snapshotMembers ← insertRow tables.snapshotMembers
        { snapshotId := snapshot, ordinal, recordId := record, sourceKey := row.stored.sourceKey }
      pure { tables with snapshotMembers }

def insertMembers (snapshot : Nonce) (ordinal : Nat) :
    List Digest → Tables → Except Bypass Tables
  | [], tables => .ok tables
  | record :: records, tables => do
    let tables ← insertMember snapshot ordinal record tables
    insertMembers snapshot (ordinal + 1) records tables

/-- The bytes of the members from `start` on, with their record IDs. -/
def batchBytes (start added : Nat) (tables : Tables) : Nat :=
  ((tables.snapshotMembers.rows.filter fun member =>
    member.snapshotId = snapshot && start ≤ member.ordinal).map fun member =>
      member.sourceKey.length).sum + 32 * added

def checkBatch (start added : Nat) (tables : Tables) : Except Bypass Unit :=
  let bytes := batchBytes snapshot start added tables
  if maxRowBatchBytes < bytes then .error (.tooLarge (.batch bytes)) else .ok ()

def appendMembers (records : List Digest) (tables : Tables) :
    Except Bypass (Tables × SnapshotBuilder) := do
  let (tables, start) ← advanceRevision builder records.length tables
  let tables ← insertMembers builder.id start records tables
  checkBatch builder.id start records.length tables
  pure (tables, { builder with revision := builder.revision + 1 })

/-- `add_members`, which advances the caller's builder when it commits. -/
def addMembers (records : List Digest) (txn : Txn)
    (lease : ProcessLease) (tables : Tables) :
    ProcessLease × Except Bypass (Tables × SnapshotBuilder) :=
  if maxRowBatchRows < records.length then (lease, .error (.tooLarge (.rows records.length)))
  else write txn lease tables (appendMembers builder records)

/-! ## Sealing -/

/-- What a seal records besides the members. -/
structure SnapshotSeal where
  discovery : Option Digest
  coverage : SnapshotCoverage
deriving DecidableEq

/-- The members of a snapshot from an ordinal on, in ordinal order. -/
def membersFrom (start : Nat) : List MemberRow :=
  (tables.snapshotMembers.rows.filter fun member =>
    member.snapshotId = snapshot && start ≤ member.ordinal).insertionSort
      fun a b => a.ordinal ≤ b.ordinal

/-- The streaming half of a seal between two read transactions. -/
structure SealStream where
  hasher : Option Hasher := none
  storedCount : Nat := 0
  count : Nat := 0
  finished : Bool := false
deriving DecidableEq

/-- Fold one batch of rows into the digest; the ordinals must continue. -/
def hashMembers (hasher : Hasher) (count : Nat) : List MemberRow → Except Bypass (Hasher × Nat)
  | [] => .ok (hasher, count)
  | member :: members =>
    if member.ordinal ≠ count then .error (.sealRefused .countMismatch)
    else hashMembers (SnapshotHasher.update hasher member.recordId member.sourceKey) (count + 1)
      members

/-- The stored count and the digest to go on with; the first batch fixes the count
and starts the digest. -/
def SealStream.resume (stream : SealStream) (builder : SnapshotBuilder) (terms : SnapshotSeal)
    (memberCount : Nat) : Nat × Hasher :=
  match stream.hasher with
  | some hasher => (stream.storedCount, hasher)
  | none => (memberCount, SnapshotHasher.new builder.context terms.discovery terms.coverage
      (UInt64.ofNat memberCount))

variable (terms : SnapshotSeal)

/-- One read transaction of the streaming loop. -/
def streamBatch (txn : ReadTxn)
    (stream : SealStream) (tables : Tables) : Except Bypass SealStream := do
  txn.begin
  txn.ensureLive
  match heldCount tables builder with
  | none => .error .builderFenced
  | some memberCount =>
    let (storedCount, hasher) := stream.resume builder terms memberCount
    let rows := (membersFrom tables builder.id stream.count).take maxRowBatchRows
    let (hasher, count) ← hashMembers hasher stream.count rows
    pure { hasher := some hasher, storedCount, count, finished := rows.length < maxRowBatchRows }

/-- The digest of a finished stream, if it met as many rows as were stored. -/
def SealStream.digest (stream : SealStream) : Except Bypass Digest :=
  match stream.hasher with
  | some hasher =>
    if stream.finished ∧ stream.count = stream.storedCount then
      .ok (hasher.finish digests.manifest)
    else .error (.sealRefused .countMismatch)
  | none => .error (.sealRefused .countMismatch)

/-- A sealed snapshot as a reader gets it. -/
structure SnapshotHeader where
  id : Nonce
  context : Digest
  memberCount : Nat
  discovery : Option Digest
  coverage : SnapshotCoverage
  sealedDigest : Digest
  publicationSeq : Nat
deriving DecidableEq

/-- Some member's record is missing or retired. -/
def hasRetiredMember : Bool :=
  tables.snapshotMembers.any fun member =>
    member.snapshotId = snapshot &&
      !tables.memberRecords.any fun row => row.recordId = member.recordId && row.isLive

/-- Discovery evidence must be live discovery evidence of the snapshot's context. -/
def requireDiscovery (context discovery : Digest) : Except Bypass Unit :=
  match requireEvidence tables discovery .discovery none with
  | .error (.invalidRecord .evidencePurpose) => .error (.sealRefused .discoveryEvidence)
  | .error bypass => .error bypass
  | .ok () =>
    if tables.evidenceSets.any fun row =>
        row.evidenceId = discovery && row.stored.contextKey = context then .ok ()
    else .error (.sealRefused .discoveryEvidence)

def checkCount (stored count : Nat) : Except Bypass Unit :=
  if stored ≠ count then .error (.sealRefused .countMismatch) else .ok ()

def checkMembers : Except Bypass Unit :=
  if hasRetiredMember tables snapshot then .error (.sealRefused .retiredRecord) else .ok ()

def SnapshotRow.complete (digest : Digest) (sequence : Nat)
    (row : SnapshotRow) : SnapshotRow :=
  { row with
    state := .sealed
    sealedDigest := some digest
    coverage := some terms.coverage.encode
    discoveryEvidence := terms.discovery
    publicationSeq := some sequence }

/-- Compare token, revision and state, and set once. -/
def setSealed (digest : Digest)
    (tables : Tables) : Tables × Nat :=
  let (tables, sequence) := nextPublicationSeq tables
  ({ tables with
    snapshots := tables.snapshots.update builder.holds (.complete terms digest sequence)
      fun _ => rfl
    leaseHolds := tables.leaseHolds.delete fun row => row.snapshotId = builder.id }, sequence)

/-- The statements of the sealing transaction. -/
def sealStatements (count : Nat)
    (digest : Digest) (tables : Tables) : Except Bypass (Tables × SnapshotHeader) :=
  match heldCount tables builder with
  | none => .error .builderFenced
  | some memberCount => do
    checkCount memberCount count
    checkMembers tables builder.id
    terms.discovery.forM (requireDiscovery tables builder.context)
    let (tables, sequence) := setSealed builder terms digest tables
    pure (tables, {
      id := builder.id
      context := builder.context
      memberCount := count
      discovery := terms.discovery
      coverage := terms.coverage
      sealedDigest := digest
      publicationSeq := sequence })

/-- The final transaction of `seal_snapshot`, for a digest that was streamed. -/
def sealSnapshot (count : Nat)
    (digest : Digest) (txn : Txn) (lease : ProcessLease) (tables : Tables) :
    ProcessLease × Except Bypass (Tables × SnapshotHeader) :=
  write txn lease tables (sealStatements builder terms count digest)

/-! ## Retirement -/

def SnapshotRow.retire (row : SnapshotRow) : SnapshotRow := { row with state := .retired }

lemma SnapshotRow.key_retire (row : SnapshotRow) :
    Lib.Keyed.key row.retire = Lib.Keyed.key row := rfl

/-- The rows `retire_where` changes: a build under its token, or any building or
sealed snapshot. -/
def retires (id : Nonce) (token : Option Nonce) (row : SnapshotRow) : Bool :=
  row.snapshotId = id && match token with
    | some token => row.builderToken = token && row.state = .building
    | none => row.isActive

def retireWhere (id : Nonce) (token : Option Nonce) (txn : Txn) (tables : Tables) :
    Except Bypass (Tables × Bool) := do
  txn.begin
  txn.ensureLive
  txn.refuseAtWalThreshold
  let changed := tables.snapshots.any (retires id token)
  let retired := { tables with
    snapshots := tables.snapshots.update (retires id token) .retire SnapshotRow.key_retire }
  let released := if changed then
      { retired with leaseHolds := retired.leaseHolds.delete fun row => row.snapshotId = id }
    else retired
  txn.finish (.ok (released, changed))

def retireBuild : Txn → Tables → Except Bypass (Tables × Bool) :=
  retireWhere builder.id (some builder.token)

def retireSnapshot (id : Nonce) : Txn → Tables → Except Bypass (Tables × Bool) :=
  retireWhere id none

def RecordRow.retire (row : RecordRow) : RecordRow :=
  { row with stored := { row.stored with lifecycle := .retired } }

lemma RecordRow.key_retire (row : RecordRow) : Lib.Keyed.key row.retire = Lib.Keyed.key row := rfl

/-- `retire_member_record`, which checks no reference. -/
def retireMemberRecord (id : Digest) (txn : Txn) (tables : Tables) :
    Except Bypass (Tables × Bool) := do
  txn.begin
  txn.ensureLive
  txn.refuseAtWalThreshold
  let isTarget := fun row : RecordRow => row.recordId = id && row.isLive
  txn.finish (.ok ({ tables with
    memberRecords := tables.memberRecords.update isTarget .retire RecordRow.key_retire },
    tables.memberRecords.any isTarget))

/-! ## Reading -/

/-- A header from stored columns, or `none` if any is out of range. -/
def headerFrom (context : Digest) (row : SnapshotRow) : Option SnapshotHeader := do
  guard (row.memberCount ≤ maxSnapshotMembers)
  let coverage ← row.coverage
  let coverage ← (decodeSnapshotCoverage coverage).toOption
  let sealedDigest ← row.sealedDigest
  let publicationSeq ← row.publicationSeq
  pure { id := row.snapshotId, context, memberCount := row.memberCount,
         discovery := row.discoveryEvidence, coverage, sealedDigest, publicationSeq }

/-- Compare the retained manifest of `key` with `key`. -/
def admitManifest (key : CanonicalKey) : Lookup Unit :=
  match tables.keyManifests.find? (key.digest digests) with
  | none => .miss .absent
  | some row => if row.manifest = key.manifest then .hit () else .miss .keyMismatch

/-- `newest_first` over the sealed snapshots of a context. -/
def newestSealed (context : Digest) : List SnapshotRow :=
  ((tables.snapshots.rows.filter fun row =>
    row.contextKey = context && row.state = .sealed).insertionSort
      fun a b => b.publicationSeq.getD 0 ≤ a.publicationSeq.getD 0).take maxSnapshotCandidates

def findSnapshots (context : CanonicalKey) (txn : ReadTxn) (tables : Tables) :
    Except Bypass (Lookup (List SnapshotHeader)) := do
  txn.begin
  txn.ensureLive
  match admitManifest digests tables context with
  | .miss miss => pure (.miss miss)
  | .hit () =>
    match (newestSealed tables (context.digest digests)).mapM
        (headerFrom (context.digest digests)) with
    | none => pure (.miss (.malformed .snapshot))
    | some [] => pure (.miss .absent)
    | some headers => pure (.hit headers)

structure SnapshotMember where
  ordinal : Nat
  recordId : Digest
  sourceKey : Bytes
deriving DecidableEq

/-- The rows of one snapshot: members whose record is still live, folded into the
sealed digest. -/
def memberSource :
    RowSource Hasher (MemberRow × Option Lifecycle) SnapshotMember where
  parent tables := (tables.snapshots.find? snapshot).map fun row => row.state = .sealed
  rows tables start := (membersFrom tables snapshot start).map fun member =>
    (member.ordinal, member,
      (tables.memberRecords.find? member.recordId).map fun row => row.stored.lifecycle)
  size row := row.1.recordId.bytes.length + row.1.sourceKey.length
  take hasher ordinal row :=
    match row.2 with
    | none => .error .vanished
    | some .retired => .error .retired
    | some .live => .ok (
        { ordinal, recordId := row.1.recordId, sourceKey := row.1.sourceKey },
        SnapshotHasher.update hasher row.1.recordId row.1.sourceKey)
  finish hasher := hasher.finish digests.manifest

/-- `read_snapshot`. -/
def readSnapshot (header : SnapshotHeader) : ManifestReader Hasher :=
  .new { count := header.memberCount, contentBytes := none, witness := header.sealedDigest }
    (SnapshotHasher.new header.context header.discovery header.coverage
      (UInt64.ofNat header.memberCount))

end Lint4d.Store
