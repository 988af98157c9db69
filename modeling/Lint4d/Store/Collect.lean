import Lint4d.Store.Snapshots

/-!
# Retirement and deletion

`store/gc.rs`: one maintenance transaction retires at most a batch of rows of
one kind, top-down from the snapshots to the artifacts.  Retired rows are
deleted later, children first, by `reclaim` (`store/namespaces.rs`), which
first deletes the rows of whole retired scopes.
-/

namespace Lint4d.Store

open Lint4d.Lib Lint4d.Cache

/-! ## Limits -/

structure MaintenanceLimits where
  keepSnapshots : Nat
  keepSnapshotsUnderPressure : Nat
  recencyWindow : Nat
  batchRows : Nat
  vacuumPages : Nat
  vacuumFreeBytes : Nat
deriving DecidableEq

def MaintenanceLimits.default : MaintenanceLimits where
  keepSnapshots := 4
  keepSnapshotsUnderPressure := 1
  recencyWindow := 65536
  batchRows := 256
  vacuumPages := 256
  vacuumFreeBytes := 64 * 1024 * 1024

/-- The bound a `MaintenanceLimits` breaks. -/
inductive MaintenanceLimitsError where
  | keepSnapshots
  | keepSnapshotsUnderPressure
  | recencyWindow
  | batchRows
  | vacuumPages
deriving DecidableEq

/-- `(1..=most).contains(&value)`. -/
def isCountUpTo (most value : Nat) : Bool := 1 ≤ value && value ≤ most

def MaintenanceLimits.validate (limits : MaintenanceLimits) : Except MaintenanceLimitsError Unit :=
  let max := MaintenanceLimits.default
  if !isCountUpTo max.keepSnapshots limits.keepSnapshots then .error .keepSnapshots
  else if !isCountUpTo limits.keepSnapshots limits.keepSnapshotsUnderPressure then
    .error .keepSnapshotsUnderPressure
  else if max.recencyWindow < limits.recencyWindow then .error .recencyWindow
  else if !isCountUpTo max.batchRows limits.batchRows then .error .batchRows
  else if !isCountUpTo max.vacuumPages limits.vacuumPages then .error .vacuumPages
  else .ok ()

lemma MaintenanceLimits.validate_default : MaintenanceLimits.default.validate = .ok () := by
  decide

/-! ## What a retirement step takes -/

/-- One retirement pass, in the order maintenance runs them. -/
inductive RetireStep where
  | abandonedBuilds
  | unusedSnapshots
  | records
  | evidence
  | artifacts
deriving DecidableEq

/-- A lease renewed at `since` or later holds the snapshot. -/
def isHeld (tables : Tables) (since : Nat) (snapshot : Nonce) : Bool :=
  tables.leaseHolds.any fun hold =>
    hold.snapshotId = snapshot && tables.processLeases.any fun lease =>
      lease.leaseId = hold.leaseId && since ≤ lease.renewedUnixSeconds

/-- `n.publication_seq > s.publication_seq`, which no missing sequence meets. -/
def SnapshotRow.isNewerThan (row other : SnapshotRow) : Bool :=
  match row.publicationSeq, other.publicationSeq with
  | some newer, some older => older < newer
  | _, _ => false

def isAbandonedBuild (tables : Tables) (since : Nat) (row : SnapshotRow) : Bool :=
  row.state = .building && !isHeld tables since row.snapshotId

def isUnusedSnapshot (tables : Tables) (since keep : Nat) (row : SnapshotRow) : Bool :=
  row.state = .sealed && !isHeld tables since row.snapshotId &&
    keep ≤ tables.snapshots.count fun newer =>
      newer.contextKey = row.contextKey && newer.state = .sealed && newer.isNewerThan row

/-- A building or sealed snapshot lists the record. -/
def isListed (tables : Tables) (record : Digest) : Bool :=
  tables.snapshotMembers.any fun member =>
    member.recordId = record && tables.snapshots.any fun snapshot =>
      snapshot.snapshotId = member.snapshotId && snapshot.isActive

def isUnlistedRecord (tables : Tables) (cutoff : Nat) (row : RecordRow) : Bool :=
  row.isLive && row.publicationSeq ≤ cutoff && !isListed tables row.recordId

/-- A live record has a binding that names the evidence. -/
def isBound (tables : Tables) (evidence : Digest) : Bool :=
  tables.memberBindings.any fun binding =>
    binding.evidenceId = some evidence && tables.memberRecords.any fun record =>
      record.recordId = binding.recordId && record.isLive

def isUnreferencedEvidence (tables : Tables) (cutoff : Nat) (row : EvidenceRow) : Bool :=
  row.isLive && row.publicationSeq ≤ cutoff && !(tables.memberRecords.any fun record =>
      record.stored.memberEvidence = some row.evidenceId && record.isLive) &&
    !isBound tables row.evidenceId &&
    !(tables.snapshots.any fun snapshot =>
      snapshot.discoveryEvidence = some row.evidenceId && snapshot.isActive)

def isUnreferencedArtifact (tables : Tables) (cutoff : Nat) (row : ArtifactRow) : Bool :=
  row.isLive && row.publicationSeq ≤ cutoff && !(tables.memberRecords.any fun record =>
      record.stored.artifactId = some row.artifactId && record.isLive) &&
    !(tables.evidenceSets.any fun evidence =>
      evidence.stored.artifactId = some row.artifactId && evidence.isLive)

/-! ## Retirement -/

def EvidenceRow.retire (row : EvidenceRow) : EvidenceRow :=
  { row with stored := { row.stored with lifecycle := .retired } }

def ArtifactRow.retire (row : ArtifactRow) : ArtifactRow :=
  { row with stored := { row.stored with lifecycle := .retired } }

def retireSnapshots (scan : Scan) (p : SnapshotRow → Bool) (limit : Nat) (tables : Tables) :
    Tables × Nat :=
  let (snapshots, changed) := tables.snapshots.updateSome scan p limit .retire SnapshotRow.key_retire
  ({ tables with snapshots }, changed)

def retireRecords (scan : Scan) (cutoff limit : Nat) (tables : Tables) : Tables × Nat :=
  let (memberRecords, changed) :=
    tables.memberRecords.updateSome scan (isUnlistedRecord tables cutoff) limit .retire
      RecordRow.key_retire
  ({ tables with memberRecords }, changed)

def retireEvidence (scan : Scan) (cutoff limit : Nat) (tables : Tables) : Tables × Nat :=
  let (evidenceSets, changed) :=
    tables.evidenceSets.updateSome scan (isUnreferencedEvidence tables cutoff) limit .retire
      fun _ => rfl
  ({ tables with evidenceSets }, changed)

def retireArtifacts (scan : Scan) (cutoff limit : Nat) (tables : Tables) : Tables × Nat :=
  let (artifacts, changed) :=
    tables.artifacts.updateSome scan (isUnreferencedArtifact tables cutoff) limit .retire
      fun _ => rfl
  ({ tables with artifacts }, changed)

/-- The highest sequence a record, evidence set or artifact may have and still be
retired. -/
def cutoff (horizon current recencyWindow : Nat) (pressured : Bool) : Nat :=
  if pressured then horizon else min horizon (current - recencyWindow)

/-- Whether the store is under pressure; at the WAL threshold nothing is written. -/
def Txn.pressured (txn : Txn) : Except Bypass Bool :=
  match txn.pressure with
  | .walPressure => .error .walPressure
  | .overHeadroom => .ok true
  | .lowDiskSpace => .ok true
  | .none => .ok false

/-- The statement of one retirement step. -/
def RetireStep.statement (step : RetireStep) (limits : MaintenanceLimits) (scan : Scan)
    (pressured : Bool) (now : Nat) (tables : Tables) : Tables × Nat :=
  let since := liveSince now
  let keep := if pressured then limits.keepSnapshotsUnderPressure else limits.keepSnapshots
  let oldest := cutoff (horizon tables now) tables.publicationSeq limits.recencyWindow pressured
  match step with
  | abandonedBuilds => retireSnapshots scan (isAbandonedBuild tables since) limits.batchRows tables
  | unusedSnapshots =>
    retireSnapshots scan (isUnusedSnapshot tables since keep) limits.batchRows tables
  | records => retireRecords scan oldest limits.batchRows tables
  | evidence => retireEvidence scan oldest limits.batchRows tables
  | artifacts => retireArtifacts scan oldest limits.batchRows tables

/-- `retire_step`. -/
def retireStep (step : RetireStep) (limits : MaintenanceLimits) (scan : Scan) (txn : Txn)
    (tables : Tables) : Except Bypass (Tables × Nat) := do
  limits.validate.mapError fun _ => Bypass.invalidMaintenanceLimits
  txn.begin
  txn.ensureLive
  let pressured ← txn.pressured
  txn.finish (.ok (step.statement limits scan pressured txn.now tables))

/-! ## Deletion -/

/-- A bounded `DELETE`: the order it visits rows in, the rows left in the batch and
the tables give the tables and the rows deleted. -/
abbrev DeleteStep := Scan → Nat → Tables → Tables × Nat

/-- Run deletions in order while rows of the budget remain. -/
def runDeletes (scans : Nat → Scan) : List DeleteStep → Nat → Tables → Tables × Nat
  | [], left, tables => (tables, left)
  | step :: steps, left, tables =>
    if left = 0 then (tables, 0)
    else
      let (tables, deleted) := step (scans steps.length) left tables
      runDeletes scans steps (left - deleted) tables

section Deletes

variable (scan : Scan) (left : Nat) (tables : Tables)

def deleteHolds (p : HoldRow → Bool) : Tables × Nat :=
  let (leaseHolds, deleted) := tables.leaseHolds.deleteSome scan p left
  ({ tables with leaseHolds }, deleted)

def deleteLeases (p : LeaseRow → Bool) : Tables × Nat :=
  let (processLeases, deleted) := tables.processLeases.deleteSome scan p left
  ({ tables with processLeases }, deleted)

def deleteMembers (p : MemberRow → Bool) : Tables × Nat :=
  let (snapshotMembers, deleted) := tables.snapshotMembers.deleteSome scan p left
  ({ tables with snapshotMembers }, deleted)

def deleteSnapshots (p : SnapshotRow → Bool) : Tables × Nat :=
  let (snapshots, deleted) := tables.snapshots.deleteSome scan p left
  ({ tables with snapshots }, deleted)

def deleteBindings (p : BindingRow → Bool) : Tables × Nat :=
  let (memberBindings, deleted) := tables.memberBindings.deleteSome scan p left
  ({ tables with memberBindings }, deleted)

def deleteRecords (p : RecordRow → Bool) : Tables × Nat :=
  let (memberRecords, deleted) := tables.memberRecords.deleteSome scan p left
  ({ tables with memberRecords }, deleted)

def deleteObservations (p : ObservationRow → Bool) : Tables × Nat :=
  let (observations, deleted) := tables.observations.deleteSome scan p left
  ({ tables with observations }, deleted)

def deleteEvidence (p : EvidenceRow → Bool) : Tables × Nat :=
  let (evidenceSets, deleted) := tables.evidenceSets.deleteSome scan p left
  ({ tables with evidenceSets }, deleted)

def deleteFacts (p : FactRow → Bool) : Tables × Nat :=
  let (artifactRows, deleted) := tables.artifactRows.deleteSome scan p left
  ({ tables with artifactRows }, deleted)

def deleteArtifacts (p : ArtifactRow → Bool) : Tables × Nat :=
  let (artifacts, deleted) := tables.artifacts.deleteSome scan p left
  ({ tables with artifacts }, deleted)

def deleteManifests (p : ManifestRow → Bool) : Tables × Nat :=
  let (keyManifests, deleted) := tables.keyManifests.deleteSome scan p left
  ({ tables with keyManifests }, deleted)

end Deletes

/-! ### Retired rows of the live scope -/

def isRetiredSnapshot (tables : Tables) (id : Nonce) : Bool :=
  tables.snapshots.any fun row => row.snapshotId = id && row.state = .retired

def isRetiredRecord (tables : Tables) (id : Digest) : Bool :=
  tables.memberRecords.any fun row => row.recordId = id && !row.isLive

def isRetiredEvidence (tables : Tables) (id : Digest) : Bool :=
  tables.evidenceSets.any fun row => row.evidenceId = id && !row.isLive

def isRetiredArtifact (tables : Tables) (id : Digest) : Bool :=
  tables.artifacts.any fun row => row.artifactId = id && !row.isLive

def isEmptySnapshot (tables : Tables) (row : SnapshotRow) : Bool :=
  row.state = .retired &&
    !(tables.snapshotMembers.any fun member => member.snapshotId = row.snapshotId) &&
    !(tables.leaseHolds.any fun hold => hold.snapshotId = row.snapshotId)

def isUnnamedRecord (tables : Tables) (row : RecordRow) : Bool :=
  !row.isLive && !(tables.memberBindings.any fun binding => binding.recordId = row.recordId) &&
    !(tables.snapshotMembers.any fun member => member.recordId = row.recordId)

def isUnnamedEvidence (tables : Tables) (row : EvidenceRow) : Bool :=
  !row.isLive &&
    !(tables.observations.any fun observation => observation.evidenceId = row.evidenceId) &&
    !(tables.memberRecords.any fun record => record.stored.memberEvidence = some row.evidenceId) &&
    !(tables.memberBindings.any fun binding => binding.evidenceId = some row.evidenceId) &&
    !(tables.snapshots.any fun snapshot => snapshot.discoveryEvidence = some row.evidenceId)

def isUnnamedArtifact (tables : Tables) (row : ArtifactRow) : Bool :=
  !row.isLive && !(tables.artifactRows.any fun fact => fact.artifactId = row.artifactId) &&
    !(tables.memberRecords.any fun record => record.stored.artifactId = some row.artifactId) &&
    !(tables.evidenceSets.any fun evidence => evidence.stored.artifactId = some row.artifactId)

/-- No artifact, evidence set or snapshot names the manifest. -/
def isOrphanManifest (tables : Tables) (row : ManifestRow) : Bool :=
  !(tables.artifacts.any fun artifact =>
      artifact.artifactId = row.digest || artifact.stored.rootKey = some row.digest) &&
    !(tables.evidenceSets.any fun evidence =>
      evidence.stored.contextKey = row.digest || evidence.stored.subjectKey = row.digest) &&
    !(tables.snapshots.any fun snapshot => snapshot.contextKey = row.digest)

/-- `DELETE_STEPS`: children first, and a parent only once no row names it. -/
def deleteSteps : List DeleteStep := [fun scan left tables =>
    deleteHolds scan left tables fun hold => isRetiredSnapshot tables hold.snapshotId,
  fun scan left tables =>
    deleteMembers scan left tables fun member => isRetiredSnapshot tables member.snapshotId,
  fun scan left tables => deleteSnapshots scan left tables (isEmptySnapshot tables),
  fun scan left tables =>
    deleteBindings scan left tables fun binding => isRetiredRecord tables binding.recordId,
  fun scan left tables => deleteRecords scan left tables (isUnnamedRecord tables),
  fun scan left tables =>
    deleteObservations scan left tables fun row => isRetiredEvidence tables row.evidenceId,
  fun scan left tables => deleteEvidence scan left tables (isUnnamedEvidence tables),
  fun scan left tables =>
    deleteFacts scan left tables fun fact => isRetiredArtifact tables fact.artifactId,
  fun scan left tables => deleteArtifacts scan left tables (isUnnamedArtifact tables),
  fun scan left tables => deleteManifests scan left tables (isOrphanManifest tables)]

/-- `delete_retired`: also the rows deleted and whether nothing deletable is left. -/
def deleteRetired (scans : Nat → Scan) (budget : Nat) (tables : Tables) : Tables × Nat × Bool :=
  let (tables, left) := runDeletes scans deleteSteps budget tables
  (tables, budget - left, 0 < left)

/-! ### Retired scopes -/

/-- `RECLAIM_TABLES`: every row of a retired scope, children first. -/
def reclaimSteps : List DeleteStep := [
  fun scan left tables => deleteHolds scan left tables fun _ => true,
  fun scan left tables => deleteLeases scan left tables fun _ => true,
  fun scan left tables => deleteMembers scan left tables fun _ => true,
  fun scan left tables => deleteSnapshots scan left tables fun _ => true,
  fun scan left tables => deleteBindings scan left tables fun _ => true,
  fun scan left tables => deleteRecords scan left tables fun _ => true,
  fun scan left tables => deleteObservations scan left tables fun _ => true,
  fun scan left tables => deleteEvidence scan left tables fun _ => true,
  fun scan left tables => deleteFacts scan left tables fun _ => true,
  fun scan left tables => deleteArtifacts scan left tables fun _ => true,
  fun scan left tables => deleteManifests scan left tables fun _ => true]

/-- What a reclaim meets in the retired scopes it visits. -/
structure RetiredScopes where
  /-- Rows deleted in the scopes it visits before this one. -/
  earlier : Nat
  /-- Whether this scope is itself retired and visited. -/
  listed : Bool
  /-- Rows deleted in the scopes it visits after this one. -/
  later : Nat
  /-- Other scopes that stay retired. -/
  remaining : Nat
deriving DecidableEq

structure Reclaimed where
  rows : Nat
  complete : Bool
deriving DecidableEq

/-- The rows of this scope when it is visited as a retired one; also the rows left
in the budget. -/
def reclaimScope (scans : Nat → Scan) (scopes : RetiredScopes) (budget : Nat) (tables : Tables) :
    Tables × Nat :=
  if scopes.listed then runDeletes scans reclaimSteps budget tables else (tables, budget)

/-- The live part of a reclaim; it is skipped when the caller's scope is fenced or
no rows are left to spend. -/
def reclaimLive (scans : Nat → Scan) (live : Bool) (budget : Nat) (tables : Tables) :
    Tables × Nat × Bool :=
  if live && 0 < budget then deleteRetired scans budget tables else (tables, 0, true)

/-- `reclaim` of at most `maxRows` rows, as far as it touches this scope: the rows
of retired scopes first, then the caller's own retired rows.  A process of
another scope reclaims with `txn.live` false. -/
def reclaim (scans : Bool → Nat → Scan) (maxRows : Nat) (scopes : RetiredScopes) (txn : Txn)
    (tables : Tables) : Except Bypass (Tables × Reclaimed) := do
  txn.begin
  txn.refuseAtWalThreshold
  let budget := maxRows - scopes.earlier
  let (retired, left) := reclaimScope (scans true) scopes budget tables
  let spared := left - scopes.later
  let (tables, deleted, drained) := reclaimLive (scans false) txn.live spared retired
  let remaining := scopes.remaining + if scopes.listed && left = 0 then 1 else 0
  txn.finish (.ok (tables, {
    rows := maxRows - spared + deleted
    complete := remaining = 0 && drained }))

end Lint4d.Store
