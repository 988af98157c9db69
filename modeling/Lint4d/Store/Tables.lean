import Lint4d.Lib.Checked
import Lint4d.Lib.Table
import Lint4d.Cache.Identity
import Lint4d.Cache.Outcome

/-!
# The tables of one scope

The SQLite schema of the persistent store (`store/container.rs`), for the rows
of one scope: one namespace at one reset epoch.  The columns that name the
scope are left out; `publicationSeq` is the store-wide sequence.

Foreign keys are not part of a table: a statement that SQLite would refuse for
one is allowed here, so the runs of the model include those of the store.
-/

namespace Lint4d.Store

open Lint4d.Lib Lint4d.Cache

variable {ρ κ : Type}

/-! ## Columns -/

/-- A snapshot ID, builder token or lease ID: 16 bytes (`nonce.rs`). -/
@[ext]
structure Nonce where
  bytes : Bytes
  size : bytes.length = 16
deriving DecidableEq

/-- `lifecycle`: 1 or 2. -/
inductive Lifecycle where
  | live
  | retired
deriving DecidableEq

/-- `state` of a snapshot: 1, 2 or 3. -/
inductive SnapshotState where
  | building
  | sealed
  | retired
deriving DecidableEq

/-! ## Rows -/

structure ManifestRow where
  digest : Digest
  kind : KeyKind
  manifest : Bytes
deriving DecidableEq

/-- What a producer determines of an artifact's row (`StoredHeader`). -/
structure StoredHeader where
  kind : KeyKind
  rootKey : Option Digest
  lifecycle : Lifecycle
  rowCount : Nat
  contentBytes : Nat
  factChecksum : Digest
  supplemental : Bytes
deriving DecidableEq

structure ArtifactRow where
  artifactId : Digest
  stored : StoredHeader
  publicationSeq : Nat
deriving DecidableEq

structure FactRow where
  artifactId : Digest
  ordinal : Nat
  rowKind : UInt8
  indexKey : Option Bytes
  payload : Bytes
  rowChecksum : Digest
deriving DecidableEq

/-- `StoredEvidence`: an evidence set without its publication sequence. -/
structure StoredEvidence where
  purpose : EvidencePurpose
  contextKey : Digest
  subjectKey : Digest
  artifactId : Option Digest
  lifecycle : Lifecycle
  observationCount : Nat
  contentBytes : Nat
deriving DecidableEq

structure EvidenceRow where
  evidenceId : Digest
  stored : StoredEvidence
  publicationSeq : Nat
deriving DecidableEq

structure ObservationRow where
  evidenceId : Digest
  ordinal : Nat
  kind : UInt8
  pathKey : Bytes
  payload : Bytes
deriving DecidableEq

/-- `StoredRecord`: a member record's row without its publication sequence. -/
structure StoredRecord where
  lifecycle : Lifecycle
  header : Bytes
  sourceKey : Bytes
  artifactId : Option Digest
  memberEvidence : Option Digest
  bindingCount : Nat
  contentBytes : Nat
deriving DecidableEq

structure RecordRow where
  recordId : Digest
  stored : StoredRecord
  publicationSeq : Nat
deriving DecidableEq

structure BindingRow where
  recordId : Digest
  ordinal : Nat
  kind : UInt8
  outcome : UInt8
  targetKey : Option Bytes
  evidenceId : Option Digest
  payload : Bytes
deriving DecidableEq

structure SnapshotRow where
  snapshotId : Nonce
  contextKey : Digest
  state : SnapshotState
  builderToken : Nonce
  buildRevision : Nat
  memberCount : Nat
  discoveryEvidence : Option Digest
  coverage : Option Bytes
  sealedDigest : Option Digest
  publicationSeq : Option Nat
deriving DecidableEq

structure MemberRow where
  snapshotId : Nonce
  ordinal : Nat
  recordId : Digest
  sourceKey : Bytes
deriving DecidableEq

structure LeaseRow where
  leaseId : Nonce
  renewedUnixSeconds : Nat
  renewalSeq : Nat
  floorSeq : Nat
deriving DecidableEq

structure HoldRow where
  leaseId : Nonce
  snapshotId : Nonce
deriving DecidableEq

instance : Keyed ManifestRow Digest := ⟨ManifestRow.digest⟩
instance : Keyed ArtifactRow Digest := ⟨ArtifactRow.artifactId⟩
instance : Keyed FactRow (Digest × Nat) := ⟨fun row => (row.artifactId, row.ordinal)⟩
instance : Keyed EvidenceRow Digest := ⟨EvidenceRow.evidenceId⟩
instance : Keyed ObservationRow (Digest × Nat) := ⟨fun row => (row.evidenceId, row.ordinal)⟩
instance : Keyed RecordRow Digest := ⟨RecordRow.recordId⟩
instance : Keyed BindingRow (Digest × Nat) := ⟨fun row => (row.recordId, row.ordinal)⟩
instance : Keyed SnapshotRow Nonce := ⟨SnapshotRow.snapshotId⟩
instance : Keyed MemberRow (Nonce × Nat) := ⟨fun row => (row.snapshotId, row.ordinal)⟩
instance : Keyed LeaseRow Nonce := ⟨LeaseRow.leaseId⟩
instance : Keyed HoldRow (Nonce × Nonce) := ⟨fun row => (row.leaseId, row.snapshotId)⟩

def ArtifactRow.isLive (row : ArtifactRow) : Bool := row.stored.lifecycle = .live

def EvidenceRow.isLive (row : EvidenceRow) : Bool := row.stored.lifecycle = .live

def RecordRow.isLive (row : RecordRow) : Bool := row.stored.lifecycle = .live

/-- `state IN (1, 2)`. -/
def SnapshotRow.isActive (row : SnapshotRow) : Bool := row.state ≠ .retired

/-! ## Tables -/

structure Tables where
  publicationSeq : Nat
  keyManifests : Table ManifestRow
  artifacts : Table ArtifactRow
  artifactRows : Table FactRow
  evidenceSets : Table EvidenceRow
  observations : Table ObservationRow
  memberRecords : Table RecordRow
  memberBindings : Table BindingRow
  snapshots : Table SnapshotRow
  snapshotMembers : Table MemberRow
  processLeases : Table LeaseRow
  leaseHolds : Table HoldRow

/-- A scope without rows in a store at publication sequence `seq`. -/
def Tables.initial (seq : Nat) : Tables where
  publicationSeq := seq
  keyManifests := .empty
  artifacts := .empty
  artifactRows := .empty
  evidenceSets := .empty
  observations := .empty
  memberRecords := .empty
  memberBindings := .empty
  snapshots := .empty
  snapshotMembers := .empty
  processLeases := .empty
  leaseHolds := .empty

/-- `SQLITE_CONSTRAINT_PRIMARYKEY`, as `classify` passes it on. -/
def Bypass.primaryKey : Bypass := .sqlite 1555

/-- Insert a row or fail on its primary key. -/
def insertRow {ρ κ : Type} [Keyed ρ κ] [DecidableEq κ] (table : Table ρ) (row : ρ) :
    Except Bypass (Table ρ) :=
  match table.insert row with
  | some table => .ok table
  | none => .error Bypass.primaryKey

lemma insertRow_ok [Keyed ρ κ] [DecidableEq κ] {table table' : Table ρ} {row : ρ}
    (h : insertRow table row = .ok table') : Table.Inserted table table' row := by
  unfold insertRow at h
  split at h
  · rename_i inserted hinsert
    cases h
    exact Table.insert_eq_some hinsert
  · cases h

/-- Insert rows one by one. -/
def insertRows {ρ κ : Type} [Keyed ρ κ] [DecidableEq κ] (table : Table ρ) (rows : List ρ) :
    Except Bypass (Table ρ) :=
  rows.foldlM insertRow table

lemma insertRows_ok [Keyed ρ κ] [DecidableEq κ] {table table' : Table ρ} {rows : List ρ}
    (h : insertRows table rows = .ok table') (other : ρ) :
    other ∈ table' ↔ other ∈ table ∨ other ∈ rows := by
  induction rows generalizing table with
  | nil =>
    obtain rfl := pure_ok_iff.mp h
    simp
  | cons _ rows ih =>
    obtain ⟨_, hmid, hrest⟩ := bind_ok_iff.mp h
    rw [ih hrest, (insertRow_ok hmid).mem_iff, List.mem_cons, or_assoc]

/-- The next sequence, taken inside a write transaction (`sequence.rs`). -/
def nextPublicationSeq (tables : Tables) : Tables × Nat :=
  ({ tables with publicationSeq := tables.publicationSeq + 1 }, tables.publicationSeq + 1)

end Lint4d.Store
