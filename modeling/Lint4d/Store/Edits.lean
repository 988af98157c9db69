import Lint4d.Store.Operations

/-!
# What the store's statements do

Every committed transaction is a sequence of edits, each to one table and each
under the condition its statement checked.  Edits of the contents touch neither
the snapshots and their members nor the leases; edits of the snapshots touch
nothing else.

The invariants of the store are proved of edits, and hold after a transaction
because it is a sequence of them.
-/

namespace Lint4d.Store

open Lint4d.Lib Lint4d.Cache Lint4d.Facts

open Relation (ReflTransGen)

/-! ## References -/

variable (tables : Tables)

def Tables.ArtifactIsLive (id : Digest) : Prop :=
  ∃ row ∈ tables.artifacts, row.artifactId = id ∧ row.isLive = true

def Tables.EvidenceIsLive (id : Digest) : Prop :=
  ∃ row ∈ tables.evidenceSets, row.evidenceId = id ∧ row.isLive = true

def Tables.RecordIsLive (id : Digest) : Prop :=
  ∃ row ∈ tables.memberRecords, row.recordId = id ∧ row.isLive = true

/-- The artifact is live, and was published after the sequence was `seq`. -/
def Tables.ArtifactPublished (seq : Nat) (id : Digest) : Prop :=
  ∃ row ∈ tables.artifacts, row.artifactId = id ∧ row.isLive = true ∧ seq < row.publicationSeq ∧
    row.publicationSeq ≤ tables.publicationSeq

def Tables.EvidencePublished (seq : Nat) (id : Digest) : Prop :=
  ∃ row ∈ tables.evidenceSets, row.evidenceId = id ∧ row.isLive = true ∧ seq < row.publicationSeq ∧
    row.publicationSeq ≤ tables.publicationSeq

def Tables.RecordPublished (seq : Nat) (id : Digest) : Prop :=
  ∃ row ∈ tables.memberRecords, row.recordId = id ∧ row.isLive = true ∧ seq < row.publicationSeq ∧
    row.publicationSeq ≤ tables.publicationSeq

/-- No live record and no live evidence set names the artifact. -/
structure Tables.ArtifactUnreferenced (tables : Tables) (id : Digest) : Prop where
  record : ∀ row ∈ tables.memberRecords, row.isLive = true → row.stored.artifactId ≠ some id
  evidence : ∀ row ∈ tables.evidenceSets, row.isLive = true → row.stored.artifactId ≠ some id

/-- No live record, binding of one, or active snapshot names the evidence set. -/
structure Tables.EvidenceUnreferenced (tables : Tables) (id : Digest) : Prop where
  record : ∀ row ∈ tables.memberRecords, row.isLive = true → row.stored.memberEvidence ≠ some id
  binding : ∀ binding ∈ tables.memberBindings, binding.evidenceId = some id →
    ¬ tables.RecordIsLive binding.recordId
  snapshot : ∀ row ∈ tables.snapshots, row.isActive = true → row.discoveryEvidence ≠ some id

/-- No active snapshot lists the record. -/
def Tables.RecordUnlisted (id : Digest) : Prop :=
  ∀ member ∈ tables.snapshotMembers, member.recordId = id →
    ∀ row ∈ tables.snapshots, row.snapshotId = member.snapshotId → row.isActive = false

/-! ## Edits -/

/-- One statement on the contents. -/
inductive ContentEdit (t : Tables) : Tables → Prop
  | sequence : ContentEdit t { t with publicationSeq := t.publicationSeq + 1 }
  /-- Rows that nothing live depends on: manifests, contents and holds. -/
  | support (keyManifests : Table ManifestRow) (artifactRows : Table FactRow)
      (observations : Table ObservationRow) (leaseHolds : Table HoldRow) :
      ContentEdit t { t with keyManifests, artifactRows, observations, leaseHolds }
  | insertArtifact {artifacts row} (hinsert : Table.Inserted t.artifacts artifacts row)
      (hseq : row.publicationSeq = t.publicationSeq) : ContentEdit t { t with artifacts }
  | touchArtifacts {artifacts p} (hupdate : Table.Updated t.artifacts artifacts p
        fun row => { row with publicationSeq := t.publicationSeq }) :
      ContentEdit t { t with artifacts }
  | retireArtifacts {artifacts} (hupdate : Table.Updated t.artifacts artifacts
        (fun row => t.ArtifactUnreferenced row.artifactId) ArtifactRow.retire) :
      ContentEdit t { t with artifacts }
  | deleteArtifacts {artifacts} (hdelete : Table.Deleted t.artifacts artifacts
        fun row => row.isLive = true → t.ArtifactUnreferenced row.artifactId) :
      ContentEdit t { t with artifacts }
  | insertEvidence {evidenceSets row} (hinsert : Table.Inserted t.evidenceSets evidenceSets row)
      (hartifact : ∀ id, row.stored.artifactId = some id → t.ArtifactIsLive id)
      (hseq : row.publicationSeq = t.publicationSeq) : ContentEdit t { t with evidenceSets }
  | touchEvidence {evidenceSets p} (hupdate : Table.Updated t.evidenceSets evidenceSets p
        fun row => { row with publicationSeq := t.publicationSeq }) :
      ContentEdit t { t with evidenceSets }
  | retireEvidence {evidenceSets} (hupdate : Table.Updated t.evidenceSets evidenceSets
        (fun row => t.EvidenceUnreferenced row.evidenceId) EvidenceRow.retire) :
      ContentEdit t { t with evidenceSets }
  | deleteEvidence {evidenceSets} (hdelete : Table.Deleted t.evidenceSets evidenceSets
        fun row => row.isLive = true → t.EvidenceUnreferenced row.evidenceId) :
      ContentEdit t { t with evidenceSets }
  /-- A record is inserted together with its bindings. -/
  | insertRecord {memberRecords memberBindings row} {bindings : List BindingRow}
      (hinsert : Table.Inserted t.memberRecords memberRecords row)
      (hbindings : ∀ other, other ∈ memberBindings ↔ other ∈ t.memberBindings ∨ other ∈ bindings)
      (howner : ∀ binding ∈ bindings, binding.recordId = row.recordId)
      (hartifact : ∀ id, row.stored.artifactId = some id → t.ArtifactIsLive id)
      (hevidence : ∀ id, row.stored.memberEvidence = some id → t.EvidenceIsLive id)
      (hbound : ∀ binding ∈ bindings, ∀ id, binding.evidenceId = some id → t.EvidenceIsLive id)
      (hseq : row.publicationSeq = t.publicationSeq) :
      ContentEdit t { t with memberRecords, memberBindings }
  | touchRecords {memberRecords p} (hupdate : Table.Updated t.memberRecords memberRecords p
        fun row => { row with publicationSeq := t.publicationSeq }) :
      ContentEdit t { t with memberRecords }
  | retireRecords {memberRecords} (hupdate : Table.Updated t.memberRecords memberRecords
        (fun row => t.RecordUnlisted row.recordId) RecordRow.retire) :
      ContentEdit t { t with memberRecords }
  /-- A record goes after its bindings. -/
  | deleteRecords {memberRecords} (hdelete : Table.Deleted t.memberRecords memberRecords fun row =>
        (row.isLive = true → t.RecordUnlisted row.recordId) ∧
          ∀ binding ∈ t.memberBindings, binding.recordId ≠ row.recordId) :
      ContentEdit t { t with memberRecords }
  | deleteBindings {memberBindings p} (hdelete : Table.Deleted t.memberBindings memberBindings p) :
      ContentEdit t { t with memberBindings }

/-- One statement on the snapshots and their members. -/
inductive SnapshotEdit (t : Tables) : Tables → Prop
  | insert {snapshots row}
      (hinsert : Table.Inserted t.snapshots snapshots row)
      (hdiscovery : row.discoveryEvidence = none) :
      SnapshotEdit t { t with snapshots }
  /-- A change never revives a snapshot, and names only live discovery evidence. -/
  | change {snapshots p change} (hupdate : Table.Updated t.snapshots snapshots p change)
      (hkey : ∀ row, (change row).snapshotId = row.snapshotId)
      (hactive : ∀ row, p row → (change row).isActive = true → row.isActive = true)
      (hdiscovery : ∀ row, p row → (change row).isActive = true →
        ∀ id, (change row).discoveryEvidence = some id →
          row.discoveryEvidence = some id ∨ t.EvidenceIsLive id) :
      SnapshotEdit t { t with snapshots }
  /-- A snapshot goes after its members. -/
  | delete {snapshots} (hdelete : Table.Deleted t.snapshots snapshots fun row =>
        ∀ member ∈ t.snapshotMembers, member.snapshotId ≠ row.snapshotId) :
      SnapshotEdit t { t with snapshots }
  | insertMember {snapshotMembers member}
      (hinsert : Table.Inserted t.snapshotMembers snapshotMembers member)
      (hrecord : t.RecordIsLive member.recordId)
      (hsnapshot : ∃ row ∈ t.snapshots, row.snapshotId = member.snapshotId) :
      SnapshotEdit t { t with snapshotMembers }
  | deleteMembers {snapshotMembers p}
      (hdelete : Table.Deleted t.snapshotMembers snapshotMembers p) :
      SnapshotEdit t { t with snapshotMembers }

/-- One statement. -/
inductive Edit (t : Tables) : Tables → Prop
  | content {t'} (h : ContentEdit t t') : Edit t t'
  | snapshot {t'} (h : SnapshotEdit t t') : Edit t t'
  | leases (processLeases : Table LeaseRow) : Edit t { t with processLeases }

abbrev ContentEdits := ReflTransGen ContentEdit
abbrev Edits := ReflTransGen Edit

variable {t t' : Tables}

lemma ContentEdits.edits (h : ContentEdits t t') : Edits t t' := h.lift id fun _ _ => Edit.content

/-- Edits of the contents leave the snapshots and the leases alone. -/
lemma ContentEdits.frame (h : ContentEdits t t') :
    t'.snapshots = t.snapshots ∧ t'.snapshotMembers = t.snapshotMembers ∧
      t'.processLeases = t.processLeases := by
  induction h with
  | refl => exact ⟨rfl, rfl, rfl⟩
  | tail _ hedit ih =>
    rw [← ih.1, ← ih.2.1, ← ih.2.2]
    cases hedit <;> exact ⟨rfl, rfl, rfl⟩

/-- A transaction on the contents: the lease rows first, then edits of the
contents. -/
def Tables.ContentChange (t t' : Tables) : Prop :=
  ∃ processLeases, ContentEdits { t with processLeases } t'

lemma ContentEdits.change (h : ContentEdits t t') : t.ContentChange t' := ⟨t.processLeases, h⟩

/-- Leases and holds. -/
lemma Tables.ContentChange.leases (t : Tables) (processLeases : Table LeaseRow)
    (leaseHolds : Table HoldRow) : t.ContentChange { t with processLeases, leaseHolds } :=
  ⟨processLeases, .single (.support ..)⟩

lemma Tables.ContentChange.edits (h : t.ContentChange t') : Edits t t' := by
  obtain ⟨processLeases, hedits⟩ := h
  exact (ReflTransGen.single (.leases processLeases)).trans hedits.edits

lemma Tables.ContentChange.snapshots_eq (h : t.ContentChange t') :
    t'.snapshots = t.snapshots ∧ t'.snapshotMembers = t.snapshotMembers := by
  obtain ⟨_, hedits⟩ := h
  exact ⟨hedits.frame.1, hedits.frame.2.1⟩

lemma Edits.seq_le (h : Edits t t') : t.publicationSeq ≤ t'.publicationSeq := by
  induction h with
  | refl => exact le_rfl
  | tail _ hedit ih =>
    apply Nat.le_trans ih
    cases hedit with
    | content hcontent =>
      cases hcontent
      case sequence => exact Nat.le_succ _
      all_goals exact le_rfl
    | snapshot hsnapshot => cases hsnapshot <;> exact le_rfl
    | leases => exact le_rfl

lemma ContentEdits.seq_le (h : ContentEdits t t') : t.publicationSeq ≤ t'.publicationSeq :=
  h.edits.seq_le

end Lint4d.Store
