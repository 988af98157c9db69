import Lint4d.Store.Transactions

/-!
# References stay live

Retirement goes top-down and every publication checks what it references, so
whatever a live row names is live: the records of building and sealed
snapshots, the artifacts and evidence sets of records, the artifacts that
evidence concludes, the discovery evidence of sealed snapshots.  A seal checks
only its records and its discovery evidence; the rest follows.
-/

namespace Lint4d.Store

open Lint4d.Lib Lint4d.Cache

/-! ## The invariant -/

/-- What live rows name is live.  The two foreign keys at the end keep rows of a
deleted record or snapshot from being taken for rows of a later one. -/
structure Tables.Referenced (t : Tables) : Prop where
  recordArtifact : ∀ row ∈ t.memberRecords, row.isLive = true →
    ∀ id, row.stored.artifactId = some id → t.ArtifactIsLive id
  recordEvidence : ∀ row ∈ t.memberRecords, row.isLive = true →
    ∀ id, row.stored.memberEvidence = some id → t.EvidenceIsLive id
  bindingEvidence : ∀ binding ∈ t.memberBindings, t.RecordIsLive binding.recordId →
    ∀ id, binding.evidenceId = some id → t.EvidenceIsLive id
  evidenceArtifact : ∀ row ∈ t.evidenceSets, row.isLive = true →
    ∀ id, row.stored.artifactId = some id → t.ArtifactIsLive id
  memberRecord : ∀ member ∈ t.snapshotMembers, ∀ row ∈ t.snapshots,
    row.snapshotId = member.snapshotId → row.isActive = true → t.RecordIsLive member.recordId
  discovery : ∀ row ∈ t.snapshots, row.isActive = true →
    ∀ id, row.discoveryEvidence = some id → t.EvidenceIsLive id
  bindingOwner : ∀ binding ∈ t.memberBindings,
    ∃ row ∈ t.memberRecords, row.recordId = binding.recordId
  memberOwner : ∀ member ∈ t.snapshotMembers,
    ∃ row ∈ t.snapshots, row.snapshotId = member.snapshotId

lemma Tables.referenced_initial (seq : Nat) : (Tables.initial seq).Referenced := by
  constructor <;> intro row hrow <;> exact absurd hrow (Table.not_mem_empty row)

namespace Tables.Referenced

variable {t : Tables} {memberRecords : Table RecordRow}

/-! ## One table at a time

A change of one table keeps the invariant when the live rows that something
names stay live, and when the new live rows name live rows. -/

/-- Artifacts may go if nothing refers to them. -/
lemma of_artifacts (h : t.Referenced) {artifacts : Table ArtifactRow}
    (hkept : ∀ id, t.ArtifactIsLive id →
      { t with artifacts }.ArtifactIsLive id ∨ t.ArtifactUnreferenced id) :
    { t with artifacts }.Referenced :=
  { h with
    recordArtifact := fun row hrow hlive id hid =>
      (hkept id (h.recordArtifact row hrow hlive id hid)).resolve_right
        fun hfree => hfree.record row hrow hlive hid
    evidenceArtifact := fun row hrow hlive id hid =>
      (hkept id (h.evidenceArtifact row hrow hlive id hid)).resolve_right
        fun hfree => hfree.evidence row hrow hlive hid }

lemma of_evidence (h : t.Referenced) {evidenceSets : Table EvidenceRow}
    (hkept : ∀ id, t.EvidenceIsLive id →
      { t with evidenceSets }.EvidenceIsLive id ∨ t.EvidenceUnreferenced id)
    (hnew : ∀ row ∈ evidenceSets, row.isLive = true →
      (∃ old ∈ t.evidenceSets, old.isLive = true ∧ old.stored.artifactId = row.stored.artifactId) ∨
        ∀ id, row.stored.artifactId = some id → t.ArtifactIsLive id) :
    { t with evidenceSets }.Referenced :=
  { h with
    evidenceArtifact := fun row hrow hlive id hid => by
      rcases hnew row hrow hlive with ⟨old, hold, holdLive, hsame⟩ | hrefs
      · exact h.evidenceArtifact old hold holdLive id (hsame.trans hid)
      · exact hrefs id hid
    recordEvidence := fun row hrow hlive id hid =>
      (hkept id (h.recordEvidence row hrow hlive id hid)).resolve_right
        fun hfree => hfree.record row hrow hlive hid
    bindingEvidence := fun binding hbind hlive id hid =>
      (hkept id (h.bindingEvidence binding hbind hlive id hid)).resolve_right
        fun hfree => hfree.binding binding hbind hid hlive
    discovery := fun row hrow hactive id hid =>
      (hkept id (h.discovery row hrow hactive id hid)).resolve_right
        fun hfree => hfree.snapshot row hrow hactive hid }

/-- A record keeps its references when it is changed. -/
def RecordSucceeds (old row : RecordRow) : Prop :=
  old.recordId = row.recordId ∧ old.isLive = true ∧ old.stored.artifactId = row.stored.artifactId ∧
    old.stored.memberEvidence = row.stored.memberEvidence

lemma of_records (h : t.Referenced) (hkept : ∀ id, t.RecordIsLive id →
      { t with memberRecords }.RecordIsLive id ∨ t.RecordUnlisted id)
    (hnew : ∀ row ∈ memberRecords, row.isLive = true →
      ∃ old ∈ t.memberRecords, RecordSucceeds old row) (howner : ∀ binding ∈ t.memberBindings,
      ∃ row ∈ memberRecords, row.recordId = binding.recordId) :
    { t with memberRecords }.Referenced :=
  { h with
    recordArtifact := fun row hrow hlive id hid => by
      obtain ⟨old, hold, -, holdLive, hsame, -⟩ := hnew row hrow hlive
      exact h.recordArtifact old hold holdLive id (hsame.trans hid)
    recordEvidence := fun row hrow hlive id hid => by
      obtain ⟨old, hold, -, holdLive, -, hsame⟩ := hnew row hrow hlive
      exact h.recordEvidence old hold holdLive id (hsame.trans hid)
    bindingEvidence := fun binding hbind hlive id hid => by
      obtain ⟨row, hrow, hname, hrowLive⟩ := hlive
      obtain ⟨old, hold, hsameId, holdLive, -⟩ := hnew row hrow hrowLive
      exact h.bindingEvidence binding hbind ⟨old, hold, hsameId.trans hname, holdLive⟩ id hid
    memberRecord := fun member hmember row hrow hname hactive => by
      rcases hkept _ (h.memberRecord member hmember row hrow hname hactive) with hlive | hfree
      · exact hlive
      · have hinact := hfree member hmember rfl row hrow hname
        rw [hactive] at hinact
        cases hinact
    bindingOwner := howner }

/-- A new record with its bindings.  Nothing else owns a binding of it, for the
record of every old binding exists. -/
lemma of_insertRecord (h : t.Referenced) {memberBindings : Table BindingRow} {row : RecordRow}
    {bindings : List BindingRow} (hins : Table.Inserted t.memberRecords memberRecords row)
    (hbinds : ∀ other, other ∈ memberBindings ↔ other ∈ t.memberBindings ∨ other ∈ bindings)
    (howner : ∀ binding ∈ bindings, binding.recordId = row.recordId)
    (hart : ∀ id, row.stored.artifactId = some id → t.ArtifactIsLive id)
    (hev : ∀ id, row.stored.memberEvidence = some id → t.EvidenceIsLive id)
    (hbound : ∀ binding ∈ bindings, ∀ id, binding.evidenceId = some id → t.EvidenceIsLive id) :
    { t with memberRecords, memberBindings }.Referenced :=
  { h with
    recordArtifact := fun other hother hlive id hid => by
      rcases (hins.mem_iff other).mp hother with hold | rfl
      · exact h.recordArtifact other hold hlive id hid
      · exact hart id hid
    recordEvidence := fun other hother hlive id hid => by
      rcases (hins.mem_iff other).mp hother with hold | rfl
      · exact h.recordEvidence other hold hlive id hid
      · exact hev id hid
    bindingEvidence := fun binding hbind hlive id hid => by
      rcases (hbinds binding).mp hbind with hold | hnew
      · obtain ⟨owner, howns, hname⟩ := h.bindingOwner binding hold
        obtain ⟨other, hother, hotherName, hotherLive⟩ := hlive
        rcases (hins.mem_iff other).mp hother with hotherOld | rfl
        · exact h.bindingEvidence binding hold ⟨other, hotherOld, hotherName, hotherLive⟩ id hid
        · exact absurd (hname.trans hotherName.symm) (hins.fresh owner howns)
      · exact hbound binding hnew id hid
    memberRecord := fun member hmember snapshot hsnap hname hactive => by
      exact hins.exists_mem (h.memberRecord member hmember snapshot hsnap hname hactive)
    bindingOwner := fun binding hbind => by
      rcases (hbinds binding).mp hbind with hold | hnew
      · exact hins.exists_mem (h.bindingOwner binding hold)
      · exact ⟨row, (hins.mem_iff row).mpr (.inr rfl), (howner binding hnew).symm⟩ }

lemma of_snapshots (h : t.Referenced) {snapshots : Table SnapshotRow}
    (hnew : ∀ row ∈ snapshots, row.isActive = true →
      (∃ old ∈ t.snapshots, old.snapshotId = row.snapshotId ∧ old.isActive = true) ∨
        ∀ member ∈ t.snapshotMembers, member.snapshotId ≠ row.snapshotId)
    (hdisc : ∀ row ∈ snapshots, row.isActive = true →
      ∀ id, row.discoveryEvidence = some id → t.EvidenceIsLive id)
    (howner : ∀ member ∈ t.snapshotMembers, ∃ row ∈ snapshots, row.snapshotId = member.snapshotId) :
    { t with snapshots }.Referenced :=
  { h with
    memberRecord := fun member hmember row hrow hname hactive => by
      rcases hnew row hrow hactive with ⟨old, hold, hsame, holdActive⟩ | hempty
      · exact h.memberRecord member hmember old hold (hsame.trans hname) holdActive
      · exact absurd hname.symm (hempty member hmember)
    discovery := hdisc
    memberOwner := howner }

lemma of_members (h : t.Referenced) {snapshotMembers : Table MemberRow}
    (hnew : ∀ member ∈ snapshotMembers, member ∈ t.snapshotMembers ∨
      (t.RecordIsLive member.recordId ∧ ∃ row ∈ t.snapshots, row.snapshotId = member.snapshotId)) :
    { t with snapshotMembers }.Referenced :=
  { h with
    memberRecord := fun member hmember row hrow hname hactive => by
      rcases hnew member hmember with hold | hadded
      · exact h.memberRecord member hold row hrow hname hactive
      · exact hadded.1
    memberOwner := fun member hmember => (hnew member hmember).elim (h.memberOwner member) And.right }

end Tables.Referenced

/-! ## Edits -/

variable {t t' : Tables}

/-- No edit of stored content leaves a reference dangling. -/
lemma ContentEdit.referenced (hedit : ContentEdit t t') (h : t.Referenced) : t'.Referenced := by
  cases hedit with
  | sequence | support => exact { h with }
  | insertArtifact hins =>
    apply h.of_artifacts
    intro id hlive
    exact .inl (hins.exists_mem hlive)
  | touchArtifacts hupd =>
    apply h.of_artifacts
    intro id hlive
    exact .inl (hupd.exists_mem (fun _ => And.imp_right fun h => h) hlive)
  -- a retired or deleted row had nothing live that points at it
  | retireArtifacts hupd =>
    apply h.of_artifacts
    intro id hlive
    exact hupd.exists_or (fun row _ hfree hrow => hrow.1 ▸ hfree) hlive
  | deleteArtifacts hdel =>
    apply h.of_artifacts
    intro id hlive
    exact hdel.exists_or (fun row hfree hrow => hrow.1 ▸ hfree hrow.2) hlive
  | insertEvidence hins hart =>
    apply h.of_evidence
    · intro id hlive
      exact .inl (hins.exists_mem hlive)
    · intro row hrow hlive
      rcases (hins.mem_iff row).mp hrow with hold | rfl
      · exact .inl ⟨row, hold, hlive, rfl⟩
      · exact .inr hart
  | touchEvidence hupd =>
    apply h.of_evidence
    · intro id hlive
      exact .inl (hupd.exists_mem (fun _ => And.imp_right fun h => h) hlive)
    · intro row hrow hlive
      rcases hupd.of_new row hrow with ⟨old, hold, -, rfl⟩ | hold
      · exact .inl ⟨old, hold, hlive, rfl⟩
      · exact .inl ⟨row, hold, hlive, rfl⟩
  | retireEvidence hupd =>
    apply h.of_evidence
    · intro id hlive
      exact hupd.exists_or (fun row _ hfree hrow => hrow.1 ▸ hfree) hlive
    · intro row hrow hlive
      rcases hupd.of_new row hrow with ⟨old, hold, -, rfl⟩ | hold
      · cases hlive
      · exact .inl ⟨row, hold, hlive, rfl⟩
  | deleteEvidence hdel =>
    apply h.of_evidence
    · intro id hlive
      exact hdel.exists_or (fun row hfree hrow => hrow.1 ▸ hfree hrow.2) hlive
    · intro row hrow hlive
      exact .inl ⟨row, hdel.of_new row hrow, hlive, rfl⟩
  | insertRecord hins hbinds howner hart hev hbound =>
    exact h.of_insertRecord hins hbinds howner hart hev hbound
  | touchRecords hupd =>
    apply h.of_records
    · intro id hlive
      exact .inl (hupd.exists_mem (fun _ => And.imp_right fun h => h) hlive)
    · intro row hrow hlive
      rcases hupd.of_new row hrow with ⟨old, hold, -, rfl⟩ | hold
      · exact ⟨old, hold, rfl, hlive, rfl, rfl⟩
      · exact ⟨row, hold, rfl, hlive, rfl, rfl⟩
    · intro binding hbind
      exact hupd.exists_mem (fun _ => id) (h.bindingOwner binding hbind)
  | retireRecords hupd =>
    apply h.of_records
    · intro id hlive
      exact hupd.exists_or (fun row _ hfree hrow => hrow.1 ▸ hfree) hlive
    · intro row hrow hlive
      rcases hupd.of_new row hrow with ⟨old, hold, -, rfl⟩ | hold
      · cases hlive
      · exact ⟨row, hold, rfl, hlive, rfl, rfl⟩
    · intro binding hbind
      exact hupd.exists_mem (fun _ => id) (h.bindingOwner binding hbind)
  | deleteRecords hdel =>
    apply h.of_records
    · intro id hlive
      exact hdel.exists_or (fun row hfree hrow => hrow.1 ▸ hfree.1 hrow.2) hlive
    · intro row hrow hlive
      exact ⟨row, hdel.of_new row hrow, rfl, hlive, rfl, rfl⟩
    · intro binding hbind
      refine (hdel.exists_or ?_ (h.bindingOwner binding hbind)).elim id False.elim
      exact fun row hunbound hname => hunbound.2 binding hbind hname.symm
  | deleteBindings hdel =>
    exact { h with
      bindingEvidence := fun binding hbind =>
        h.bindingEvidence binding (hdel.of_new binding hbind)
      bindingOwner := fun binding hbind =>
        h.bindingOwner binding (hdel.of_new binding hbind) }

/-- Nor does an edit of the snapshots. -/
lemma SnapshotEdit.referenced (hedit : SnapshotEdit t t') (h : t.Referenced) : t'.Referenced := by
  cases hedit with
  | @insert _ new hins hdisc =>
    apply h.of_snapshots
    · intro row hrow hactive
      rcases (hins.mem_iff row).mp hrow with hold | rfl
      · exact .inl ⟨row, hold, rfl, hactive⟩
      · -- a member of the new snapshot would have an older owner with its ID
        right
        intro member hmember hname
        obtain ⟨owner, howns, hownerName⟩ := h.memberOwner member hmember
        exact hins.fresh owner howns (hownerName.trans hname)
    · intro row hrow hactive id hid
      rcases (hins.mem_iff row).mp hrow with hold | rfl
      · exact h.discovery row hold hactive id hid
      · rw [hdisc] at hid
        cases hid
    · intro member hmember
      exact hins.exists_mem (h.memberOwner member hmember)
  | change hupd hkey hactive hdisc =>
    apply h.of_snapshots
    · intro row hrow hrowActive
      rcases hupd.of_new row hrow with ⟨old, hold, hp, rfl⟩ | hold
      · exact .inl ⟨old, hold, (hkey old).symm, hactive old hp hrowActive⟩
      · exact .inl ⟨row, hold, rfl, hrowActive⟩
    · intro row hrow hrowActive id hid
      rcases hupd.of_new row hrow with ⟨old, hold, hp, rfl⟩ | hold
      · rcases hdisc old hp hrowActive id hid with hsame | hlive
        · exact h.discovery old hold (hactive old hp hrowActive) id hsame
        · exact hlive
      · exact h.discovery row hold hrowActive id hid
    · intro member hmember
      exact hupd.exists_mem (fun row hname => (hkey row).trans hname)
        (h.memberOwner member hmember)
  | delete hdel =>
    apply h.of_snapshots
    · intro row hrow hactive
      exact .inl ⟨row, hdel.of_new row hrow, rfl, hactive⟩
    · intro row hrow
      exact h.discovery row (hdel.of_new row hrow)
    · intro member hmember
      -- only a snapshot without members is deleted
      refine (hdel.exists_or ?_ (h.memberOwner member hmember)).elim id False.elim
      exact fun row hempty hname => hempty member hmember hname.symm
  | insertMember hins hrecord hsnap =>
    apply h.of_members
    intro member hmember
    rcases (hins.mem_iff member).mp hmember with hold | rfl
    · exact .inl hold
    · exact .inr ⟨hrecord, hsnap⟩
  | deleteMembers hdel =>
    apply h.of_members
    intro member hmember
    exact .inl (hdel.of_new member hmember)

lemma Edits.referenced (hedits : Edits t t') (h : t.Referenced) : t'.Referenced := by
  induction hedits with
  | refl => exact h
  | tail _ hedit ih =>
    cases hedit with
    | content hcont => exact hcont.referenced ih
    | snapshot hsnap => exact hsnap.referenced ih
    | leases => exact { ih with }

/-! ## Runs -/

variable (digests : Digests)

/-- Nor does a run without direct retirements. -/
lemma World.run_referenced (seq : Nat) {steps : List Step}
    (hsteps : ∀ step ∈ steps, step.isDirectRetirement = false) :
    ((World.initial seq).run digests steps).tables.Referenced := by
  refine World.run_invariant digests (P := fun world => world.tables.Referenced) ?_ hsteps
    (Tables.referenced_initial seq)
  intro world step h hstep
  exact ((world.stepsTo_step digests step).edits hstep).referenced h

/-- In every state of every run without a direct retirement of a record, what live
rows name is live. -/
theorem reachable_references_live (seq : Nat) (steps : List Step)
    (hsteps : ∀ step ∈ steps, step.isDirectRetirement = false) :
    let t := ((World.initial seq).run digests steps).tables
    (∀ record ∈ t.memberRecords, record.isLive = true →
      (∀ id, record.stored.artifactId = some id → t.ArtifactIsLive id) ∧
      (∀ id, record.stored.memberEvidence = some id → t.EvidenceIsLive id) ∧
      (∀ binding ∈ t.memberBindings, binding.recordId = record.recordId →
        ∀ id, binding.evidenceId = some id → t.EvidenceIsLive id)) ∧
    (∀ evidence ∈ t.evidenceSets, evidence.isLive = true →
      ∀ id, evidence.stored.artifactId = some id → t.ArtifactIsLive id) ∧
    (∀ snapshot ∈ t.snapshots, snapshot.state = .building ∨ snapshot.state = .sealed →
      ∀ member ∈ t.snapshotMembers, member.snapshotId = snapshot.snapshotId →
        t.RecordIsLive member.recordId) ∧
    (∀ snapshot ∈ t.snapshots, snapshot.state = .sealed →
      ∀ id, snapshot.discoveryEvidence = some id → t.EvidenceIsLive id) := by
  have h := World.run_referenced digests seq hsteps
  refine ⟨?_, ?_, ?_, ?_⟩
  · intro record hrecord hlive
    refine ⟨h.recordArtifact record hrecord hlive, h.recordEvidence record hrecord hlive, ?_⟩
    intro binding hbinding howner
    exact h.bindingEvidence binding hbinding ⟨record, hrecord, howner.symm, hlive⟩
  · exact h.evidenceArtifact
  · intro snapshot hsnapshot hstate member hmember hname
    refine h.memberRecord member hmember snapshot hsnapshot hname.symm ?_
    rcases hstate with hstate | hstate <;> simp [SnapshotRow.isActive, hstate]
  · intro snapshot hsnapshot hstate
    exact h.discovery snapshot hsnapshot (by simp [SnapshotRow.isActive, hstate])

/-! ### A run that seals a snapshot -/

/-- A digest that tells materials apart by their length. -/
def lengthDigest (material : Bytes) : Digest where
  bytes := List.replicate 30 0 ++ [UInt8.ofNat (material.length / 256), UInt8.ofNat material.length]
  size := by simp

def lengthDigests : Digests where
  manifest := lengthDigest
  facts := lengthDigest
  row := lengthDigest

def Nonce.ofByte (byte : UInt8) : Nonce where
  bytes := List.replicate 16 byte
  size := by simp

def unitKey : ArtifactKeyRef where
  key := { kind := .localArtifact, manifest := [1] }
  root := none
  kinds := .inl ⟨rfl, rfl⟩

/-- An artifact with one row. -/
def unitArtifact : ArtifactWrite where
  key := unitKey
  supplemental := []
  rows := [{ rowKind := 1, indexKey := none, payload := [7] }]

lemma unitPath_bounded : [(97 : UInt8)].length < 2 ^ 64 := by decide

def unitPath : PathBuf where
  toList := [97]
  bounded := unitPath_bounded

/-- A record of the artifact. -/
def unitRecord : MemberRecord where
  header := {
    source := { canonical := unitPath, logical := unitPath, spelling := none, uri := none }
    artifact := some (unitKey.key.digest lengthDigests)
    memberEvidence := none
    origin := .projectCompiled
    fallbackUnitName := none
    coverage := { extraction := .complete, resolution := .complete } }
  bindings := { toList := [], bounded := by decide }

def unitRecordId : Digest :=
  match encodeRecord lengthDigests unitRecord with
  | .ok encoded => encoded.id
  | .error _ => lengthDigest []

def projectContext : CanonicalKey where
  kind := .context
  manifest := [1, 2]

def projectBuilder (revision : Nat) : SnapshotBuilder where
  id := .ofByte 3
  token := .ofByte 4
  revision
  context := projectContext.digest lengthDigests

def projectSeal : SnapshotSeal where
  discovery := none
  coverage := { discovery := .complete, membership := .complete }

/-- Open a store, publish an artifact and its record, and seal a snapshot of it. -/
def sealingRun : List Step := [
  { process := 0, action := .openStore (.ofByte 9), txn := .calm 1000 },
  { process := 0, action := .run (.publishArtifact unitArtifact), txn := .calm 1000 },
  { process := 0, action := .run (.publishMemberRecord unitRecord), txn := .calm 1000 },
  { process := 0, action := .run (.beginSnapshot projectContext (.ofByte 3) (.ofByte 4)),
    txn := .calm 1000 },
  { process := 0, action := .run (.addMembers (projectBuilder 0) [unitRecordId]),
    txn := .calm 1000 },
  { process := 0, action := .run (.sealSnapshot (projectBuilder 1) projectSeal 1 (lengthDigest [])),
    txn := .calm 1000 }]

theorem reachable_references_live_sealingRun :
    (∀ step ∈ sealingRun, step.isDirectRetirement = false) ∧
      ((World.initial 0).run lengthDigests sealingRun).tables.RecordIsLive unitRecordId := by
  have hsteps : ∀ step ∈ sealingRun, step.isDirectRetirement = false := by decide
  have hmember : ∃ snapshot ∈ ((World.initial 0).run lengthDigests sealingRun).tables.snapshots.rows,
      snapshot.state = .sealed ∧
        ∃ member ∈ ((World.initial 0).run lengthDigests sealingRun).tables.snapshotMembers.rows,
          member.snapshotId = snapshot.snapshotId ∧ member.recordId = unitRecordId := by
    decide +kernel
  obtain ⟨snapshot, hsnapshot, hstate, member, hmem, hname, hrecord⟩ := hmember
  obtain ⟨-, -, hlisted, -⟩ := reachable_references_live lengthDigests 0 sealingRun hsteps
  exact ⟨hsteps, hrecord ▸ hlisted snapshot hsnapshot (.inr hstate) member hmem hname⟩

end Lint4d.Store
