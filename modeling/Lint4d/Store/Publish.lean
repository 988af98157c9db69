import Lint4d.Facts.Encode
import Lint4d.Store.Leases

/-!
# Publication

Key manifests, artifacts, evidence sets and member records are published in
one transaction each (`store/keys.rs`, `store/artifacts.rs`,
`store/evidence.rs`, `store/records.rs`).  Everything is encoded, admitted and
hashed before the transaction starts.  A row that is stored already takes the
next publication sequence when it is live and equal; a retired one and a
different one refuse the publication.
-/

namespace Lint4d.Store

open Lint4d.Lib Lint4d.Cache Lint4d.Facts

/-- `blake3::derive_key` in the domains the store uses: arbitrary functions of
the material. -/
structure Digests where
  manifest : Bytes → Digest
  facts : Bytes → Digest
  row : Bytes → Digest

variable (digests : Digests)

/-! ## Key manifests -/

/-- A key: a manifest of one kind, identified by its digest. -/
structure CanonicalKey where
  kind : KeyKind
  manifest : Bytes
deriving DecidableEq

def CanonicalKey.digest (key : CanonicalKey) : Digest := digests.manifest key.manifest

/-- An artifact key and, for an expanded artifact, the local key of its root. -/
structure ArtifactKeyRef where
  key : CanonicalKey
  root : Option CanonicalKey
  kinds : (root = none ∧ key.kind = .localArtifact) ∨
    (root.map CanonicalKey.kind = some .localArtifact ∧ key.kind = .expandedArtifact)

def checkManifestSize (key : CanonicalKey) : Except Bypass Unit :=
  if maxManifestBytes < key.manifest.length then
    .error (.tooLarge (.manifest key.manifest.length))
  else .ok ()

/-- Insert a key's manifest unless the identical manifest is stored. -/
def putManifest (tables : Tables) (key : CanonicalKey) : Except Bypass (Tables × Published) :=
  match tables.keyManifests.find? (key.digest digests) with
  | some row =>
    if row.manifest = key.manifest then .ok (tables, .alreadyPresent)
    else .error (.integrity .conflictingManifest)
  | none => do
    let keyManifests ← insertRow tables.keyManifests
      { digest := key.digest digests, kind := key.kind, manifest := key.manifest }
    pure ({ tables with keyManifests }, .inserted)

/-! ## Artifacts -/

/-- One fact row as a producer supplies it. -/
structure WriteRow where
  rowKind : UInt8
  indexKey : Option Bytes
  payload : Bytes
deriving DecidableEq

def WriteRow.keyBytes (row : WriteRow) : Nat := (row.indexKey.map List.length).getD 0

structure ArtifactWrite where
  key : ArtifactKeyRef
  supplemental : Bytes
  rows : List WriteRow

/-- The content bytes after one more row, checked against every limit. -/
def admitRow (content ordinal : Nat) (row : WriteRow) : Except Bypass Nat :=
  let bytes := row.payload.length + row.keyBytes
  if row.rowKind = 0 then .error (.invalidRowKind ordinal)
  else if maxIndexKeyBytes < row.keyBytes then
    .error (.tooLarge (.indexKey ordinal row.keyBytes))
  else if maxRowBatchBytes < bytes then .error (.tooLarge (.row ordinal bytes))
  else if maxArtifactContentBytes < content + bytes then
    .error (.tooLarge (.content (content + bytes)))
  else .ok (content + bytes)

def admitRows (content ordinal : Nat) : List WriteRow → Except Bypass Nat
  | [] => .ok content
  | row :: rows => do
    let content ← admitRow content ordinal row
    admitRows content (ordinal + 1) rows

def checkSupplementalSize (supplemental : Bytes) : Except Bypass Unit :=
  if maxSupplementalBytes < supplemental.length then
    .error (.tooLarge (.supplemental supplemental.length))
  else .ok ()

def checkRowCount (rows : List WriteRow) : Except Bypass Unit :=
  if maxArtifactRows < rows.length then .error (.tooLarge (.rows rows.length)) else .ok ()

/-- Check every admission limit before any work (`admit_write` of
`artifacts.rs`). -/
def ArtifactWrite.admit (write : ArtifactWrite) : Except Bypass Nat := do
  checkManifestSize write.key.key
  write.key.root.forM checkManifestSize
  checkSupplementalSize write.supplemental
  checkRowCount write.rows
  admitRows 0 0 write.rows

/-- The encoding of a row that its checksum and the fact checksum cover. -/
def rowEncoding (artifactId : Digest) (ordinal : Nat) (row : WriteRow) : Bytes :=
  artifactId.bytes ++ Encoder.u64 (UInt64.ofNat ordinal) ++ Encoder.u8 row.rowKind ++
    Encoder.option row.indexKey Encoder.bytes ++ Encoder.bytes row.payload

def FactHasher.new (artifactId : Digest) (rowCount : Nat) (supplemental : Bytes) : Hasher :=
  { fed := Encoder.digest artifactId ++ Encoder.u64 (UInt64.ofNat rowCount) ++
      Encoder.bytes supplemental }

def hashRows (artifactId : Digest) (hasher : Hasher) (ordinal : Nat) : List WriteRow → Hasher
  | [] => hasher
  | row :: rows =>
    hashRows artifactId (hasher.feed (rowEncoding artifactId ordinal row)) (ordinal + 1) rows

def factRows (artifactId : Digest) (ordinal : Nat) : List WriteRow → List FactRow
  | [] => []
  | row :: rows =>
    { artifactId, ordinal, rowKind := row.rowKind, indexKey := row.indexKey,
      payload := row.payload, rowChecksum := digests.row (rowEncoding artifactId ordinal row) } ::
    factRows artifactId (ordinal + 1) rows

/-- An admitted, hashed artifact write. -/
structure PreparedArtifact where
  artifactId : Digest
  expected : StoredHeader
  rows : List FactRow
deriving DecidableEq

def prepareArtifact (write : ArtifactWrite) : Except Bypass PreparedArtifact := do
  let contentBytes ← write.admit
  let artifactId := write.key.key.digest digests
  let hasher := hashRows artifactId
    (FactHasher.new artifactId write.rows.length write.supplemental) 0 write.rows
  pure {
    artifactId
    expected := {
      kind := write.key.key.kind
      rootKey := write.key.root.map (CanonicalKey.digest digests)
      lifecycle := .live
      rowCount := write.rows.length
      contentBytes
      factChecksum := hasher.finish digests.facts
      supplemental := write.supplemental }
    rows := factRows digests artifactId 0 write.rows }

/-- The header and the rows of a prepared artifact, unless the identical artifact
is stored. -/
def putArtifact (prepared : PreparedArtifact) (tables : Tables) :
    Except Bypass (Tables × Published) :=
  let (tables, sequence) := nextPublicationSeq tables
  match tables.artifacts.find? prepared.artifactId with
  | some row =>
    if row.stored.lifecycle ≠ .live then .error .retiring
    else if row.stored = prepared.expected then
      .ok ({ tables with
        artifacts := tables.artifacts.update (fun row => row.artifactId = prepared.artifactId)
          (fun row => { row with publicationSeq := sequence }) fun _ => rfl }, .alreadyPresent)
    else .error (.integrity .conflictingArtifact)
  | none => do
    let artifacts ← insertRow tables.artifacts
      { artifactId := prepared.artifactId, stored := prepared.expected, publicationSeq := sequence }
    let artifactRows ← insertRows tables.artifactRows prepared.rows
    pure ({ tables with artifacts, artifactRows }, .inserted)

def putRoot (tables : Tables) : Option CanonicalKey → Except Bypass Tables
  | some root => do
    let (tables, _) ← putManifest digests tables root
    pure tables
  | none => pure tables

/-- `insert_prepared`: the key manifests, then the artifact. -/
def insertPrepared (write : ArtifactWrite) (prepared : PreparedArtifact) (tables : Tables) :
    Except Bypass (Tables × Published) := do
  let (tables, _) ← putManifest digests tables write.key.key
  let tables ← putRoot digests tables write.key.root
  putArtifact prepared tables

/-- `publish_artifact`. -/
def publishArtifact (artifact : ArtifactWrite) (txn : Txn) (lease : ProcessLease)
    (tables : Tables) : ProcessLease × Except Bypass (Tables × Published) :=
  match prepareArtifact digests artifact with
  | .error bypass => (lease, .error bypass)
  | .ok prepared => write txn lease tables (insertPrepared digests artifact prepared)

/-- The rows of encoded facts as a producer hands them over. -/
def writeRows (encoded : EncodedFacts) : List WriteRow :=
  encoded.rows.map fun row =>
    { rowKind := row.rowKind, indexKey := row.indexKey.map Vec.toList, payload := row.payload }

/-- `publish_facts`, after the scratch was reserved. -/
def publishFacts (key : ArtifactKeyRef) (facts : ArtifactFacts) (txn : Txn)
    (lease : ProcessLease) (tables : Tables) :
    ProcessLease × Except Bypass (Tables × Published) :=
  match encodeFacts facts with
  | .error limit => (lease, .error (.tooLarge limit))
  | .ok encoded =>
    publishArtifact digests
      { key, supplemental := encoded.supplemental, rows := writeRows encoded } txn lease tables

/-! ## Evidence sets -/

/-- An observation as it is stored. -/
structure EncodedObservation where
  kind : UInt8
  pathKey : Bytes
  payload : Bytes
deriving DecidableEq

def checkObservationCount (observations : List Observation) : Except Bypass Unit :=
  if maxEvidenceObservations < observations.length then
    .error (.tooLarge (.observations observations.length))
  else .ok ()

/-- The content bytes after one more stored item with a key and a payload. -/
def admitItem (content ordinal keyBytes payloadBytes : Nat) : Except Bypass Nat :=
  let bytes := payloadBytes + keyBytes
  if maxIndexKeyBytes < keyBytes then .error (.tooLarge (.indexKey ordinal keyBytes))
  else if maxRowBatchBytes < bytes then .error (.tooLarge (.row ordinal bytes))
  else if maxArtifactContentBytes < content + bytes then
    .error (.tooLarge (.content (content + bytes)))
  else .ok (content + bytes)

/-- The loop of `encode_observations`. -/
def encodeObservationsFrom (content ordinal : Nat) :
    List Observation → Except Bypass (List EncodedObservation × Nat)
  | [] => .ok ([], content)
  | observation :: observations => do
    let key := pathKey observation.path
    let payload := observation.encode
    let content ← admitItem content ordinal key.length payload.length
    let (encoded, content) ← encodeObservationsFrom content (ordinal + 1) observations
    pure ({ kind := observation.kind, pathKey := key, payload } :: encoded, content)

def encodeObservations (observations : List Observation) :
    Except Bypass (List EncodedObservation × Nat) := do
  checkObservationCount observations
  encodeObservationsFrom 0 0 observations

/-- An encoded, admitted and hashed evidence set. -/
structure PreparedEvidence where
  id : Digest
  expected : StoredEvidence
  observations : List EncodedObservation
deriving DecidableEq

def prepareEvidence (subject : EvidenceSubject) (artifact : Option Digest)
    (observations : List Observation) : Except Bypass PreparedEvidence := do
  let (encoded, bytes) ← encodeObservations observations
  let hasher := encoded.foldl (fun hasher observation => hasher.feed observation.payload)
    (EvidenceHasher.new subject artifact encoded.length)
  pure {
    id := hasher.finish digests.manifest
    expected := {
      purpose := subject.purpose
      contextKey := subject.context
      subjectKey := subject.subject
      artifactId := artifact
      lifecycle := .live
      observationCount := encoded.length
      contentBytes := bytes }
    observations := encoded }

def observationRows (evidenceId : Digest) (ordinal : Nat) :
    List EncodedObservation → List ObservationRow
  | [] => []
  | observation :: observations =>
    { evidenceId, ordinal, kind := observation.kind, pathKey := observation.pathKey,
      payload := observation.payload } ::
    observationRows evidenceId (ordinal + 1) observations

/-- `insert_evidence`. -/
def insertEvidence (prepared : PreparedEvidence) (tables : Tables) :
    Except Bypass (Tables × Published) :=
  let (tables, sequence) := nextPublicationSeq tables
  match tables.evidenceSets.find? prepared.id with
  | some row =>
    if row.stored.lifecycle ≠ .live then .error .retiring
    else if row.stored = prepared.expected then
      .ok ({ tables with
        evidenceSets := tables.evidenceSets.update (fun row => row.evidenceId = prepared.id)
          (fun row => { row with publicationSeq := sequence }) fun _ => rfl }, .alreadyPresent)
    else .error (.integrity .conflictingEvidence)
  | none => do
    let evidenceSets ← insertRow tables.evidenceSets
      { evidenceId := prepared.id, stored := prepared.expected, publicationSeq := sequence }
    let observations ← insertRows tables.observations
      (observationRows prepared.id 0 prepared.observations)
    pure ({ tables with evidenceSets, observations }, .inserted)

structure EvidenceWrite where
  context : CanonicalKey
  observations : List Observation

structure PublishedEvidence where
  artifact : Published
  evidence : Published
deriving DecidableEq

/-- What `publish_facts_with_evidence` prepares before its transaction. -/
def prepareFactsWithEvidence (key : ArtifactKeyRef) (facts : ArtifactFacts)
    (evidence : EvidenceWrite) :
    Except Bypass (ArtifactWrite × PreparedArtifact × PreparedEvidence) :=
  match key.root with
  | none => .error .evidenceForLocalArtifact
  | some root => do
    checkManifestSize evidence.context
    let _ ← (encodedContentBytes facts).mapError Bypass.tooLarge
    checkObservationCount evidence.observations
    let prepared ← prepareEvidence digests
      { purpose := .artifact, context := evidence.context.digest digests,
        subject := root.digest digests }
      (some (key.key.digest digests)) evidence.observations
    let encoded ← (encodeFacts facts).mapError Bypass.tooLarge
    let write : ArtifactWrite :=
      { key, supplemental := encoded.supplemental, rows := writeRows encoded }
    let artifact ← prepareArtifact digests write
    pure (write, artifact, prepared)

/-- The statements of `publish_facts_with_evidence`: the artifact, then the
evidence that concludes it. -/
def insertWithEvidence (artifact : ArtifactWrite) (context : CanonicalKey)
    (prepared : PreparedArtifact) (evidence : PreparedEvidence) (tables : Tables) :
    Except Bypass (Tables × PublishedEvidence) := do
  let (tables, published) ← insertPrepared digests artifact prepared tables
  let (tables, _) ← putManifest digests tables context
  let (tables, concluded) ← insertEvidence evidence tables
  pure (tables, { artifact := published, evidence := concluded })

def publishFactsWithEvidence (key : ArtifactKeyRef) (facts : ArtifactFacts)
    (evidence : EvidenceWrite) (txn : Txn) (lease : ProcessLease) (tables : Tables) :
    ProcessLease × Except Bypass (Tables × PublishedEvidence) :=
  match prepareFactsWithEvidence digests key facts evidence with
  | .error bypass => (lease, .error bypass)
  | .ok (artifact, prepared, concluded) =>
    write txn lease tables (insertWithEvidence digests artifact evidence.context prepared concluded)

/-- The subject of evidence that concludes no artifact. -/
inductive EvidenceTarget where
  | binding (key : CanonicalKey)
  | discovery (key : CanonicalKey)

def EvidenceTarget.purpose : EvidenceTarget → EvidencePurpose
  | binding _ => .binding
  | discovery _ => .discovery

def EvidenceTarget.key : EvidenceTarget → CanonicalKey
  | binding key => key
  | discovery key => key

structure PublishedSet where
  evidenceId : Digest
  published : Published
deriving DecidableEq

def prepareTargetEvidence (target : EvidenceTarget) (evidence : EvidenceWrite) :
    Except Bypass PreparedEvidence := do
  checkManifestSize evidence.context
  checkManifestSize target.key
  checkObservationCount evidence.observations
  prepareEvidence digests
    { purpose := target.purpose, context := evidence.context.digest digests,
      subject := target.key.digest digests }
    none evidence.observations

def insertTargetEvidence (target : EvidenceTarget) (context : CanonicalKey)
    (prepared : PreparedEvidence) (tables : Tables) : Except Bypass (Tables × PublishedSet) := do
  let (tables, _) ← putManifest digests tables context
  let (tables, _) ← putManifest digests tables target.key
  let (tables, published) ← insertEvidence prepared tables
  pure (tables, { evidenceId := prepared.id, published })

/-- `publish_evidence`. -/
def publishEvidence (target : EvidenceTarget) (evidence : EvidenceWrite) (txn : Txn)
    (lease : ProcessLease) (tables : Tables) :
    ProcessLease × Except Bypass (Tables × PublishedSet) :=
  match prepareTargetEvidence digests target evidence with
  | .error bypass => (lease, .error bypass)
  | .ok prepared =>
    write txn lease tables (insertTargetEvidence digests target evidence.context prepared)

/-! ## Member records -/

/-- A binding as it is stored. -/
structure EncodedBinding where
  kind : UInt8
  outcome : UInt8
  targetKey : Option Bytes
  evidence : Option Digest
  payload : Bytes
deriving DecidableEq

structure EncodedRecord where
  id : Digest
  header : Bytes
  sourceKey : Bytes
  bindings : List EncodedBinding
  contentBytes : Nat
deriving DecidableEq

def encodeBindingsFrom (content ordinal : Nat) :
    List Binding → Except Bypass (List EncodedBinding × Nat)
  | [] => .ok ([], content)
  | binding :: bindings => do
    let targetKey := binding.outcome.target.map fun target => pathKey target.canonical
    let payload := binding.encode
    let content ← admitItem content ordinal ((targetKey.map List.length).getD 0) payload.length
    let (encoded, content) ← encodeBindingsFrom content (ordinal + 1) bindings
    pure ({ kind := binding.kind.tag, outcome := binding.outcome.tag, targetKey,
            evidence := binding.evidence, payload } :: encoded, content)

def checkHeaderSize (header : Bytes) : Except Bypass Unit :=
  if maxManifestBytes < header.length then .error (.tooLarge (.manifest header.length)) else .ok ()

def checkSourceKey (sourceKey : Bytes) : Except Bypass Unit :=
  if maxIndexKeyBytes < sourceKey.length then .error (.tooLarge (.sourceKey sourceKey.length))
  else .ok ()

variable (record : MemberRecord)

def encodeRecord : Except Bypass EncodedRecord := do
  let header := record.header.encode
  checkHeaderSize header
  let sourceKey := pathKey record.header.source.canonical
  checkSourceKey sourceKey
  let (bindings, contentBytes) ← encodeBindingsFrom 0 0 record.bindings.toList
  let hasher := bindings.foldl (fun hasher binding => hasher.feed binding.payload)
    (RecordHasher.new header record.bindings.toList.length)
  pure { id := hasher.finish digests.manifest, header, sourceKey, bindings, contentBytes }

def expectedRow (encoded : EncodedRecord) : StoredRecord where
  lifecycle := .live
  header := encoded.header
  sourceKey := encoded.sourceKey
  artifactId := record.header.artifact
  memberEvidence := record.header.memberEvidence
  bindingCount := encoded.bindings.length
  contentBytes := encoded.contentBytes

/-- A live artifact in the caller's transaction. -/
def requireArtifact (tables : Tables) (id : Digest) : Except Bypass Unit :=
  match tables.artifacts.find? id with
  | none => .error .missingReference
  | some row => if row.stored.lifecycle = .live then .ok () else .error .retiring

/-- A live evidence set of `purpose`; artifact evidence must conclude `artifact`. -/
def requireEvidence (tables : Tables) (id : Digest) (purpose : EvidencePurpose)
    (artifact : Option Digest) : Except Bypass Unit :=
  match tables.evidenceSets.find? id with
  | none => .error .missingReference
  | some row =>
    if row.stored.lifecycle ≠ .live then .error .retiring
    else if row.stored.purpose ≠ purpose ∨
        (purpose = .artifact ∧ row.stored.artifactId ≠ artifact) then
      .error (.invalidRecord .evidencePurpose)
    else .ok ()

/-- Every reference of a record is live. -/
def requireReferences (tables : Tables) : Except Bypass Unit := do
  record.header.artifact.forM (requireArtifact tables)
  record.header.memberEvidence.forM fun evidence =>
    requireEvidence tables evidence .artifact record.header.artifact
  -- Each evidence set is checked once.
  (record.bindings.toList.filterMap Binding.evidence).eraseDups.forM fun evidence =>
    requireEvidence tables evidence .binding none

def bindingRows (recordId : Digest) (ordinal : Nat) : List EncodedBinding → List BindingRow
  | [] => []
  | binding :: bindings =>
    { recordId, ordinal, kind := binding.kind, outcome := binding.outcome,
      targetKey := binding.targetKey, evidenceId := binding.evidence,
      payload := binding.payload } ::
    bindingRows recordId (ordinal + 1) bindings

/-- The record row and its bindings, unless the identical record is stored. -/
def insertRecord (encoded : EncodedRecord) (expected : StoredRecord) (tables : Tables) :
    Except Bypass (Tables × Published) :=
  let (tables, sequence) := nextPublicationSeq tables
  match tables.memberRecords.find? encoded.id with
  | some row =>
    if row.stored.lifecycle ≠ .live then .error .retiring
    else if row.stored = expected then
      .ok ({ tables with
        memberRecords := tables.memberRecords.update (fun row => row.recordId = encoded.id)
          (fun row => { row with publicationSeq := sequence }) fun _ => rfl }, .alreadyPresent)
    else .error (.integrity .conflictingRecord)
  | none => do
    let memberRecords ← insertRow tables.memberRecords
      { recordId := encoded.id, stored := expected, publicationSeq := sequence }
    let memberBindings ← insertRows tables.memberBindings
      (bindingRows encoded.id 0 encoded.bindings)
    pure ({ tables with memberRecords, memberBindings }, .inserted)

structure PublishedRecord where
  recordId : Digest
  published : Published
deriving DecidableEq

def checkBindingCount : Except Bypass Unit :=
  if maxMemberBindings < record.bindings.toList.length then
    .error (.tooLarge (.bindings record.bindings.toList.length))
  else .ok ()

def prepareRecord : Except Bypass EncodedRecord := do
  record.validate.mapError Bypass.invalidRecord
  checkBindingCount record
  encodeRecord digests record

def putRecord (encoded : EncodedRecord) (tables : Tables) :
    Except Bypass (Tables × PublishedRecord) := do
  requireReferences record tables
  let (tables, published) ← insertRecord encoded (expectedRow record encoded) tables
  pure (tables, { recordId := encoded.id, published })

/-- `publish_member_record`. -/
def publishMemberRecord (txn : Txn) (lease : ProcessLease)
    (tables : Tables) : ProcessLease × Except Bypass (Tables × PublishedRecord) :=
  match prepareRecord digests record with
  | .error bypass => (lease, .error bypass)
  | .ok encoded => write txn lease tables (putRecord record encoded)

end Lint4d.Store
