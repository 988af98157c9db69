import Lint4d.Cache.Evidence

/-!
# Content identities

Records, evidence sets and snapshots are identified by the digest of a
manifest that is streamed into a hasher (`manifest.rs`, `RecordHasher`,
`EvidenceHasher`, `SnapshotHasher`).  A hasher is modelled by the bytes fed to
it; the digest is an arbitrary function of them, taken at the end.

The main result says that these byte streams determine what they identify, so
two identities can only collide where the digest function itself does.
-/

namespace Lint4d.Cache

open List hiding length
open Lint4d.Lib MemberRecord

variable {s t : Bytes}

/-! ## Manifest headers -/

/-- What a manifest describes. -/
inductive KeyKind where
  | «namespace»
  | localArtifact
  | expandedArtifact
  | context
  | member
  | evidence
  | lookup
  | discovery
  | memberRecord
  | snapshot
deriving DecidableEq

def KeyKind.tag : KeyKind → UInt8
  | «namespace» => 1
  | localArtifact => 2
  | expandedArtifact => 3
  | context => 4
  | member => 5
  | evidence => 6
  | lookup => 7
  | discovery => 8
  | memberRecord => 9
  | snapshot => 10

variable {k l : KeyKind}

lemma KeyKind.tag_injective (h : k.tag = l.tag) : k = l := by
  cases k <;> cases l <;> first | rfl | exact absurd h (by decide)

/-- `b"L4DC"`. -/
def manifestMagic : Bytes := [0x4C, 0x34, 0x44, 0x43]

def encodingVersion : UInt32 := 1

/-- The header every manifest starts with; the kind is its ninth byte. -/
def manifestEncoder (kind : KeyKind) : Bytes :=
  manifestMagic ++ Encoder.u32 encodingVersion ++ Encoder.u8 kind.tag

/-- Manifests of different kinds differ, whatever follows their headers. -/
lemma manifestEncoder_append_inj
    (h : manifestEncoder k ++ s = manifestEncoder l ++ t) : k = l ∧ s = t := by
  simp only [manifestEncoder, append_assoc, append_cancel_left_eq] at h
  have htag := exact_u8.append_inj trivial trivial h
  exact ⟨KeyKind.tag_injective htag.1, htag.2⟩

/-! ## Hashers -/

/-- A streaming hasher, as the bytes fed to it so far. -/
structure Hasher where
  fed : Bytes
deriving DecidableEq

namespace Hasher

/-- `Hasher::update`. -/
def feed (hasher : Hasher) (bytes : Bytes) : Hasher := { fed := hasher.fed ++ bytes }

/-- The digest of everything fed, for a digest function `derive`. -/
def finish (derive : Bytes → Digest) (hasher : Hasher) : Digest := derive hasher.fed

@[simp] lemma feed_fed (hasher : Hasher) (bytes : Bytes) :
    (hasher.feed bytes).fed = hasher.fed ++ bytes := rfl

/-- Feeding items one after the other appends their encodings. -/
lemma foldl_feed_fed {α : Type} (encode : α → Bytes) (items : List α) (hasher : Hasher) :
    (items.foldl (fun hasher item => hasher.feed (encode item)) hasher).fed =
      hasher.fed ++ items.flatMap encode := by
  induction items generalizing hasher with
  | nil => simp
  | cons item items ih => simp [ih]

end Hasher

open Encoder

/-! ### Member records -/

def RecordHasher.new (header : Bytes) (count : Nat) : Hasher :=
  { fed := manifestEncoder .memberRecord ++ field 1 ++ bytes header ++ field 2 ++ length count }

/-- The hasher of `MemberRecord::id` after the header and every binding. -/
def MemberRecord.hasher (record : MemberRecord) : Hasher :=
  record.bindings.toList.foldl (fun hasher binding => hasher.feed binding.encode)
    (RecordHasher.new record.header.encode record.bindings.toList.length)

/-- The record ID: the digest of its canonical manifest. -/
def MemberRecord.id (derive : Bytes → Digest) (record : MemberRecord) :
    Except MemberError Digest := do
  record.validate
  pure (record.hasher.finish derive)

/-! ### Evidence sets -/

/-- What an evidence set proves. -/
inductive EvidencePurpose where
  | artifact
  | binding
  | discovery
deriving DecidableEq

def EvidencePurpose.tag : EvidencePurpose → UInt8
  | artifact => 1
  | binding => 2
  | discovery => 3

lemma EvidencePurpose.tag_injective {p q : EvidencePurpose} (h : p.tag = q.tag) : p = q := by
  cases p <;> cases q <;> first | rfl | exact absurd h (by decide)

/-- Whose inputs an evidence set proves, under one complete context. -/
structure EvidenceSubject where
  purpose : EvidencePurpose
  context : Digest
  subject : Digest
deriving DecidableEq

def EvidenceHasher.new (subject : EvidenceSubject) (conclusion : Option Digest) (count : Nat) :
    Hasher :=
  { fed := manifestEncoder .evidence ++ field 1 ++ variant subject.purpose.tag ++
      field 2 ++ digest subject.context ++
      field 3 ++ digest subject.subject ++
      field 4 ++ option conclusion digest ++
      field 5 ++ length count }

/-- An evidence set: its subject, the artifact it concludes if any, and its
observations in order. -/
structure EvidenceSet where
  subject : EvidenceSubject
  conclusion : Option Digest
  observations : Vec Observation
deriving DecidableEq

/-- The hasher of `evidence_id` after every observation. -/
def EvidenceSet.hasher (evidence : EvidenceSet) : Hasher :=
  evidence.observations.toList.foldl (fun hasher observation => hasher.feed observation.encode)
    (EvidenceHasher.new evidence.subject evidence.conclusion evidence.observations.toList.length)

def evidenceId (derive : Bytes → Digest) (evidence : EvidenceSet) : Digest :=
  evidence.hasher.finish derive

/-! ### Snapshots -/

def SnapshotHasher.new (context : Digest) (discovery : Option Digest)
    (coverage : SnapshotCoverage) (count : UInt64) : Hasher :=
  { fed := manifestEncoder .snapshot ++ field 1 ++ digest context ++
      field 2 ++ option discovery digest ++
      field 3 ++ coverage.encode ++
      field 4 ++ u64 count }

open SnapshotHasher

/-- The part of one member: its record ID, then its length-prefixed source key. -/
def memberBytes (record : Digest) (sourceKey : Bytes) : Bytes :=
  record.bytes ++ u64 (UInt64.ofNat sourceKey.length) ++ sourceKey

def SnapshotHasher.update (hasher : Hasher) (record : Digest) (sourceKey : Bytes) : Hasher :=
  hasher.feed (memberBytes record sourceKey)

/-- What a sealed digest covers: the members are `(record ID, source key)` in
ordinal order. -/
structure SnapshotManifest where
  context : Digest
  discovery : Option Digest
  coverage : SnapshotCoverage
  members : Vec (Digest × Vec UInt8)
deriving DecidableEq

def SnapshotManifest.hasher (manifest : SnapshotManifest) : Hasher :=
  manifest.members.toList.foldl
    (fun hasher member => update hasher member.1 member.2.toList)
    (new manifest.context manifest.discovery manifest.coverage
      (UInt64.ofNat manifest.members.toList.length))

/-! ## Streams determine what they identify -/

lemma MemberRecord.hasher_fed (record : MemberRecord) :
    record.hasher.fed = manifestEncoder .memberRecord ++
      (field 1 ++ bytes record.header.encode ++ field 2 ++
        length record.bindings.toList.length ++ record.bindings.toList.flatMap Binding.encode) := by
  simp [hasher, Hasher.foldl_feed_fed, RecordHasher.new]

lemma EvidenceSet.hasher_fed (ev : EvidenceSet) :
    ev.hasher.fed = manifestEncoder .evidence ++ (field 1 ++ variant ev.subject.purpose.tag ++
        field 2 ++ digest ev.subject.context ++
        field 3 ++ digest ev.subject.subject ++
        field 4 ++ option ev.conclusion digest ++
        field 5 ++ length ev.observations.toList.length ++
        ev.observations.toList.flatMap Observation.encode) := by
  simp [EvidenceSet.hasher, Hasher.foldl_feed_fed, EvidenceHasher.new]

lemma SnapshotManifest.hasher_fed (manifest : SnapshotManifest) :
    manifest.hasher.fed = manifestEncoder .snapshot ++ (field 1 ++ digest manifest.context ++
        field 2 ++ option manifest.discovery digest ++
        field 3 ++ manifest.coverage.encode ++
        field 4 ++ length manifest.members.toList.length ++
        manifest.members.toList.flatMap fun member => memberBytes member.1 member.2.toList) := by
  simp only [SnapshotManifest.hasher, update]
  rw [Hasher.foldl_feed_fed fun member : Digest × Vec UInt8 => memberBytes member.1 member.2.toList]
  simp [new, length]

/-- A count written up front fixes the number of items. -/
lemma length_append_inj {m n : Nat} (hm : m < 2 ^ 64) (hn : n < 2 ^ 64)
    (h : length m ++ s = length n ++ t) : m = n ∧ s = t := by
  have hcount := exact_length.append_inj trivial trivial h
  have hnat := congrArg UInt64.toNat hcount.1
  rw [UInt64.toNat_ofNat_of_lt' hm, UInt64.toNat_ofNat_of_lt' hn] at hnat
  exact ⟨hnat, hcount.2⟩

/-- The reader the member part would have; it shows the part self-delimiting. -/
lemma exact_member :
    Exact Always (fun member : Digest × Vec UInt8 => memberBytes member.1 member.2.toList)
      (do let record ← Reader.digest; let key ← Reader.vec; pure (record, key)) := by
  refine Exact.of_enc (exact_digest.andThen Prod.fst fun _ => exact_vec.andThen Prod.snd fun _ =>
    .of_pure fun v => ?_) fun v => ?_
  · simp [Prod.ext_iff]
  · simp [memberBytes, digest, bytes, length]

lemma validateBindings_ok_mem {prev : Option (UInt8 × UInt64)} {ordinal : Nat}
    {bindings : List Binding} (h : validateBindings prev ordinal bindings = .ok ()) :
    ∀ binding ∈ bindings, binding.outcome.candidatesFit := by
  induction bindings generalizing prev ordinal with
  | nil => simp
  | cons binding bindings ih =>
    unfold validateBindings at h
    split at h
    · cases h
    · rename_i hvalid
      split at h
      · cases h
      · refine forall_mem_cons.mpr ⟨candidatesFit_of_bindingError hvalid, ih h⟩

lemma MemberRecord.validate_ok_mem {record : MemberRecord} (h : record.validate = .ok ()) :
    ∀ binding ∈ record.bindings.toList, binding.outcome.candidatesFit := by
  unfold validate at h
  split at h
  · cases h
  · exact validateBindings_ok_mem h

lemma MemberRecord.hasher_injective {r s : MemberRecord} (hr : r.validate = .ok ())
    (hs : s.validate = .ok ()) (h : r.hasher.fed = s.hasher.fed) : r = s := by
  rw [hasher_fed, hasher_fed] at h
  have hbody := (manifestEncoder_append_inj h).2
  simp only [bytes, length, append_assoc, append_cancel_left_eq] at hbody
  -- The length prefixes agree, so the headers themselves line up; a header is
  -- self-delimiting and needs no bound on its length.
  have hheader := (exact_length.append_inj trivial trivial hbody).2
  obtain ⟨hfields, htail⟩ := exact_headerFields.append_inj trivial trivial hheader
  rw [append_cancel_left_eq] at htail
  have hcount := length_append_inj r.bindings.bounded s.bindings.bounded htail
  have hitems : r.bindings.toList.flatMap Binding.encode ++ [] =
      s.bindings.toList.flatMap Binding.encode ++ [] := by
    rw [hcount.2]
  have hbinds := exact_bindingFields.flatMap_inj (validate_ok_mem hr) (validate_ok_mem hs)
    hcount.1 hitems
  cases r
  cases s
  rw [mk.injEq]
  exact ⟨hfields, Vec.ext hbinds.1⟩

lemma EvidenceSet.hasher_injective {e f : EvidenceSet} (h : e.hasher.fed = f.hasher.fed) :
    e = f := by
  rw [hasher_fed, hasher_fed] at h
  have hbody := (manifestEncoder_append_inj h).2
  simp only [append_assoc, append_cancel_left_eq] at hbody
  obtain ⟨hpurpose, htail⟩ := exact_u8.append_inj trivial trivial hbody
  rw [append_cancel_left_eq] at htail
  obtain ⟨hctx, htail⟩ := exact_digest.append_inj trivial trivial htail
  rw [append_cancel_left_eq] at htail
  obtain ⟨hsubject, htail⟩ := exact_digest.append_inj trivial trivial htail
  rw [append_cancel_left_eq] at htail
  obtain ⟨hconclusion, htail⟩ := (exact_option exact_digest).append_inj trivial trivial htail
  rw [append_cancel_left_eq] at htail
  have hcount := length_append_inj e.observations.bounded f.observations.bounded htail
  have hitems : e.observations.toList.flatMap Observation.encode ++ [] =
      f.observations.toList.flatMap Observation.encode ++ [] := by
    rw [hcount.2]
  have hobs := exact_observationFields.flatMap_inj (fun _ _ => trivial)
    (fun _ _ => trivial) hcount.1 hitems
  obtain ⟨⟨_, _, _⟩, _, observations⟩ := e
  obtain ⟨⟨_, _, _⟩, _, _⟩ := f
  simp only [EvidenceSet.mk.injEq, EvidenceSubject.mk.injEq]
  exact ⟨⟨EvidencePurpose.tag_injective hpurpose, hctx, hsubject⟩, hconclusion, Vec.ext hobs.1⟩

lemma SnapshotManifest.hasher_injective {a b : SnapshotManifest}
    (h : a.hasher.fed = b.hasher.fed) : a = b := by
  rw [hasher_fed, hasher_fed] at h
  have hbody := (manifestEncoder_append_inj h).2
  simp only [append_assoc, append_cancel_left_eq] at hbody
  obtain ⟨hctx, htail⟩ := exact_digest.append_inj trivial trivial hbody
  rw [append_cancel_left_eq] at htail
  obtain ⟨hdisc, htail⟩ := (exact_option exact_digest).append_inj trivial trivial htail
  rw [append_cancel_left_eq] at htail
  obtain ⟨hcov, htail⟩ := exact_coverageFields.append_inj trivial trivial htail
  rw [append_cancel_left_eq] at htail
  have hcount := length_append_inj a.members.bounded b.members.bounded htail
  have hitems := congrArg (· ++ ([] : Bytes)) hcount.2
  have hmems := exact_member.flatMap_inj (fun _ _ => trivial) (fun _ _ => trivial)
    hcount.1 hitems
  cases a
  cases b
  rw [SnapshotManifest.mk.injEq]
  exact ⟨hctx, hdisc, hcov, Vec.ext hmems.1⟩

/-- The byte streams hashed for identities of each kind: the streamed manifests,
and the stored key manifests (namespaces, artifacts, contexts, lookups, ...),
which all start from the header of their kind. -/
inductive IdentityStream : KeyKind → Bytes → Prop where
  | record (record : MemberRecord) (valid : record.validate = .ok ()) :
      IdentityStream .memberRecord record.hasher.fed
  | evidence (evidence : EvidenceSet) : IdentityStream .evidence evidence.hasher.fed
  | snapshot (manifest : SnapshotManifest) : IdentityStream .snapshot manifest.hasher.fed
  | key (kind : KeyKind) (fields : Bytes) : IdentityStream kind (manifestEncoder kind ++ fields)

lemma IdentityStream.exists_fields {kind : KeyKind} {stream : Bytes}
    (h : IdentityStream kind stream) : ∃ fields, stream = manifestEncoder kind ++ fields := by
  cases h with
  | record record => exact ⟨_, record.hasher_fed⟩
  | evidence evidence => exact ⟨_, evidence.hasher_fed⟩
  | snapshot manifest => exact ⟨_, manifest.hasher_fed⟩
  | key kind fields => exact ⟨fields, rfl⟩

/-- Content identities collide only where the digest does: equal streams have
equal kinds and identify equal values. -/
theorem identityStreams_injective :
    (∀ r s : MemberRecord, r.validate = .ok () → s.validate = .ok () →
      r.hasher.fed = s.hasher.fed → r = s) ∧
    (∀ e f : EvidenceSet, e.hasher.fed = f.hasher.fed → e = f) ∧
    (∀ a b : SnapshotManifest, a.hasher.fed = b.hasher.fed → a = b) ∧
    (∀ (k l : KeyKind) (s t : Bytes), IdentityStream k s → IdentityStream l t → k ≠ l → s ≠ t) := by
  refine ⟨fun r s => hasher_injective, fun e f => EvidenceSet.hasher_injective,
    fun a b => SnapshotManifest.hasher_injective, ?_⟩
  intro k l s t hs ht hne heq
  obtain ⟨_, rfl⟩ := hs.exists_fields
  obtain ⟨_, rfl⟩ := ht.exists_fields
  exact hne (manifestEncoder_append_inj heq).1

/-- A source known by its canonical path only. -/
def bareIdentity (path : Bytes) (h : path.length < 2 ^ 64) : SourceIdentity where
  canonical := ⟨path, h⟩
  logical := ⟨path, h⟩
  spelling := none
  uri := none

/-- A member with no artifact and one unavailable include. -/
def bareRecord (origin : SourceOrigin) : MemberRecord where
  header := {
    source := bareIdentity [0x2F, 0x61] (by decide)
    artifact := none
    memberEvidence := none
    origin
    fallbackUnitName := none
    coverage := { extraction := .complete, resolution := .complete } }
  bindings := ⟨[unavailableInclude], by decide⟩

theorem identityStreams_injective_bareRecord :
    (bareRecord .library).validate = .ok () ∧
      (bareRecord .projectCompiled).hasher.fed ≠ (bareRecord .library).hasher.fed := by
  refine ⟨by decide, fun h => ?_⟩
  have heq := identityStreams_injective.1 (bareRecord .projectCompiled) (bareRecord .library)
    (by decide) (by decide) h
  exact absurd (congrArg (fun r => r.header.origin) heq) (by decide)

end Lint4d.Cache
