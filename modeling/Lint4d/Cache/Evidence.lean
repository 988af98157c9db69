import Lint4d.Cache.Record

/-!
# Evidence: durable observations

The inputs an analysis read or looked for (`evidence/mod.rs`), their canonical
encoding and the bounded decoder of one stored observation
(`evidence/decode.rs`).

The last section states what the record and observation decoders of the cache
accept, over whole byte strings.
-/

namespace Lint4d.Cache

open Lint4d.Lib Encoder Parser

/-! ## Data model -/

inductive SourceEncoding where
  | utf8Bom
  | utf8
  | latin1
deriving DecidableEq

/-- The payload of a source and the decoder it selects. -/
structure SourceContent where
  digest : Digest
  length : UInt64
  encoding : SourceEncoding
deriving DecidableEq

inductive ProjectPathProvenance where
  | legacyNative
  | configured
  | mapped (root : PathBuf)
deriving DecidableEq

structure ProjectPathEntry where
  path : PathBuf
  provenance : ProjectPathProvenance
deriving DecidableEq

/-- One input an analysis consumed. -/
inductive Observation where
  | payload (path : PathBuf) (entry : ProjectPathEntry) (content : SourceContent)
  | presence (path : PathBuf) (entry : Option ProjectPathEntry) (present : Bool)
  | listing (path : PathBuf) (entry : ProjectPathEntry) (names : Digest)
deriving DecidableEq

/-- The tag of an observation in its encoding. -/
def Observation.kind : Observation → UInt8
  | payload .. => 1
  | presence .. => 2
  | listing .. => 3

def Observation.path : Observation → PathBuf
  | payload path _ _ => path
  | presence path _ _ => path
  | listing path _ _ => path

/-! ## Encoding -/

def SourceEncoding.tag : SourceEncoding → UInt8
  | utf8Bom => 1
  | utf8 => 2
  | latin1 => 3

def SourceEncoding.encode (encoding : SourceEncoding) : Bytes := variant encoding.tag

def SourceContent.encode (content : SourceContent) : Bytes :=
  field 1 ++ Encoder.digest content.digest ++
  field 2 ++ u64 content.length ++
  field 3 ++ content.encoding.encode

def ProjectPathProvenance.encode : ProjectPathProvenance → Bytes
  | legacyNative => variant 1
  | configured => variant 2
  | mapped root => variant 3 ++ Encoder.path root

def ProjectPathEntry.encode (entry : ProjectPathEntry) : Bytes :=
  field 1 ++ Encoder.path entry.path ++
  field 2 ++ entry.provenance.encode

/-- The fields that follow the variant tag. -/
def Observation.encodeBody : Observation → Bytes
  | payload path entry content =>
    field 1 ++ Encoder.path path ++ field 2 ++ entry.encode ++ field 3 ++ content.encode
  | presence path entry present =>
    field 1 ++ Encoder.path path ++ field 2 ++ option entry ProjectPathEntry.encode ++
    field 3 ++ Encoder.bool present
  | listing path entry names =>
    field 1 ++ Encoder.path path ++ field 2 ++ entry.encode ++ field 3 ++ Encoder.digest names

def Observation.encode (observation : Observation) : Bytes :=
  variant observation.kind ++ observation.encodeBody

/-- The canonical encoding of a path: the stored index key. -/
def pathKey (path : PathBuf) : Bytes := Encoder.path path

/-! ## Decoding -/

/-- The bytes are not one well-formed observation. -/
structure ObservationError where
  message : String
deriving DecidableEq

namespace Reader

def provenance : Reader ProjectPathProvenance := do
  match ← u8 with
  | 1 => pure .legacyNative
  | 2 => pure .configured
  | 3 => do
    let root ← path
    pure (.mapped root)
  | _ => throw "unknown provenance"

def entry : Reader ProjectPathEntry := do
  field 1
  let path ← path
  field 2
  let provenance ← provenance
  pure { path, provenance }

def sourceEncoding : Reader SourceEncoding := do
  match ← u8 with
  | 1 => pure .utf8Bom
  | 2 => pure .utf8
  | 3 => pure .latin1
  | _ => throw "unknown source encoding"

def content : Reader SourceContent := do
  field 1
  let digest ← digest
  field 2
  let length ← u64
  field 3
  let encoding ← sourceEncoding
  pure { digest, length, encoding }

/-- The fields of an observation of the given kind. -/
def observationBody (kind : UInt8) : Reader Observation :=
  match kind with
  | 1 => do
    field 1
    let path ← path
    field 2
    let entry ← entry
    field 3
    let content ← content
    pure (.payload path entry content)
  | 2 => do
    field 1
    let path ← path
    field 2
    let entry ← optional entry
    field 3
    let present ← bool
    pure (.presence path entry present)
  | 3 => do
    field 1
    let path ← path
    field 2
    let entry ← entry
    field 3
    let listing ← digest
    pure (.listing path entry listing)
  | _ => throw "unknown observation kind"

def observationFields : Reader Observation := do
  let kind ← u8
  observationBody kind

def observation : Reader Observation := do
  let observation ← observationFields
  finish
  pure observation

end Reader

def decodeObservation (bytes : Bytes) : Except ObservationError Observation :=
  (Reader.decode Reader.observation bytes).mapError ObservationError.mk

/-! ## The decoder inverts the encoder -/

open Reader

lemma exact_provenance : Exact Always ProjectPathProvenance.encode provenance := by
  intro input v rest
  simp only [provenance, exact_u8.bind_ok]
  constructor
  · rintro ⟨_, -, mid, rfl, hk⟩
    split at hk
    · obtain ⟨rfl, rfl⟩ := pure_ok.mp hk
      exact ⟨trivial, rfl⟩
    · obtain ⟨rfl, rfl⟩ := pure_ok.mp hk
      exact ⟨trivial, rfl⟩
    · obtain ⟨root, -, mid, rfl, hp⟩ := exact_path.bind_ok.mp hk
      obtain ⟨rfl, rfl⟩ := pure_ok.mp hp
      exact ⟨trivial, rfl⟩
    · exact (throw_ok.mp hk).elim
  · rintro ⟨-, rfl⟩
    cases v with
    | legacyNative => exact ⟨1, trivial, rest, rfl, pure_ok.mpr ⟨rfl, rfl⟩⟩
    | configured => exact ⟨2, trivial, rest, rfl, pure_ok.mpr ⟨rfl, rfl⟩⟩
    | mapped root =>
      refine ⟨3, trivial, Encoder.path root ++ rest, rfl, ?_⟩
      exact exact_path.bind_ok.mpr ⟨root, trivial, rest, rfl, pure_ok.mpr ⟨rfl, rfl⟩⟩

lemma exact_entry : Exact Always ProjectPathEntry.encode entry := by
  refine Exact.of_enc (exact_field 1 <| exact_path.andThen ProjectPathEntry.path fun _ =>
    exact_field 2 <| exact_provenance.andThen ProjectPathEntry.provenance fun _ =>
    .of_pure fun v => ?_) fun v => ?_
  · cases v
    simp
  · simp [ProjectPathEntry.encode]

open SourceEncoding (tag)

lemma exact_sourceEncoding : Exact Always SourceEncoding.encode sourceEncoding := by
  refine (exact_u8.andThen tag fun t => ?_).of_enc fun _ => rfl
  split
  · exact .of_pure fun v => by cases v <;> simp [tag]
  · exact .of_pure fun v => by cases v <;> simp [tag]
  · exact .of_pure fun v => by cases v <;> simp [tag]
  · exact .of_throw fun v => by cases v <;> simp_all [tag, eq_comm]

lemma exact_content : Exact Always SourceContent.encode content := by
  refine Exact.of_enc (exact_field 1 <| exact_digest.andThen SourceContent.digest fun _ =>
    exact_field 2 <| exact_u64.andThen SourceContent.length fun _ =>
    exact_field 3 <| exact_sourceEncoding.andThen SourceContent.encoding fun _ =>
    .of_pure fun v => ?_) fun v => ?_
  · cases v
    simp [and_assoc]
  · simp [SourceContent.encode]

open Observation (encodeBody)

/-- An observation's fields, read under its kind tag. -/
lemma exact_observationBody (tag : UInt8) :
    Exact (fun v : Observation => v.kind = tag) encodeBody (observationBody tag) := by
  intro input v rest
  unfold observationBody
  split
  pick_goal 4
  · rw [throw_ok, false_iff]
    rintro ⟨rfl, -⟩
    cases v <;> simp_all [Observation.kind]
  -- each kind has three fields: a path, an entry and its own last one
  all_goals
    simp only [field_bind_ok, exact_path.bind_ok, exact_entry.bind_ok, exact_content.bind_ok,
      (exact_option exact_entry).bind_ok, exact_bool.bind_ok, exact_digest.bind_ok, pure_ok, true_and]
    constructor
    · rintro ⟨_, rfl, path, _, rfl, _, rfl, entry, _, rfl, _, rfl, last, _, rfl, rfl, rfl⟩
      exact ⟨rfl, by simp [encodeBody]⟩
    · rintro ⟨hkind, rfl⟩
      cases v <;> cases hkind
      refine ⟨_, ?_, _, _, rfl, _, rfl, _, _, rfl, _, rfl, _, _, rfl, rfl, rfl⟩
      simp [encodeBody]

/-- The reader of an observation inverts its encoding. -/
lemma exact_observationFields : Exact Always Observation.encode observationFields :=
  exact_u8.andThen Observation.kind fun tag => by simpa using exact_observationBody tag

/-! ## Whole stored parts

A part is stored alone in its column, so its decoder sees the whole byte string
and must use all of it. -/

lemma mapError_eq_ok {ε ε' α : Type} {f : ε → ε'} {x : Except ε α} {v : α} :
    x.mapError f = .ok v ↔ x = .ok v := by
  cases x <;> simp [Except.mapError]

variable (bytes : Bytes)

/-- A binding is decoded from the encoding of a valid one and nothing else. -/
lemma decodeBinding_eq_ok (v : Binding) :
    decodeBinding bytes = .ok v ↔ bindingError v 0 = none ∧ bytes = v.encode := by
  simp [decodeBinding, mapError_eq_ok, decode_ok, binding_run]

/-- A header is decoded from the encoding of a consistent one and nothing else. -/
lemma decodeMemberHeader_eq_ok (v : MemberHeader) :
    decodeMemberHeader bytes = .ok v ↔ v.evidenceWithoutArtifact = false ∧ bytes = v.encode := by
  simp [decodeMemberHeader, mapError_eq_ok, decode_ok, header_run]

lemma decodeSnapshotCoverage_eq_ok (v : SnapshotCoverage) :
    decodeSnapshotCoverage bytes = .ok v ↔ bytes = v.encode := by
  simp only [decodeSnapshotCoverage, mapError_eq_ok, decode_ok, snapshotCoverage,
    finish_pure_run exact_coverageFields]
  simp

/-- An observation is decoded from its encoding and nothing else. -/
lemma decodeObservation_eq_ok (v : Observation) :
    decodeObservation bytes = .ok v ↔ bytes = v.encode := by
  simp only [decodeObservation, mapError_eq_ok, decode_ok, observation,
    finish_pure_run exact_observationFields]
  simp

/-- The stored-part codecs are exact inverses: every valid value decodes from
its encoding, and whatever a decoder accepts is the encoding of the value it
returns. -/
theorem storedPart_codecs_exact :
    ((∀ (v : Binding) (ordinal : Nat), bindingError v ordinal = none →
        decodeBinding v.encode = .ok v) ∧
      (∀ v : MemberHeader, v.evidenceWithoutArtifact = false →
        decodeMemberHeader v.encode = .ok v) ∧
      (∀ v : SnapshotCoverage, decodeSnapshotCoverage v.encode = .ok v) ∧
      (∀ v : Observation, decodeObservation v.encode = .ok v)) ∧
    (∀ bytes : Bytes, (∀ v, decodeBinding bytes = .ok v → v.encode = bytes) ∧
      (∀ v, decodeMemberHeader bytes = .ok v → v.encode = bytes) ∧
      (∀ v, decodeSnapshotCoverage bytes = .ok v → v.encode = bytes) ∧
      (∀ v, decodeObservation bytes = .ok v → v.encode = bytes)) := by
  refine ⟨⟨?_, ?_, ?_, ?_⟩, ?_⟩
  · intro v ordinal hvalid
    have hvalid' : bindingError v 0 = none :=
      (bindingError_eq_none_iff v 0).mpr ((bindingError_eq_none_iff v ordinal).mp hvalid)
    exact (decodeBinding_eq_ok _ v).mpr ⟨hvalid', rfl⟩
  · intro v hvalid
    exact (decodeMemberHeader_eq_ok _ v).mpr ⟨hvalid, rfl⟩
  · intro v
    exact (decodeSnapshotCoverage_eq_ok _ v).mpr rfl
  · intro v
    exact (decodeObservation_eq_ok _ v).mpr rfl
  · intro bytes
    refine ⟨?_, ?_, ?_, ?_⟩
    · intro v h
      exact ((decodeBinding_eq_ok bytes v).mp h).2.symm
    · intro v h
      exact ((decodeMemberHeader_eq_ok bytes v).mp h).2.symm
    · intro v h
      exact ((decodeSnapshotCoverage_eq_ok bytes v).mp h).symm
    · intro v h
      exact ((decodeObservation_eq_ok bytes v).mp h).symm

/-- An unavailable include whose lookup is proved by some evidence. -/
def unavailableInclude : Binding where
  kind := .include
  occurrence := 7
  outcome := .unavailable
  evidence := some ⟨List.replicate 32 9, rfl⟩

theorem storedPart_codecs_exact_unavailableInclude :
    bindingError unavailableInclude 3 = none ∧
      decodeBinding unavailableInclude.encode = .ok unavailableInclude :=
  ⟨by decide, storedPart_codecs_exact.1.1 unavailableInclude 3 (by decide)⟩

end Lint4d.Cache
