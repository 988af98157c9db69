import Lint4d.Cache.Encoding

/-!
# Member records

One member of a context and its resolved imports and includes (`record/mod.rs`,
`source.rs`), its canonical encoding, and the bounded decoder of its stored
parts (`record/decode.rs`).

The encoder and the decoder are separate hand-written functions of the source
and are translated separately; the `exact_` lemmas pair them, one per type.
-/

namespace Lint4d.Cache

open Lint4d.Lib Parser

variable {α : Type} {read : Reader α} {enc : α → Bytes}

/-! ## Data model -/

/-- How one source is known; each part is kept as it was given. -/
structure SourceIdentity where
  canonical : PathBuf
  logical : PathBuf
  spelling : Option Str
  uri : Option Str
deriving DecidableEq

/-- Why a result is incomplete under its exact inputs. -/
inductive IncompleteReason where
  | unsupported
  | unknownConditional
  | compiledProvider
  | overSizeLimit
  | unauthorized
deriving DecidableEq

def IncompleteReason.tag : IncompleteReason → UInt8
  | unsupported => 1
  | unknownConditional => 2
  | compiledProvider => 3
  | overSizeLimit => 4
  | unauthorized => 5

def IncompleteReason.fromTag : UInt8 → Option IncompleteReason
  | 1 => some unsupported
  | 2 => some unknownConditional
  | 3 => some compiledProvider
  | 4 => some overSizeLimit
  | 5 => some unauthorized
  | _ => none

inductive CoverageStatus where
  | complete
  | incomplete (reason : IncompleteReason)
deriving DecidableEq

structure MemberCoverage where
  extraction : CoverageStatus
  resolution : CoverageStatus
deriving DecidableEq

structure SnapshotCoverage where
  discovery : CoverageStatus
  membership : CoverageStatus
deriving DecidableEq

inductive BindingKind where
  | «import»
  | «include»
deriving DecidableEq

def BindingKind.tag : BindingKind → UInt8
  | «import» => 1
  | «include» => 2

def BindingKind.fromTag : UInt8 → Option BindingKind
  | 1 => some «import»
  | 2 => some «include»
  | _ => none

/-- What the resolver concluded about one occurrence. -/
inductive BindingOutcome where
  | precise (target : SourceIdentity)
  | ambiguous (candidates : Vec SourceIdentity) (overflow : Bool)
  | unavailable
  | incomplete (reason : IncompleteReason)
deriving DecidableEq

open BindingOutcome

def BindingOutcome.tag : BindingOutcome → UInt8
  | precise _ => 1
  | ambiguous _ _ => 2
  | unavailable => 3
  | incomplete _ => 4

def BindingOutcome.target : BindingOutcome → Option SourceIdentity
  | precise target => some target
  | _ => none

structure Binding where
  kind : BindingKind
  occurrence : UInt64
  outcome : BindingOutcome
  evidence : Option Digest
deriving DecidableEq

inductive SourceOrigin where
  | projectCompiled
  | library
deriving DecidableEq

structure MemberHeader where
  source : SourceIdentity
  artifact : Option Digest
  memberEvidence : Option Digest
  origin : SourceOrigin
  fallbackUnitName : Option Str
  coverage : MemberCoverage
deriving DecidableEq

structure MemberRecord where
  header : MemberHeader
  bindings : Vec Binding
deriving DecidableEq

/-! ## Invariants -/

def maxAmbiguousCandidates : Nat := 16

inductive MemberError where
  | evidenceWithoutArtifact
  | bindingOrder (ordinal : Nat)
  | missingEvidence (ordinal : Nat)
  | candidates (ordinal : Nat)
  | evidencePurpose
deriving DecidableEq

/-- The candidate list of an ambiguous outcome is out of range. -/
def BindingOutcome.candidatesOutOfRange : BindingOutcome → Bool
  | ambiguous candidates overflow =>
    candidates.toList.length < 2 || maxAmbiguousCandidates < candidates.toList.length
      || (overflow && candidates.toList.length != maxAmbiguousCandidates)
  | _ => false

def BindingOutcome.needsEvidence : BindingOutcome → Bool
  | incomplete _ => false
  | _ => true

/-- The invariants of one binding, apart from its position in the record. -/
def bindingError (binding : Binding) (ordinal : Nat) : Option MemberError :=
  if binding.outcome.candidatesOutOfRange then
    some (.candidates ordinal)
  else if binding.outcome.needsEvidence && binding.evidence.isNone then
    some (.missingEvidence ordinal)
  else none

/-- The stored order: by kind tag, then occurrence. -/
def Binding.orderKey (binding : Binding) : UInt8 × UInt64 :=
  (binding.kind.tag, binding.occurrence)

/-- `previous >= key` on the lexicographically ordered pairs. -/
def orderKeyLe (key previous : UInt8 × UInt64) : Bool :=
  key.1 < previous.1 || (key.1 == previous.1 && key.2 ≤ previous.2)

/-- The loop of `MemberRecord::validate` over the remaining bindings. -/
def validateBindings (previous : Option (UInt8 × UInt64)) (ordinal : Nat) :
    List Binding → Except MemberError Unit
  | [] => .ok ()
  | binding :: bindings =>
    match bindingError binding ordinal with
    | some error => .error error
    | none =>
      if previous.any (orderKeyLe binding.orderKey) then
        .error (.bindingOrder ordinal)
      else
        validateBindings (some binding.orderKey) (ordinal + 1) bindings

def MemberHeader.evidenceWithoutArtifact (header : MemberHeader) : Bool :=
  header.memberEvidence.isSome && header.artifact.isNone

/-- The checks a record passes before it is stored. -/
def MemberRecord.validate (record : MemberRecord) : Except MemberError Unit :=
  if record.header.evidenceWithoutArtifact then
    .error .evidenceWithoutArtifact
  else
    validateBindings none 0 record.bindings.toList

/-! ## Encoding -/

open Encoder

def SourceIdentity.encode (identity : SourceIdentity) : Bytes :=
  field 1 ++ path identity.canonical ++
  field 2 ++ path identity.logical ++
  field 3 ++ option identity.spelling str ++
  field 4 ++ option identity.uri str

def IncompleteReason.encode (reason : IncompleteReason) : Bytes := variant reason.tag

def CoverageStatus.encode : CoverageStatus → Bytes
  | complete => variant 1
  | incomplete reason => variant 2 ++ reason.encode

def MemberCoverage.encode (coverage : MemberCoverage) : Bytes :=
  field 1 ++ coverage.extraction.encode ++ field 2 ++ coverage.resolution.encode

def SnapshotCoverage.encode (coverage : SnapshotCoverage) : Bytes :=
  field 1 ++ coverage.discovery.encode ++ field 2 ++ coverage.membership.encode

/-- What follows the variant tag of an outcome. -/
def BindingOutcome.encodeBody : BindingOutcome → Bytes
  | precise target => target.encode
  | ambiguous candidates overflow =>
    seq candidates.toList SourceIdentity.encode ++ Encoder.bool overflow
  | unavailable => []
  | incomplete reason => reason.encode

def BindingOutcome.encode (outcome : BindingOutcome) : Bytes :=
  variant outcome.tag ++ outcome.encodeBody

def Binding.encode (binding : Binding) : Bytes :=
  field 1 ++ variant binding.kind.tag ++
  field 2 ++ u64 binding.occurrence ++
  field 3 ++ binding.outcome.encode ++
  field 4 ++ option binding.evidence digest

def SourceOrigin.encode : SourceOrigin → Bytes
  | projectCompiled => variant 1
  | library => variant 2

def MemberHeader.encode (header : MemberHeader) : Bytes :=
  field 1 ++ header.source.encode ++
  field 2 ++ option header.artifact digest ++
  field 3 ++ option header.memberEvidence digest ++
  field 4 ++ header.origin.encode ++
  field 5 ++ option header.fallbackUnitName str ++
  field 6 ++ header.coverage.encode

/-! ## Decoding -/

/-- The bytes are not one well-formed record part. -/
structure RecordDecodeError where
  message : String
deriving DecidableEq

namespace Reader

def reason : Reader IncompleteReason := do
  okOr (IncompleteReason.fromTag (← u8)) "unknown reason"

def status : Reader CoverageStatus := do
  match ← u8 with
  | 1 => pure .complete
  | 2 => do
    let reason ← reason
    pure (.incomplete reason)
  | _ => throw "unknown coverage status"

def identity : Reader SourceIdentity := do
  field 1
  let canonical ← path
  field 2
  let logical ← path
  field 3
  let spelling ← optional str
  field 4
  let uri ← optional str
  pure { canonical, logical, spelling, uri }

def origin : Reader SourceOrigin := do
  match ← u8 with
  | 1 => pure .projectCompiled
  | 2 => pure .library
  | _ => throw "unknown origin"

/-- The fields of a header; `header` requires that nothing follows them. -/
def headerFields : Reader MemberHeader := do
  field 1
  let source ← identity
  field 2
  let artifact ← optional digest
  field 3
  let memberEvidence ← optional digest
  field 4
  let origin ← origin
  field 5
  let fallbackUnitName ← optional str
  field 6
  field 1
  let extraction ← status
  field 2
  let resolution ← status
  pure {
    source, artifact, memberEvidence, origin, fallbackUnitName,
    coverage := { extraction, resolution } }

def header : Reader MemberHeader := do
  let header ← headerFields
  finish
  if header.memberEvidence.isSome && header.artifact.isNone then
    throw "member evidence without an artifact"
  pure header

def kind : Reader BindingKind := do
  okOr (BindingKind.fromTag (← u8)) "unknown binding kind"

/-- The counted candidate list; the count is checked before anything is read. -/
def candidates : Reader (Vec SourceIdentity) := do
  let count ← length
  if maxAmbiguousCandidates < count.toNat then
    throw "too many candidates"
  let candidates ← times identity count.toNat
  pure ⟨candidates.val, candidates.property.trans_lt count.toNat_lt⟩

def outcome : Reader BindingOutcome := do
  match ← u8 with
  | 1 => do
    let target ← identity
    pure (.precise target)
  | 2 => do
    let candidates ← candidates
    let overflow ← bool
    pure (.ambiguous candidates overflow)
  | 3 => pure .unavailable
  | 4 => do
    let reason ← reason
    pure (.incomplete reason)
  | _ => throw "unknown binding outcome"

def bindingFields : Reader Binding := do
  field 1
  let kind ← kind
  field 2
  let occurrence ← u64
  field 3
  let outcome ← outcome
  field 4
  let evidence ← optional digest
  pure { kind, occurrence, outcome, evidence }

def binding : Reader Binding := do
  let binding ← bindingFields
  finish
  match bindingError binding 0 with
  | some _ => throw "binding breaks an invariant"
  | none => pure binding

def coverageFields : Reader SnapshotCoverage := do
  field 1
  let discovery ← status
  field 2
  let membership ← status
  pure { discovery, membership }

def snapshotCoverage : Reader SnapshotCoverage := do
  let coverage ← coverageFields
  finish
  pure coverage

/-- Run a reader over one whole byte string. -/
def decode {α : Type} (read : Reader α) (bytes : Bytes) : Except String α :=
  read.run' bytes

end Reader

def decodeMemberHeader (bytes : Bytes) : Except RecordDecodeError MemberHeader :=
  (Reader.decode Reader.header bytes).mapError RecordDecodeError.mk

def decodeBinding (bytes : Bytes) : Except RecordDecodeError Binding :=
  (Reader.decode Reader.binding bytes).mapError RecordDecodeError.mk

def decodeSnapshotCoverage (bytes : Bytes) : Except RecordDecodeError SnapshotCoverage :=
  (Reader.decode Reader.snapshotCoverage bytes).mapError RecordDecodeError.mk

/-! ## The decoder inverts the encoder -/

open Reader

lemma decode_ok {bytes : Bytes} {v : α} :
    Reader.decode read bytes = .ok v ↔ ∃ rest, read.run bytes = .ok (v, rest) := by
  simp only [Reader.decode, StateT.run']
  cases h : read.run bytes with
  | error e => simp [StateT.run] at h; simp [h, Functor.map, Except.map]
  | ok p => simp [StateT.run] at h; simp [h, Functor.map, Except.map, Prod.ext_iff]

lemma IncompleteReason.fromTag_eq_some (t : UInt8) (r : IncompleteReason) :
    fromTag t = some r ↔ t = r.tag := by
  constructor
  · intro h
    unfold fromTag at h
    split at h <;> cases h <;> rfl
  · intro h
    subst h
    cases r <;> rfl

lemma BindingKind.fromTag_eq_some (t : UInt8) (k : BindingKind) :
    fromTag t = some k ↔ t = k.tag := by
  constructor
  · intro h
    unfold fromTag at h
    split at h <;> cases h <;> rfl
  · intro h
    subst h
    cases k <;> rfl

lemma exact_reason : Exact Always IncompleteReason.encode reason :=
  exact_tag IncompleteReason.fromTag_eq_some

lemma exact_kind : Exact Always (fun k : BindingKind => variant k.tag) kind :=
  exact_tag BindingKind.fromTag_eq_some

lemma exact_status : Exact Always CoverageStatus.encode status := by
  intro input v rest
  simp only [status, exact_u8.bind_ok]
  constructor
  · rintro ⟨_, -, mid, rfl, hk⟩
    split at hk
    · obtain ⟨rfl, rfl⟩ := pure_ok.mp hk
      exact ⟨trivial, rfl⟩
    · obtain ⟨reason, -, mid, rfl, hp⟩ := exact_reason.bind_ok.mp hk
      obtain ⟨rfl, rfl⟩ := pure_ok.mp hp
      exact ⟨trivial, rfl⟩
    · exact (throw_ok.mp hk).elim
  · rintro ⟨-, rfl⟩
    cases v with
    | complete => exact ⟨1, trivial, rest, rfl, pure_ok.mpr ⟨rfl, rfl⟩⟩
    | incomplete reason =>
      refine ⟨2, trivial, reason.encode ++ rest, rfl, ?_⟩
      exact exact_reason.bind_ok.mpr ⟨reason, trivial, rest, rfl, pure_ok.mpr ⟨rfl, rfl⟩⟩

lemma exact_identity : Exact Always SourceIdentity.encode identity := by
  refine Exact.of_enc (exact_field 1 <| exact_path.andThen SourceIdentity.canonical fun _ =>
    exact_field 2 <| exact_path.andThen SourceIdentity.logical fun _ =>
    exact_field 3 <| (exact_option exact_str).andThen SourceIdentity.spelling fun _ =>
    exact_field 4 <| (exact_option exact_str).andThen SourceIdentity.uri fun _ =>
    .of_pure fun v => ?_) fun v => ?_
  · cases v
    simp [and_assoc]
  · simp [SourceIdentity.encode]

lemma exact_origin : Exact Always SourceOrigin.encode origin := by
  refine (exact_u8.andThen (fun v => if v = .library then 2 else 1) fun tag => ?_).of_enc
    fun v => show _ = _ ++ [] by cases v <;> rfl
  split
  · exact .of_pure fun v => by cases v <;> simp
  · exact .of_pure fun v => by cases v <;> simp
  · exact .of_throw fun v => by cases v <;> simp_all [eq_comm]

/-- The decoder of an ambiguous outcome's candidates accepts at most the
permitted number of them. -/
lemma exact_candidates :
    Exact (fun v : Vec SourceIdentity => v.toList.length ≤ maxAmbiguousCandidates)
      (fun v => seq v.toList SourceIdentity.encode) candidates := by
  intro input v rest
  simp only [candidates, exact_length.bind_ok, seq, Encoder.length, List.append_assoc]
  constructor
  · rintro ⟨count, -, _, rfl, hk⟩
    split at hk
    · exact (throw_bind_ok.mp hk).elim
    · rename_i hle
      obtain ⟨⟨l, hl⟩, -, _, rfl, hp⟩ := (exact_identity.times count.toNat).bind_ok.mp hk
      obtain ⟨rfl, rfl⟩ := pure_ok.mp hp
      refine ⟨by simpa [hl] using hle, ?_⟩
      simp [hl]
  · rintro ⟨hle, rfl⟩
    have hcount : (UInt64.ofNat v.toList.length).toNat = v.toList.length :=
      UInt64.toNat_ofNat_of_lt' v.bounded
    refine ⟨UInt64.ofNat v.toList.length, trivial, _, rfl, ?_⟩
    rw [if_neg (by omega)]
    exact (exact_identity.times _).bind_ok.mpr
      ⟨⟨v.toList, hcount.symm⟩, fun _ _ => trivial, rest, rfl, pure_ok.mpr ⟨rfl, rfl⟩⟩

/-- The candidate count an outcome may have to be decoded at all. -/
def BindingOutcome.candidatesFit : BindingOutcome → Prop
  | ambiguous candidates _ => candidates.toList.length ≤ maxAmbiguousCandidates
  | _ => True

/-- Outcomes with few enough candidates are read back exactly. -/
lemma exact_outcome : Exact candidatesFit encode outcome := by
  refine exact_u8.andThen BindingOutcome.tag fun t => ?_
  split
  · exact exact_identity.bind_pure (fun _ => rfl) fun v => by cases v <;> simp [candidatesFit, tag]
  · intro input v rest
    simp only [exact_candidates.bind_ok, exact_bool.bind_ok, pure_ok]
    constructor
    · rintro ⟨_, hfit, _, rfl, _, -, _, rfl, rfl, rfl⟩
      exact ⟨⟨hfit, rfl⟩, by simp [encodeBody]⟩
    · rintro ⟨⟨hfit, htag⟩, rfl⟩
      cases v <;> cases htag
      exact ⟨_, hfit, _, by simp [encodeBody], _, trivial, _, rfl, rfl, rfl⟩
  · intro input v rest
    rw [pure_ok]
    cases v <;> simp [candidatesFit, tag, encodeBody]
  · exact exact_reason.bind_pure (fun _ => rfl) fun v => by cases v <;> simp [candidatesFit, tag]
  · exact .of_throw fun v => by cases v <;> simp_all [tag, eq_comm]

lemma exact_coverageFields : Exact Always SnapshotCoverage.encode coverageFields := by
  refine Exact.of_enc (exact_field 1 <| exact_status.andThen SnapshotCoverage.discovery fun _ =>
    exact_field 2 <| exact_status.andThen SnapshotCoverage.membership fun _ =>
    .of_pure fun v => ?_) fun v => ?_
  · cases v
    simp
  · simp [SnapshotCoverage.encode]

/-- The reader of a header inverts its encoding. -/
lemma exact_headerFields : Exact Always MemberHeader.encode headerFields := by
  refine Exact.of_enc (exact_field 1 <| exact_identity.andThen MemberHeader.source fun _ =>
    exact_field 2 <| (exact_option exact_digest).andThen MemberHeader.artifact fun _ =>
    exact_field 3 <| (exact_option exact_digest).andThen MemberHeader.memberEvidence fun _ =>
    exact_field 4 <| exact_origin.andThen MemberHeader.origin fun _ =>
    exact_field 5 <| (exact_option exact_str).andThen MemberHeader.fallbackUnitName fun _ =>
    exact_field 6 <| exact_field 1 <|
    exact_status.andThen (fun v : MemberHeader => v.coverage.extraction) fun _ =>
    exact_field 2 <| exact_status.andThen (fun v : MemberHeader => v.coverage.resolution) fun _ =>
    .of_pure fun v => ?_) fun v => ?_
  · obtain ⟨_, _, _, _, _, _, _⟩ := v
    simp [and_assoc]
  · simp [MemberHeader.encode, MemberCoverage.encode]

lemma exact_bindingFields :
    Exact (fun v : Binding => v.outcome.candidatesFit) Binding.encode bindingFields := by
  intro input v rest
  simp only [bindingFields, field_bind_ok, exact_kind.bind_ok, exact_u64.bind_ok,
    exact_outcome.bind_ok, (exact_option exact_digest).bind_ok, pure_ok,
    Binding.encode, List.append_assoc, true_and]
  constructor
  · intro h
    rcases h with
      ⟨_, rfl, kind, _, rfl, _, rfl, occurrence, _, rfl, _, rfl, outcome, hfit, _, rfl,
        _, rfl, evidence, _, rfl, rfl, rfl⟩
    exact ⟨hfit, rfl⟩
  · rintro ⟨hfit, rfl⟩
    exact ⟨_, rfl, v.kind, _, rfl, _, rfl, v.occurrence, _, rfl, _, rfl, v.outcome, hfit, _, rfl,
      _, rfl, v.evidence, _, rfl, rfl, rfl⟩

/-- A decoder that reads its fields and requires the end of the input, then
checks the value. -/
lemma finish_run {valid : α → Prop} {check : α → Reader α} (ok : α → Prop)
    (h : Exact valid enc read) (hok : ∀ v, ok v → valid v)
    (hpass : ∀ v, ok v → check v = pure v)
    (hfail : ∀ v, ¬ ok v → ∀ w rest, (check v).run [] = .ok (w, rest) ↔ False)
    (input : Bytes) (v : α) (rest : Bytes) :
    (do let a ← read; finish; check a).run input = .ok (v, rest) ↔
      (ok v ∧ input = enc v) ∧ rest = [] := by
  simp only [h.bind_ok, finish_bind_ok]
  constructor
  · rintro ⟨a, -, _, rfl, rfl, hrun⟩
    by_cases ha : ok a
    · obtain ⟨rfl, rfl⟩ := pure_ok.mp (hpass a ha ▸ hrun)
      exact ⟨⟨ha, by simp⟩, rfl⟩
    · exact ((hfail a ha _ _).mp hrun).elim
  · rintro ⟨⟨hv, rfl⟩, rfl⟩
    exact ⟨v, hok v hv, [], by simp, rfl, by rw [hpass v hv]; exact pure_ok.mpr ⟨rfl, rfl⟩⟩

/-- A decoder that checks nothing but the end of the input. -/
lemma finish_pure_run (h : Exact Always enc read) (input : Bytes) (v : α) (rest : Bytes) :
    (do let a ← read; finish; pure a).run input = .ok (v, rest) ↔
      (True ∧ input = enc v) ∧ rest = [] :=
  finish_run (fun _ => True) h (fun _ _ => trivial) (fun _ _ => rfl)
    (fun _ hv => (hv trivial).elim) input v rest

/-- The header decoder accepts exactly the encodings of headers whose member
evidence comes with an artifact. -/
lemma header_run (input : Bytes) (v : MemberHeader) (rest : Bytes) :
    header.run input = .ok (v, rest) ↔
      (v.evidenceWithoutArtifact = false ∧ input = v.encode) ∧ rest = [] := by
  refine finish_run (fun v => v.evidenceWithoutArtifact = false) exact_headerFields
    (fun _ _ => trivial) (fun v hv => ?_) (fun v hv w rest => ?_) input v rest
  · exact if_neg (Bool.eq_false_iff.mp hv)
  · have hguard : (v.memberEvidence.isSome && v.artifact.isNone) = true := eq_true_of_ne_false hv
    simp only [hguard, if_true, throw_bind_ok]

/-- `binding_error` does not look at the ordinal to decide. -/
lemma bindingError_eq_none_iff (binding : Binding) (ordinal : Nat) :
    bindingError binding ordinal = none ↔ binding.outcome.candidatesOutOfRange = false ∧
        (binding.outcome.needsEvidence && binding.evidence.isNone) = false := by
  unfold bindingError
  split
  · rename_i hrange
    simp [hrange]
  · rename_i hrange
    split
    · rename_i hev
      simp [hev]
    · rename_i hev
      exact iff_of_true rfl ⟨Bool.eq_false_iff.mpr hrange, Bool.eq_false_iff.mpr hev⟩

/-- The count bound the decoder checks early is part of `binding_error`. -/
lemma candidatesFit_of_bindingError {binding : Binding} {ordinal : Nat}
    (h : bindingError binding ordinal = none) : binding.outcome.candidatesFit := by
  have hrange := ((bindingError_eq_none_iff binding ordinal).mp h).1
  cases hout : binding.outcome with
  | ambiguous =>
    rw [hout] at hrange
    simp only [candidatesOutOfRange, Bool.or_eq_false_iff, decide_eq_false_iff_not] at hrange
    exact Nat.le_of_not_lt hrange.1.2
  | _ => trivial

/-- The binding decoder accepts exactly the encodings of bindings that
`binding_error` accepts. -/
lemma binding_run (input : Bytes) (v : Binding) (rest : Bytes) :
    binding.run input = .ok (v, rest) ↔
      (bindingError v 0 = none ∧ input = v.encode) ∧ rest = [] := by
  refine finish_run (fun v => bindingError v 0 = none) exact_bindingFields
    (fun _ => candidatesFit_of_bindingError) (fun v hv => ?_) (fun v hv w rest => ?_) input v rest
  · rw [hv]
  · obtain ⟨_, herror⟩ := Option.ne_none_iff_exists'.1 hv
    rw [herror, throw_ok]

end Lint4d.Cache
