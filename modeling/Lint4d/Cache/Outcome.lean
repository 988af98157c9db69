import Lint4d.Cache.Record

/-!
# Store limits and outcomes

The bounds the store admits (`store/limits.rs`) and the reasons its operations
give for not using it (`store/outcome.rs`).
-/

namespace Lint4d.Cache

/-! ## Limits -/

def maxRowBatchRows : Nat := 256
def maxRowBatchBytes : Nat := 1024 * 1024
def maxArtifactContentBytes : Nat := 16 * 1024 * 1024
def maxArtifactRows : Nat := 1024 * 1024
def maxManifestBytes : Nat := 1024 * 1024
def maxSupplementalBytes : Nat := 1024 * 1024
def maxIndexKeyBytes : Nat := 4096
def maxEvidenceObservations : Nat := 65536
def maxMemberBindings : Nat := 65536
def maxSnapshotMembers : Nat := 100000
def maxSnapshotCandidates : Nat := 8

/-! ## Outcomes -/

/-- Why a seal was refused. -/
inductive SealRefusal where
  | countMismatch
  | retiredRecord
  | discoveryEvidence
deriving DecidableEq

/-- A write over an admission limit. -/
inductive TooLarge where
  | manifest (bytes : Nat)
  | supplemental (bytes : Nat)
  | rows (count : Nat)
  | row (ordinal bytes : Nat)
  | indexKey (ordinal bytes : Nat)
  | content (bytes : Nat)
  | observations (count : Nat)
  | bindings (count : Nat)
  | sourceKey (bytes : Nat)
  | members (added : Nat)
  | batch (bytes : Nat)
deriving DecidableEq

inductive Integrity where
  | conflictingManifest
  | conflictingArtifact
  | conflictingEvidence
  | conflictingRecord
deriving DecidableEq

/-- Why an operation did not use the persistent store.  The conditions of the
file, the connection and the platform that no modelled operation distinguishes
are one case with the error's code. -/
inductive Bypass where
  | fenced
  | busy
  | full
  | walPressure
  | overBudget
  | lowDiskSpace
  | tooManyHolds
  | invalidMaintenanceLimits
  | scratchExhausted
  | tooLarge (error : TooLarge)
  | invalidRowKind (ordinal : Nat)
  | integrity (error : Integrity)
  | retiring
  | evidenceForLocalArtifact
  | invalidRecord (error : MemberError)
  | missingReference
  | builderFenced
  | duplicateMember
  | sealRefused (refusal : SealRefusal)
  | sqlite (extendedCode : Int)
deriving DecidableEq

inductive Malformed where
  | header
  | row
  | ordinal
  | count
  | facts
  | evidence
  | member
  | snapshot
deriving DecidableEq

/-- Why a lookup found nothing usable. -/
inductive Miss where
  | absent
  | keyMismatch
  | retired
  | malformed (part : Malformed)
  | oversized
  | checksumMismatch
  | vanished
deriving DecidableEq

inductive Published where
  | inserted
  | alreadyPresent
deriving DecidableEq

end Lint4d.Cache
